import SafePreview.Proofs.Session.Flow
import SafePreview.Proofs.Session.Keeper

/-!
# The channel of commands

Callers with a content wait in two places, among those that found the session open (`calls`) and in
the channel of commands. `Link.asking` lists them all, each with its content. Others are answered
too, who ask for the session to be closed or send a message. All that has to be known of them is who
they are (`Link.others`), so that no answer to one of them is taken for an answer to a content.

What a pulse can do there is said once (`Link.Course`): a caller finds the session open, posts its
content, is refused or goes away, the keeper takes a command or stops, or the pulse has nothing to
do with contents. A refusal never comes together with a change of the session: a session refuses
where its status says that it is closed or where the keeper has stopped or stops, and none of these
is a thing done to the session.
-/

namespace SafePreview

open Markup (SafeMarkup)

/-- The content that a command brings, and who waits for the receipt. -/
def Command.ask? : Command → Option (Nat × SafeMarkup)
  | .update caller markup => some (caller, markup)
  | .close _ => none

/-- Who waits for the answer to a command that brings no content. -/
def Command.closer? : Command → Option Nat
  | .update _ _ => none
  | .close caller => some caller

/-! ## The count of a session -/

/-- The content that an operation asks for. -/
def Session.Operation.content? : Session.Operation → Option SafeMarkup
  | .update markup => some markup
  | _ => none

/-- **Only a content that is taken is counted.** -/
theorem Session.nextRevision_perform (s : Session) (op : Session.Operation)
    (h : op.content? = none) : (s.perform op).2.nextRevision = s.nextRevision := by
  have hclose (reason : CloseReason) : (s.close reason).nextRevision = s.nextRevision := by
    unfold close
    split
    · rfl
    · rfl
  cases op with
  | update markup => cases h
  | contextCreated =>
    rw [perform]
    unfold contextCreated
    split
    · rfl
    · rfl
    · rfl
  | receive message =>
    rw [perform]
    unfold receive
    split
    · rfl
    · rfl
    · rfl
    · split
      · rfl
      · rfl
    · exact hclose _
  | timeout =>
    rw [perform]
    unfold handshakeTimedOut
    split
    · exact hclose _
    · rfl
  | close reason => exact hclose reason
  | takeOutbox => rfl

namespace Link

/-- A caller that is found among others. -/
theorem perm_cons_eraseP {α : Type} {p : α → Bool} {as : List α} {a : α}
    (h : as.find? p = some a) : as.Perm (a :: as.eraseP p) := by
  induction as with
  | nil => cases h
  | cons b as ih =>
    rw [List.find?_cons] at h
    split at h
    · rename_i hb
      cases h
      rw [List.eraseP_cons_of_pos hb]
    · rename_i hb
      rw [List.eraseP_cons_of_neg (by rw [hb]; decide)]
      exact ((ih h).cons b).trans (.swap a b _)

/-- An answer to one who may be answered. -/
theorem mem_of_answered {caller : Nat} {told : Answer} {effects : List Effect}
    (heffects : effects ⊆ [.answered caller told]) {other : Nat} {answer : Answer}
    (h : Effect.answered other answer ∈ effects) : other = caller := by
  cases List.mem_singleton.1 (heffects h)
  rfl

variable [Channels]

/-! ## Who asks and who else waits -/

/-- **Those who ask for a content to be shown** and were told nothing yet. -/
def asking (l : Link) : List (Nat × SafeMarkup) :=
  l.commands.toList.filterMap Command.ask? ++ l.calls

/-- **All others who may be answered.** -/
def others (l : Link) : List Nat :=
  l.commands.toList.filterMap Command.closer? ++ l.inbound.toList.map (·.1)

/-- The others ask for the session to be closed, or send a message. -/
theorem mem_others {l : Link} {caller : Nat} : caller ∈ l.others ↔
    .close caller ∈ l.commands.toList ∨ ∃ message, (caller, message) ∈ l.inbound.toList := by
  have hcloser (command : Command) : command.closer? = some caller ↔ command = .close caller := by
    cases command with
    | update other markup => exact ⟨nofun, nofun⟩
    | close other => exact ⟨fun h => congrArg _ (Option.some_inj.1 h), fun h => by rw [h]; rfl⟩
  rw [others, List.mem_append, List.mem_filterMap, List.mem_map]
  refine or_congr ⟨?_, ?_⟩ ⟨?_, ?_⟩
  · rintro ⟨command, hmem, hcommand⟩
    exact (hcloser command).1 hcommand ▸ hmem
  · exact fun hmem => ⟨_, hmem, rfl⟩
  · rintro ⟨⟨sender, message⟩, hmem, rfl⟩
    exact ⟨message, hmem⟩
  · rintro ⟨message, hmem⟩
    exact ⟨_, hmem, rfl⟩

/-- Who asks for a content with a pulse. -/
def Pulse.asks : Pulse → List (Nat × SafeMarkup)
  | .event (.call caller markup) => [(caller, markup)]
  | _ => []

/-- Who else may be answered from a pulse on. -/
def Pulse.others : Pulse → List Nat
  | .event (.close caller) => [caller]
  | .event (.send sender _) => [sender]
  | _ => []

/-- **A link to whose session nothing happened**, and to whose context nothing was added. -/
structure Undisturbed (l l' : Link) : Prop where
  session : l'.session = l.session
  status : l'.status = l.status
  unsent : l'.unsent = l.unsent
  outbound : l'.outbound <+: l.outbound

theorem undisturbed_rfl (l : Link) : l.Undisturbed l := ⟨rfl, rfl, rfl, List.prefix_rfl⟩

theorem Undisturbed.trans {l l' l'' : Link} (h : l.Undisturbed l') (h' : l'.Undisturbed l'') :
    l.Undisturbed l'' where
  session := h'.session.trans h.session
  status := h'.status.trans h.status
  unsent := h'.unsent.trans h.unsent
  outbound := h'.outbound.trans h.outbound

theorem Keeps.asking {l l' : Link} (h : l.Keeps l') : l'.asking = l.asking := by
  rw [Link.asking, Link.asking, h.calls, h.commands]

theorem Keeps.others {l l' : Link} (h : l.Keeps l') : l'.others = l.others := by
  rw [Link.others, Link.others, h.commands, h.inbound]

/-- In a link that was just opened nobody asks for anything. -/
theorem asking_opened (capacity clock timeout : Nat) :
    (opened capacity clock timeout).asking = [] := by
  show Channel.empty.toList.filterMap Command.ask? ++ [] = []
  rw [Channel.toList_empty]
  rfl

theorem others_opened (capacity clock timeout : Nat) :
    (opened capacity clock timeout).others = [] := by
  show Channel.empty.toList.filterMap Command.closer? ++ Channel.empty.toList.map Prod.fst = []
  rw [Channel.toList_empty, Channel.toList_empty]
  rfl

/-- A keeper that stops leaves only the callers that have not posted yet. -/
theorem asking_stop (l : Link) : l.stop.1.asking = l.calls := by
  show Channel.empty.toList.filterMap Command.ask? ++ l.calls = l.calls
  rw [Channel.toList_empty]
  rfl

theorem others_stop (l : Link) : l.stop.1.others = [] := by
  show Channel.empty.toList.filterMap Command.closer? ++ Channel.empty.toList.map Prod.fst = []
  rw [Channel.toList_empty, Channel.toList_empty]
  rfl

/-- **Who goes away asks for nothing that is not in the channel yet**, and nobody else is
affected. -/
theorem asking_vanish (l : Link) (caller : Nat) :
    ∃ left, l.asking.Perm (left ++ (l.vanish caller).asking) ∧ ∀ ask ∈ left, ask.1 = caller := by
  have hline := List.filter_append_perm (fun command => decide (Command.caller command = caller))
    l.commands.waiting
  have hcalls := List.filter_append_perm (fun call => decide (call.1 = caller)) l.calls
  refine ⟨(l.commands.waiting.filter fun command => decide (command.caller = caller)).filterMap
      Command.ask? ++ l.calls.filter fun call => decide (call.1 = caller), ?_, ?_⟩
  · have hlined := hline.filterMap Command.ask?
    rw [List.filterMap_append] at hlined
    rw [asking, asking, vanish, Channel.toList, Channel.toList, Channel.items_withdraw,
      Channel.waiting_withdraw, List.filterMap_append, List.filterMap_append]
    refine List.perm_iff_count.2 fun ask => ?_
    have hlined := hlined.count_eq ask
    have hcalls := hcalls.count_eq ask
    simp only [List.count_append] at hlined hcalls ⊢
    omega
  · intro ask hask
    rcases List.mem_append.1 hask with hline | hcall
    · obtain ⟨command, hmem, hcommand⟩ := List.mem_filterMap.1 hline
      have hcaller := of_decide_eq_true (List.mem_filter.1 hmem).2
      cases command with
      | update other markup =>
        cases hcommand
        exact hcaller
      | close other => cases hcommand
    · exact of_decide_eq_true (List.mem_filter.1 hcall).2

theorem others_vanish (l : Link) (caller : Nat) : (l.vanish caller).others ⊆ l.others := by
  intro other hother
  rw [mem_others] at hother ⊢
  exact hother.imp (fun hmem => (Channel.toList_withdraw_sublist _ _).subset hmem)
    (Exists.imp fun _ hmem => (Channel.toList_withdraw_sublist _ _).subset hmem)

variable {l l' : Link} {p : Pulse} {effects : List Effect}

/-! ## What a pulse comes to -/

/-- **How a content comes to be refused.** -/
inductive Refusal (l : Link) (p : Pulse) (caller : Nat) (markup : SafeMarkup) : Prop
  /-- Its caller looked, and the status said that the session is closed. -/
  | published (pulse : p = .event (.call caller markup)) (status : l.status.phase = .closed)
  /-- Its caller found the session open, but the channel was closed when it posted. -/
  | mailbox (pulse : p = .event (.post caller)) (found : (caller, markup) ∈ l.calls)
      (stopped : l.stopped = true)
  /-- It was left in the channel when the keeper stopped. -/
  | left (pulse : p = .event .turn ∨ p = .stop)
      (command : .update caller markup ∈ l.commands.toList)
      (closed : l.session.phase = .closed)

/-- **The receipts given**, each with its caller, in order. -/
def receipts (effects : List Effect) : List (Nat × Receipt) :=
  effects.filterMap fun
    | .answered caller (.receipt receipt) => some (caller, receipt)
    | _ => none

/-- **What a pulse comes to** for those who ask for a content, and for the channel. -/
inductive Course (l : Link) (p : Pulse) (l' : Link) (effects : List Effect) : Prop
  /-- It has nothing to do with contents. At most commands to close get in line. -/
  | passes (closers : List Command) (quiet : closers.filterMap Command.ask? = [])
      (commands : l'.commands.toList = l.commands.toList ++ closers) (calls : l'.calls = l.calls)
      (others : l'.others ⊆ l.others ++ p.others) (asks : p.asks = [])
      (next : l'.session.nextRevision = l.session.nextRevision)
      (accepted : accepted effects = []) (receipts : receipts effects = [])
      (answered : ∀ caller answer, .answered caller answer ∈ effects →
        caller ∈ l.others ++ p.others)
  /-- A caller finds the session open. -/
  | finds (caller : Nat) (markup : SafeMarkup) (pulse : p = .event (.call caller markup))
      (link : l' = { l with calls := l.calls ++ [(caller, markup)] }) (effects : effects = [])
  /-- A caller posts its content. -/
  | posts (caller : Nat) (markup : SafeMarkup) (pulse : p = .event (.post caller))
      (calls : l.calls.Perm ((caller, markup) :: l'.calls))
      (commands : l'.commands.toList = l.commands.toList ++ [.update caller markup])
      (inbound : l'.inbound = l.inbound) (session : l'.session = l.session)
      (effects : effects = [])
  /-- A caller is refused, before its content is in the channel. -/
  | refuses (caller : Nat) (markup : SafeMarkup) (refusal : l.Refusal p caller markup)
      (calls : (l.calls ++ p.asks).Perm ((caller, markup) :: l'.calls))
      (commands : l'.commands = l.commands) (inbound : l'.inbound = l.inbound)
      (unmoved : l.Undisturbed l') (effects : effects = [.answered caller .refused])
  /-- A caller goes away, and with it what of it is not in the channel yet. -/
  | vanishes (caller : Nat) (pulse : p = .event (.vanish caller)) (link : l' = l.vanish caller)
      (effects : effects = [])
  /-- The keeper takes a content, and the open session counts it. -/
  | takes (caller : Nat) (markup : SafeMarkup) (receipt : Receipt)
      (commands : l.commands.toList = .update caller markup :: l'.commands.toList)
      (calls : l'.calls = l.calls) (inbound : l'.inbound = l.inbound) (asks : p.asks = [])
      (stopped : l'.stopped = l.stopped) (isOpen : l.session.phase ≠ .closed)
      (revision : receipt.revision = l.session.nextRevision)
      (next : l'.session.nextRevision = l.session.nextRevision + 1)
      (effects : effects = [.accepted receipt markup, .answered caller (.receipt receipt)])
  /-- The keeper takes a command to close. -/
  | closes (caller : Nat) (commands : l.commands.toList = .close caller :: l'.commands.toList)
      (calls : l'.calls = l.calls) (inbound : l'.inbound = l.inbound) (asks : p.asks = [])
      (stopped : l'.stopped = l.stopped) (isOpen : l.session.phase ≠ .closed)
      (next : l'.session.nextRevision = l.session.nextRevision) (effects : effects = [])
  /-- The keeper stops. -/
  | stops (pulse : p = .event .turn ∨ p = .stop) (closed : l.session.phase = .closed)
      (link : l' = l.stop.1) (effects : effects = l.stop.2)

/-- Where all who wait are kept and nothing is counted, a pulse passes. -/
theorem Keeps.course (h : l.Keeps l') (hasks : p.asks = [])
    (hnext : l'.session.nextRevision = l.session.nextRevision) (haccepted : accepted effects = [])
    (hanswered : ∀ caller answer, .answered caller answer ∉ effects) : l.Course p l' effects := by
  refine .passes [] rfl ?_ h.calls (h.others ▸ List.subset_append_left _ _) hasks hnext haccepted
    ?_ fun caller answer hmem => absurd hmem (hanswered caller answer)
  · rw [h.commands, List.append_nil]
  · refine List.filterMap_eq_nil_iff.2 fun effect hmem => ?_
    cases effect with
    | answered caller answer => exact absurd hmem (hanswered caller answer)
    | accepted receipt markup => rfl
    | read message => rfl

/-- Where there are no effects nobody is answered. -/
theorem Keeps.course_of_silent (h : l.Keeps l') (hasks : p.asks = [])
    (hnext : l'.session.nextRevision = l.session.nextRevision) : l.Course p l' [] :=
  h.course hasks hnext rfl fun _ _ => List.not_mem_nil

/-! ### The keeper -/

/-- To settle a turn counts nothing. -/
theorem nextRevision_settleTurn (l : Link) :
    l.settleTurn.session.nextRevision = l.session.nextRevision := by
  have hdrain (l : Link) : l.drain.session.nextRevision = l.session.nextRevision := by
    unfold drain
    split
    · rfl
    · split
      · exact l.session.nextRevision_perform (.close .contextGone) rfl
      · rfl
  by_cases h : l.session.phase = .closed
  · rw [settleTurn_of_closed h]
    rfl
  · rw [settleTurn_of_open h]
    exact hdrain l.collect

/-- Only in the part in which it obeys the keeper has to do with commands. -/
theorem part_of_ne_obey (l : Link) {part : Part} (h : part ≠ .obey) :
    (l.part part).2 = [] ∧ (l.part part).1.commands = l.commands
      ∧ (l.part part).1.calls = l.calls ∧ (l.part part).1.others ⊆ l.others
      ∧ (l.part part).1.session.nextRevision = l.session.nextRevision := by
  have hsame : l.others ⊆ l.others := List.Subset.refl _
  cases part with
  | hear =>
    rw [Link.part]
    split
    · rename_i sender message inbound hheard
      refine ⟨rfl, rfl, rfl, ?_, l.session.nextRevision_perform (.receive _) rfl⟩
      intro caller hcaller
      rw [mem_others, Channel.toList_receive? hheard]
      exact (mem_others.1 hcaller).imp_right (Exists.imp fun _ => List.mem_cons_of_mem _)
    · exact ⟨rfl, rfl, rfl, hsame, rfl⟩
  | obey => exact absurd rfl h
  | miss =>
    rw [Link.part]
    split
    · exact ⟨rfl, rfl, rfl, hsame, l.session.nextRevision_perform (.close _) rfl⟩
    · exact ⟨rfl, rfl, rfl, hsame, rfl⟩
  | forgo =>
    rw [Link.part]
    split
    · exact ⟨rfl, rfl, rfl, hsame, l.session.nextRevision_perform (.close _) rfl⟩
    · exact ⟨rfl, rfl, rfl, hsame, rfl⟩
  | expire =>
    rw [Link.part]
    split
    · exact ⟨rfl, rfl, rfl, hsame, l.session.nextRevision_perform .timeout rfl⟩
    · exact ⟨rfl, rfl, rfl, hsame, rfl⟩
  | collect => exact ⟨rfl, rfl, rfl, hsame, rfl⟩
  | handOver n => exact ⟨rfl, rfl, rfl, hsame, rfl⟩
  | giveUp =>
    rw [Link.part]
    split
    · exact ⟨rfl, rfl, rfl, hsame, l.session.nextRevision_perform (.close _) rfl⟩
    · exact ⟨rfl, rfl, rfl, hsame, rfl⟩

/-- **A part of a turn** takes a command, or has nothing to do with contents, whatever the keeper
does to its own behind it. -/
theorem part_course (hopen : l.session.phase ≠ .closed) (part : Part) (hasks : p.asks = [])
    (hkeeps : (l.part part).1.Keeps l') (hstopped : l'.stopped = l.stopped)
    (hnext : l'.session.nextRevision = (l.part part).1.session.nextRevision) :
    l.Course p l' (l.part part).2 := by
  by_cases hpart : part = .obey
  · subst hpart
    cases hcommand : l.commands.receive? with
    | none =>
      have hidle : l.part .obey = (l, []) := by rw [Link.part, hcommand]
      rw [hidle] at hkeeps hnext ⊢
      exact hkeeps.course_of_silent hasks hnext
    | some received =>
      obtain ⟨command, commands⟩ := received
      have hcommands : l.commands.toList = command :: l'.commands.toList := by
        have hkept := hkeeps.commands
        rw [Link.part, hcommand] at hkept
        rw [Channel.toList_receive? hcommand, hkept]
        cases command with
        | close caller => rfl
        | update caller markup => rfl
      have hask : l.part .obey = { l with commands }.ask command := by rw [Link.part, hcommand]
      rw [hask] at hkeeps hnext ⊢
      cases command with
      | close caller =>
        exact .closes caller hcommands hkeeps.calls hkeeps.inbound hasks hstopped hopen
          (hnext.trans (l.session.nextRevision_perform (.close .hostClosed) rfl)) rfl
      | update caller markup =>
        obtain ⟨receipt, hreceipt, hrevision, hcount⟩ :=
          Session.exists_receipt markup hopen
        refine .takes caller markup receipt hcommands hkeeps.calls hkeeps.inbound hasks hstopped
          hopen hrevision (hnext.trans hcount) ?_
        rw [ask, hreceipt]
  · obtain ⟨heffects, hcommands, hcalls, hothers, hcount⟩ := l.part_of_ne_obey hpart
    rw [heffects]
    refine .passes [] rfl ?_ (hkeeps.calls.trans hcalls) ?_ hasks (hnext.trans hcount) rfl rfl
      fun _ _ hmem => absurd hmem List.not_mem_nil
    · rw [hkeeps.commands, hcommands, List.append_nil]
    · rw [hkeeps.others]
      exact List.Subset.trans hothers (List.subset_append_left _ _)

/-- The first turn has nothing to do with contents. -/
theorem start_course (l : Link) (hasks : p.asks = []) : l.Course p l.start [] := by
  have hcreated : l.create.session.nextRevision = l.session.nextRevision :=
    l.session.nextRevision_perform .contextCreated rfl
  refine l.rests_start.toKeeps.course_of_silent hasks ?_
  rw [start_eq]
  split
  · exact (nextRevision_settleTurn _).trans hcreated
  · exact hcreated

/-! ### Those around it -/

/-- A caller looks whether the session is open. -/
theorem call_course (l : Link) (caller : Nat) (markup : SafeMarkup) :
    l.Course (.event (.call caller markup)) (l.call caller markup).1 (l.call caller markup).2 := by
  rw [call]
  split
  · rename_i hstatus
    exact .refuses caller markup (.published rfl hstatus) List.perm_append_comm rfl rfl
      l.undisturbed_rfl rfl
  · exact .finds caller markup rfl rfl rfl

/-- A caller posts its content. -/
theorem post_course (l : Link) (caller : Nat) :
    l.Course (.event (.post caller)) (l.post caller).1 (l.post caller).2 := by
  rw [post]
  split
  · exact l.keeps_rfl.course_of_silent rfl rfl
  · rename_i found markup hfound
    obtain rfl : found = caller := by simpa using List.find?_some hfound
    have hcalls := perm_cons_eraseP hfound
    dsimp only
    split
    · rename_i hstopped
      refine .refuses found markup (.mailbox rfl (List.mem_of_find?_eq_some hfound) hstopped) ?_
        rfl rfl ⟨rfl, rfl, rfl, List.prefix_rfl⟩ rfl
      show (l.calls ++ []).Perm _
      rw [List.append_nil]
      exact hcalls
    · exact .posts found markup rfl hcalls Channel.toList_send rfl rfl rfl

/-- A caller asks for the session to be closed. -/
theorem askClose_course (l : Link) (caller : Nat) :
    l.Course (.event (.close caller)) (l.askClose caller).1 (l.askClose caller).2 := by
  have hcaller : caller ∈ l.others ++ [caller] :=
    List.mem_append_right _ (List.mem_singleton_self _)
  rw [askClose]
  split
  · refine .passes [] rfl (List.append_nil _).symm rfl (List.subset_append_left _ _) rfl rfl rfl
      rfl ?_
    exact fun other answer hmem => mem_of_answered (List.Subset.refl _) hmem ▸ hcaller
  · refine .passes [.close caller] rfl Channel.toList_send rfl ?_ rfl rfl ?_ ?_ ?_
    · intro other hother
      rw [mem_others] at hother
      dsimp only at hother
      rw [Channel.toList_send, List.mem_append, List.mem_singleton] at hother
      rcases hother with (hbefore | hcommand) | hinbound
      · exact List.mem_append_left _ (mem_others.2 (.inl hbefore))
      · cases hcommand
        exact hcaller
      · exact List.mem_append_left _ (mem_others.2 (.inr hinbound))
    · split
      · rfl
      · rfl
    · split
      · rfl
      · rfl
    · intro other answer hmem
      have hone : (if l.commands.hasRoom l.capacity then [Effect.answered caller .done] else [])
          ⊆ [.answered caller .done] := by
        split
        · exact List.Subset.refl _
        · exact List.nil_subset _
      exact mem_of_answered hone hmem ▸ hcaller

/-- The context sends a message. -/
theorem send_course (l : Link) (sender : Nat) (message : ContextMessage) :
    l.Course (.event (.send sender message)) (l.send sender message).1
      (l.send sender message).2 := by
  have hsender : sender ∈ l.others ++ [sender] :=
    List.mem_append_right _ (List.mem_singleton_self _)
  rw [send]
  split
  · refine .passes [] rfl (List.append_nil _).symm rfl (List.subset_append_left _ _) rfl rfl rfl
      rfl ?_
    exact fun other answer hmem => mem_of_answered (List.Subset.refl _) hmem ▸ hsender
  · refine .passes [] rfl (List.append_nil _).symm rfl ?_ rfl rfl ?_ ?_ ?_
    · intro other hother
      rw [mem_others] at hother
      dsimp only at hother
      rw [Channel.toList_send] at hother
      rcases hother with hcommand | ⟨message', hmem⟩
      · exact List.mem_append_left _ (mem_others.2 (.inl hcommand))
      · rcases List.mem_append.1 hmem with hmem | hmem
        · exact List.mem_append_left _ (mem_others.2 (.inr ⟨message', hmem⟩))
        · cases List.mem_singleton.1 hmem
          exact hsender
    · split
      · rfl
      · rfl
    · split
      · rfl
      · rfl
    · intro other answer hmem
      have hone : (if l.inbound.hasRoom l.capacity then [Effect.answered sender .done] else [])
          ⊆ [.answered sender .done] := by
        split
        · exact List.Subset.refl _
        · exact List.nil_subset _
      exact mem_of_answered hone hmem ▸ hsender

/-- The first in line for commands gets in. -/
theorem admitCommand_course (l : Link) :
    l.Course (.event .admitCommand) (l.admitCommand?.getD (l, [])).1
      (l.admitCommand?.getD (l, [])).2 := by
  rw [admitCommand?]
  cases hadmit : l.commands.admit? l.capacity with
  | none => exact l.keeps_rfl.course_of_silent rfl rfl
  | some admitted =>
    obtain ⟨command, commands⟩ := admitted
    have hcommands : commands.toList = l.commands.toList := Channel.toList_admit? hadmit
    have hadmitted : command ∈ l.commands.toList :=
      List.mem_append_right _ (Channel.waiting_of_admit? hadmit ▸ List.mem_cons_self)
    refine .passes [] rfl (hcommands.trans (List.append_nil _).symm) rfl ?_ rfl rfl ?_ ?_ ?_
    · intro other hother
      rw [mem_others] at hother
      dsimp only at hother
      exact List.mem_append_left _ (mem_others.2 (hcommands ▸ hother))
    · cases command with
      | update caller markup => rfl
      | close caller => rfl
    · cases command with
      | update caller markup => rfl
      | close caller => rfl
    · intro other answer hanswered
      cases command with
      | update caller markup => cases hanswered
      | close caller =>
        cases List.mem_singleton.1 hanswered
        exact List.mem_append_left _ (mem_others.2 (.inl hadmitted))

/-- The first in line for messages gets in. -/
theorem admitMessage_course (l : Link) :
    l.Course (.event .admitMessage) (l.admitMessage?.getD (l, [])).1
      (l.admitMessage?.getD (l, [])).2 := by
  rw [admitMessage?]
  cases hadmit : l.inbound.admit? l.capacity with
  | none => exact l.keeps_rfl.course_of_silent rfl rfl
  | some admitted =>
    obtain ⟨⟨sender, message⟩, inbound⟩ := admitted
    have hinbound : inbound.toList = l.inbound.toList := Channel.toList_admit? hadmit
    have hadmitted : (sender, message) ∈ l.inbound.toList :=
      List.mem_append_right _ (Channel.waiting_of_admit? hadmit ▸ List.mem_cons_self)
    refine .passes [] rfl (List.append_nil _).symm rfl ?_ rfl rfl rfl rfl ?_
    · intro other hother
      rw [mem_others] at hother
      dsimp only at hother
      exact List.mem_append_left _ (mem_others.2 (hinbound ▸ hother))
    · intro other answer hanswered
      cases List.mem_singleton.1 hanswered
      exact List.mem_append_left _ (mem_others.2 (.inr ⟨message, hadmitted⟩))

/-- **What an event comes to.** Of those around the keeper only callers have to do with contents. -/
theorem step_course (l : Link) (e : Event) :
    l.Course (.event e) (l.step e).1 (l.step e).2 := by
  cases e with
  | call caller markup => exact l.call_course caller markup
  | post caller => exact l.post_course caller
  | close caller => exact l.askClose_course caller
  | send sender message => exact l.send_course sender message
  | admitCommand => exact l.admitCommand_course
  | admitMessage => exact l.admitMessage_course
  | read =>
    rw [step, read]
    split
    · exact l.keeps_rfl.course_of_silent rfl rfl
    · rename_i message rest _
      have hkeeps : l.Keeps { l with outbound := rest } := ⟨rfl, rfl, rfl⟩
      split
      · exact hkeeps.course rfl rfl rfl fun _ _ hmem => by cases List.mem_singleton.1 hmem
      · exact l.keeps_rfl.course_of_silent rfl rfl
  | deafen => exact Keeps.course_of_silent ⟨rfl, rfl, rfl⟩ rfl rfl
  | silence => exact Keeps.course_of_silent ⟨rfl, rfl, rfl⟩ rfl rfl
  | vanish caller => exact .vanishes caller rfl rfl rfl
  | forsake => exact Keeps.course_of_silent ⟨rfl, rfl, rfl⟩ rfl rfl
  | elapse ms => exact Keeps.course_of_silent ⟨rfl, rfl, rfl⟩ rfl rfl
  | turn =>
    rw [step]
    cases hturn : l.turn? with
    | none => exact l.keeps_rfl.course_of_silent rfl rfl
    | some next =>
      obtain ⟨l', effects⟩ := next
      rcases turn?_cases hturn with
        ⟨_, rfl, rfl⟩ | ⟨hclosed, rfl, rfl⟩ | ⟨_, hopen, part, _, rfl, rfl⟩
      · exact l.start_course rfl
      · exact .stops (.inl rfl) hclosed rfl rfl
      · exact part_course hopen part rfl (rests_settleTurn _).toKeeps
          ((rests_settleTurn _).stopped.trans (l.steady_part part).1.stopped)
          (nextRevision_settleTurn _)

/-- **What a pulse comes to.** -/
theorem pulse_course (l : Link) (p : Pulse) : l.Course p (l.pulse p).1 (l.pulse p).2 := by
  cases p with
  | event e => exact l.step_course e
  | create =>
    rw [pulse]
    split
    · exact l.keeps_rfl.course_of_silent rfl rfl
    · exact Keeps.course_of_silent ⟨rfl, rfl, rfl⟩ rfl
        (l.session.nextRevision_perform .contextCreated rfl)
  | part part =>
    rw [pulse]
    split
    · rename_i hwork
      exact part_course hwork.2 part rfl (keeps_rfl _) (l.steady_part part).1.stopped rfl
    · exact l.keeps_rfl.course_of_silent rfl rfl
  | discard =>
    rw [pulse]
    split
    · exact Keeps.course_of_silent ⟨rfl, rfl, rfl⟩ rfl rfl
    · exact l.keeps_rfl.course_of_silent rfl rfl
  | publish => exact Keeps.course_of_silent ⟨rfl, rfl, rfl⟩ rfl rfl
  | stop =>
    rw [pulse]
    split
    · rename_i hclosed
      exact .stops (.inr rfl) hclosed rfl rfl
    · exact l.keeps_rfl.course_of_silent rfl rfl

end Link

end SafePreview
