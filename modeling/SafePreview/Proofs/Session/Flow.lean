import SafePreview.Proofs.Session.Keeper

/-!
# The flow of messages through a link

A content passes through four places on its way to the context: it waits in the session, then in the
outbox, then among the messages for which there was no room, and then in the channel. `Link.Flow`
extends the books of the session to all of them. What left the session is what was handed over and
what is still unsent; what was handed over was read or is in the channel, as long as the context can
read.

Each part of a turn keeps the flow (`Flow.part`), and so does a whole turn (`Flow.turn`), which is
one part and what settles it.
-/

namespace SafePreview

open Markup (SafeMarkup)

namespace Link

/-! ## What can be seen of a life -/

/-- **The messages that the context read**, in order. -/
def received (effects : List Effect) : List HostMessage :=
  effects.filterMap fun
    | .read message => some message
    | _ => none

/-- **The contents that the session took**, in order. -/
def accepted (effects : List Effect) : List SafeMarkup :=
  effects.filterMap fun
    | .accepted _ markup => some markup
    | _ => none

theorem received_append (first more : List Effect) :
    received (first ++ more) = received first ++ received more := List.filterMap_append

theorem accepted_append (first more : List Effect) :
    accepted (first ++ more) = accepted first ++ accepted more := List.filterMap_append

/-- Effects that tell of no message read and of no content taken. -/
def IsQuiet (effects : List Effect) : Prop := received effects = [] ∧ accepted effects = []

theorem isQuiet_of_forall {effects : List Effect}
    (h : ∀ effect ∈ effects, ∃ caller answer, effect = .answered caller answer) :
    IsQuiet effects := by
  constructor
  · refine List.filterMap_eq_nil_iff.2 fun effect heffect => ?_
    obtain ⟨caller, answer, rfl⟩ := h effect heffect
    rfl
  · refine List.filterMap_eq_nil_iff.2 fun effect heffect => ?_
    obtain ⟨caller, answer, rfl⟩ := h effect heffect
    rfl

variable [Channels]

/-- A keeper that stops tells those who wait that they are refused, or that it is done. -/
theorem exists_of_mem_stop {l : Link} {effect : Effect} (h : effect ∈ l.stop.2) :
    ∃ caller, effect = .answered caller .refused ∨ effect = .answered caller .done := by
  rw [stop, farewell, List.mem_append, List.mem_append] at h
  rcases h with (hqueued | hwaiting) | hsender
  · obtain ⟨command, _, hcommand⟩ := List.mem_filterMap.1 hqueued
    cases command with
    | update caller markup =>
      cases hcommand
      exact ⟨caller, .inl rfl⟩
    | close caller => cases hcommand
  · obtain ⟨command, _, rfl⟩ := List.mem_map.1 hwaiting
    cases command with
    | update caller markup => exact ⟨caller, .inl rfl⟩
    | close caller => exact ⟨caller, .inr rfl⟩
  · obtain ⟨sender, _, rfl⟩ := List.mem_map.1 hsender
    exact ⟨sender.1, .inl rfl⟩

/-- It reads nothing for the context and takes no content. -/
theorem isQuiet_stop (l : Link) : IsQuiet l.stop.2 := by
  refine isQuiet_of_forall fun effect heffect => ?_
  obtain ⟨caller, rfl | rfl⟩ := exists_of_mem_stop heffect
  · exact ⟨_, _, rfl⟩
  · exact ⟨_, _, rfl⟩

/-! ## Events that touch neither the session nor the channel to the context -/

/-- **Links that agree on the way from the session to the context.** -/
structure Agrees (l l' : Link) : Prop where
  session : l'.session = l.session
  capacity : l'.capacity = l.capacity
  started : l'.started = l.started
  outbound : l'.outbound = l.outbound
  unsent : l'.unsent = l.unsent
  listening : l'.listening = l.listening

theorem agrees_rfl (l : Link) : l.Agrees l := ⟨rfl, rfl, rfl, rfl, rfl, rfl⟩

theorem agrees_publish (l : Link) : l.Agrees l.publish := ⟨rfl, rfl, rfl, rfl, rfl, rfl⟩

theorem agrees_stop (l : Link) : l.Agrees l.stop.1 := ⟨rfl, rfl, rfl, rfl, rfl, rfl⟩

/-- What callers and senders do, and time, leave the way to the context alone. -/
theorem agrees_step (l : Link) {e : Event} (hread : e ≠ .read) (hdeafen : e ≠ .deafen)
    (hturn : e ≠ .turn) : l.Agrees (l.step e).1 ∧ IsQuiet (l.step e).2 := by
  cases e with
  | call caller markup =>
    rw [step, call]
    split
    · exact ⟨l.agrees_rfl, rfl, rfl⟩
    · exact ⟨⟨rfl, rfl, rfl, rfl, rfl, rfl⟩, rfl, rfl⟩
  | post caller =>
    rw [step, post]
    split
    · exact ⟨l.agrees_rfl, rfl, rfl⟩
    · dsimp only
      split
      · exact ⟨⟨rfl, rfl, rfl, rfl, rfl, rfl⟩, rfl, rfl⟩
      · exact ⟨⟨rfl, rfl, rfl, rfl, rfl, rfl⟩, rfl, rfl⟩
  | close caller =>
    rw [step, askClose]
    split
    · exact ⟨l.agrees_rfl, rfl, rfl⟩
    · refine ⟨⟨rfl, rfl, rfl, rfl, rfl, rfl⟩, ?_⟩
      split
      · exact ⟨rfl, rfl⟩
      · exact ⟨rfl, rfl⟩
  | send sender message =>
    rw [step, send]
    split
    · exact ⟨l.agrees_rfl, rfl, rfl⟩
    · refine ⟨⟨rfl, rfl, rfl, rfl, rfl, rfl⟩, ?_⟩
      split
      · exact ⟨rfl, rfl⟩
      · exact ⟨rfl, rfl⟩
  | admitCommand =>
    rw [step, admitCommand?]
    cases l.commands.admit? l.capacity with
    | none => exact ⟨l.agrees_rfl, rfl, rfl⟩
    | some admitted =>
      obtain ⟨command, commands⟩ := admitted
      cases command with
      | update caller markup => exact ⟨⟨rfl, rfl, rfl, rfl, rfl, rfl⟩, rfl, rfl⟩
      | close caller => exact ⟨⟨rfl, rfl, rfl, rfl, rfl, rfl⟩, rfl, rfl⟩
  | admitMessage =>
    rw [step, admitMessage?]
    cases l.inbound.admit? l.capacity with
    | none => exact ⟨l.agrees_rfl, rfl, rfl⟩
    | some admitted => exact ⟨⟨rfl, rfl, rfl, rfl, rfl, rfl⟩, rfl, rfl⟩
  | read => exact absurd rfl hread
  | deafen => exact absurd rfl hdeafen
  | silence => exact ⟨⟨rfl, rfl, rfl, rfl, rfl, rfl⟩, rfl, rfl⟩
  | vanish caller => exact ⟨⟨rfl, rfl, rfl, rfl, rfl, rfl⟩, rfl, rfl⟩
  | forsake => exact ⟨⟨rfl, rfl, rfl, rfl, rfl, rfl⟩, rfl, rfl⟩
  | elapse ms => exact ⟨⟨rfl, rfl, rfl, rfl, rfl, rfl⟩, rfl, rfl⟩
  | turn => exact absurd rfl hturn

/-! ## What the keeper leaves as it is -/

/-- A part of a turn reads nothing for the context. Unless it leaves the channel as it is, it hands
over to a context that can read, and leaves the session as it is. -/
theorem part_frame (l : Link) (p : Part) :
    (l.part p).1.started = l.started ∧ received (l.part p).2 = [] ∧
      ((l.part p).1.outbound = l.outbound ∨
        (l.part p).1.session = l.session ∧ (l.part p).1.listening = true) := by
  cases p with
  | hear =>
    rw [part]
    split
    · exact ⟨rfl, rfl, .inl rfl⟩
    · exact ⟨rfl, rfl, .inl rfl⟩
  | obey =>
    rw [part]
    split
    · rename_i command commands _
      cases command with
      | close caller => exact ⟨rfl, rfl, .inl rfl⟩
      | update caller markup =>
        rw [ask]
        split
        · exact ⟨rfl, rfl, .inl rfl⟩
        · exact ⟨rfl, rfl, .inl rfl⟩
    · exact ⟨rfl, rfl, .inl rfl⟩
  | miss =>
    rw [part]
    split
    · exact ⟨rfl, rfl, .inl rfl⟩
    · exact ⟨rfl, rfl, .inl rfl⟩
  | forgo =>
    rw [part]
    split
    · exact ⟨rfl, rfl, .inl rfl⟩
    · exact ⟨rfl, rfl, .inl rfl⟩
  | expire =>
    rw [part]
    split
    · exact ⟨rfl, rfl, .inl rfl⟩
    · exact ⟨rfl, rfl, .inl rfl⟩
  | collect => exact ⟨rfl, rfl, .inl rfl⟩
  | handOver n =>
    refine ⟨rfl, rfl, ?_⟩
    cases hlistening : l.listening with
    | true => exact .inr ⟨rfl, hlistening⟩
    | false =>
      refine .inl ?_
      show (l.handOver n).outbound = l.outbound
      rw [handOver, if_neg (by rw [hlistening]; decide)]
  | giveUp =>
    rw [part]
    split
    · exact ⟨rfl, rfl, .inl rfl⟩
    · exact ⟨rfl, rfl, .inl rfl⟩

/-- An empty outbox stays empty. -/
theorem outbox_drain {l : Link} (h : l.session.outbox = []) : l.drain.session.outbox = [] := by
  unfold drain
  split
  · exact h
  · split
    · show (l.session.close .contextGone).outbox = []
      unfold Session.close
      split
      · exact h
      · rfl
    · exact h

/-- **The context is heard to be ready**: the session waits for that, and between `l` and `l'` a
message that says so is taken out of the channel. -/
def HearsReady (l l' : Link) : Prop :=
  l.session.phase = .handshaking ∧
    ∃ sender, l.inbound.receive? = some ((sender, .ready), l'.inbound)

/-! ## The flow of messages -/

/-- **The flow of messages** through a link whose channel to the context holds `size` of them, when
`handed` was handed over and `read` of that was read. -/
structure Flow (heard : Prop) (size : Nat) (read handed : List HostMessage)
    (contents : List SafeMarkup) (l : Link) : Prop where
  /-- What left the session was handed over or waits for room. -/
  ledger : l.session.Ledger heard (handed ++ l.unsent) contents
  /-- What was read and what is in the channel are the first that was handed over, -/
  begins : read ++ l.outbound <+: handed
  /-- and all of it as long as the context can read. -/
  kept : l.listening = true → read ++ l.outbound = handed
  deaf : l.listening = false → l.outbound = []
  capacity : l.capacity = size
  room : l.outbound.length ≤ size
  /-- Before the keeper begins nothing was asked for. -/
  idle : l.started = false → l.session.phase = .uninitialized ∧ contents = []
  begun : l.started = true → l.session.phase ≠ .uninitialized

theorem flow_opened (heard : Prop) (capacity clock timeout : Nat) :
    Flow heard (max capacity 1) [] [] [] (opened capacity clock timeout) where
  ledger := Session.ledger_new heard
  begins := List.nil_prefix
  kept _ := rfl
  deaf _ := rfl
  capacity := rfl
  room := Nat.zero_le _
  idle _ := ⟨rfl, rfl⟩
  begun := nofun

/-- **The flow after something happened**: what was read and what was accepted is added to what it
was before. -/
def FlowAfter (heard : Prop) (size : Nat) (read : List HostMessage) (contents : List SafeMarkup)
    (happened : Link × List Effect) : Prop :=
  ∃ handed, Flow heard size (read ++ received happened.2) handed
    (contents ++ accepted happened.2) happened.1

namespace Flow

variable {heard : Prop} {size : Nat} {read handed : List HostMessage}
  {contents contents' : List SafeMarkup} {l l' : Link} {s : Session}

theorem of_agrees (h : Flow heard size read handed contents l) (hsame : l.Agrees l') :
    Flow heard size read handed contents l' where
  ledger := by rw [hsame.session, hsame.unsent]; exact h.ledger
  begins := by rw [hsame.outbound]; exact h.begins
  kept := by rw [hsame.outbound, hsame.listening]; exact h.kept
  deaf := by rw [hsame.outbound, hsame.listening]; exact h.deaf
  capacity := hsame.capacity.trans h.capacity
  room := by rw [hsame.outbound]; exact h.room
  idle := by rw [hsame.started, hsame.session]; exact h.idle
  begun := by rw [hsame.started, hsame.session]; exact h.begun

/-- Something happens to the session, and the books are kept. -/
theorem withSession (h : Flow heard size read handed contents l) (hstarted : l.started = true)
    (hledger : s.Ledger heard (handed ++ l.unsent) contents')
    (hphase : s.phase ≠ .uninitialized) :
    Flow heard size read handed contents' (l.withSession s) where
  ledger := hledger
  begins := h.begins
  kept := h.kept
  deaf := h.deaf
  capacity := h.capacity
  room := h.room
  idle hnot := absurd (hstarted.symm.trans hnot) (by decide)
  begun _ := hphase

/-- The keeper closes the session. -/
theorem close (h : Flow heard size read handed contents l) (hstarted : l.started = true)
    (reason : CloseReason) :
    Flow heard size read handed contents (l.withSession (l.session.close reason)) :=
  h.withSession hstarted (h.ledger.close reason)
    (Session.perform_phase_ne (h.begun hstarted) (.close reason))

/-- The keeper begins. -/
theorem create (h : Flow heard size read handed contents l) (hnot : l.started = false) :
    Flow heard size read handed contents l.create where
  ledger := h.ledger.contextCreated
  begins := h.begins
  kept := h.kept
  deaf := h.deaf
  capacity := h.capacity
  room := h.room
  idle := nofun
  begun _ := by
    show l.session.contextCreated.2.phase ≠ .uninitialized
    unfold Session.contextCreated
    rw [(h.idle hnot).1]
    exact nofun

/-- What is collected has left the session and waits for room. -/
theorem collect (h : Flow heard size read handed contents l) (hstarted : l.started = true) :
    Flow heard size read handed contents l.collect where
  ledger := by
    have hledger := h.ledger.takeOutbox
    rw [List.append_assoc] at hledger
    exact hledger
  begins := h.begins
  kept := h.kept
  deaf := h.deaf
  capacity := h.capacity
  room := h.room
  idle hnot := absurd (hstarted.symm.trans hnot) (by decide)
  begun := h.begun

/-- What is handed over was the first that waited, and there was room for it. -/
theorem handOver (h : Flow heard size read handed contents l) (n : Nat) :
    ∃ handed', Flow heard size read handed' contents (l.handOver n) := by
  generalize hcount : min n (l.capacity - l.outbound.length) = count
  have hroom : count ≤ size - l.outbound.length := by
    rw [← hcount, ← h.capacity]
    exact Nat.min_le_right _ _
  have hunsent : handed ++ l.unsent.take count ++ l.unsent.drop count = handed ++ l.unsent := by
    rw [List.append_assoc, List.take_append_drop]
  refine ⟨handed ++ l.unsent.take count, ?_⟩
  -- the same messages leave `unsent` in both cases, but only a context that can read gets them
  cases hlistening : l.listening with
  | true =>
    have hkept : read ++ (l.outbound ++ l.unsent.take count) = handed ++ l.unsent.take count := by
      rw [← List.append_assoc, h.kept hlistening]
    rw [Link.handOver, hcount, if_pos hlistening]
    exact {
      ledger := by rw [hunsent]; exact h.ledger
      begins := hkept ▸ List.prefix_rfl
      kept := fun _ => hkept
      deaf := fun hdeaf => absurd (hlistening.symm.trans hdeaf) (by decide)
      capacity := h.capacity
      room := by
        have hlength := List.length_take_le count l.unsent
        have hbefore := h.room
        rw [List.length_append]
        omega
      idle := h.idle
      begun := h.begun }
  | false =>
    rw [Link.handOver, hcount, if_neg (by rw [hlistening]; decide)]
    exact {
      ledger := by rw [hunsent]; exact h.ledger
      begins := h.begins.trans (List.prefix_append _ _)
      kept := fun hkept => absurd (hlistening.symm.trans hkept) (by decide)
      deaf := h.deaf
      capacity := h.capacity
      room := h.room
      idle := h.idle
      begun := h.begun }

/-- What waits when the session is closed is dropped. -/
theorem discard (h : Flow heard size read handed contents l) (hclosed : l.session.phase = .closed) :
    Flow heard size read handed contents { l with unsent := [] } where
  ledger := by
    rw [List.append_nil]
    exact h.ledger.shorten hclosed (List.prefix_append _ _)
  begins := h.begins
  kept := h.kept
  deaf := h.deaf
  capacity := h.capacity
  room := h.room
  idle := h.idle
  begun := h.begun

/-- Something happens of which nothing is to be seen. -/
theorem quietly (h : Flow heard size read handed contents l) {effects : List Effect}
    (hquiet : IsQuiet effects) : FlowAfter heard size read contents (l, effects) := by
  refine ⟨handed, ?_⟩
  rw [hquiet.1, hquiet.2, List.append_nil, List.append_nil]
  exact h

/-! ## Each part of a turn keeps the flow -/

/-- The session is asked for something, and a content that it takes is accepted. -/
theorem ask (h : Flow heard size read handed contents l) (hstarted : l.started = true)
    (hopen : l.session.phase ≠ .closed) (command : Command) :
    FlowAfter heard size read contents (l.ask command) := by
  cases command with
  | close caller => exact (h.close hstarted .hostClosed).quietly ⟨rfl, rfl⟩
  | update caller markup =>
    obtain ⟨receipt, hreceipt, -⟩ := Session.exists_receipt markup hopen
    have hphase := Session.perform_phase_ne (h.begun hstarted) (.update markup)
    have hasked : l.ask (.update caller markup)
        = (l.withSession (l.session.requestUpdate markup).2,
          [.accepted receipt markup, .answered caller (.receipt receipt)]) := by
      rw [Link.ask, hreceipt]
    refine ⟨handed, ?_⟩
    rw [hasked]
    show Flow heard size (read ++ []) handed (contents ++ [markup]) _
    rw [List.append_nil]
    exact h.withSession hstarted (h.ledger.requestUpdate hopen markup) hphase

/-- **A part of a turn keeps the flow**, if the context counts as heard where it is heard that it is
ready. -/
theorem part (h : Flow heard size read handed contents l) (hstarted : l.started = true)
    (hopen : l.session.phase ≠ .closed) (p : Part) (hready : l.HearsReady (l.part p).1 → heard) :
    FlowAfter heard size read contents (l.part p) := by
  have hquiet : IsQuiet [] := ⟨rfl, rfl⟩
  cases p with
  | hear =>
    rw [Link.part] at hready ⊢
    split
    · rename_i sender message inbound hheard
      rw [HearsReady, hheard] at hready
      have hsame : l.Agrees { l with inbound } := ⟨rfl, rfl, rfl, rfl, rfl, rfl⟩
      have hphase := Session.perform_phase_ne (h.begun hstarted) (.receive message)
      -- the message is gone from the channel behind this part, as `HearsReady` asks for
      have hledger := h.ledger.receive message fun hphase hmessage =>
        hready ⟨hphase, sender, by rw [hmessage]; rfl⟩
      exact ((h.of_agrees hsame).withSession hstarted hledger hphase).quietly hquiet
    · exact h.quietly hquiet
  | obey =>
    rw [Link.part]
    split
    · rename_i command commands _
      have hsame : l.Agrees { l with commands } := ⟨rfl, rfl, rfl, rfl, rfl, rfl⟩
      exact (h.of_agrees hsame).ask hstarted hopen command
    · exact h.quietly hquiet
  | miss =>
    rw [Link.part]
    split
    · exact (h.close hstarted .contextGone).quietly hquiet
    · exact h.quietly hquiet
  | forgo =>
    rw [Link.part]
    split
    · exact (h.close hstarted .hostClosed).quietly hquiet
    · exact h.quietly hquiet
  | expire =>
    rw [Link.part]
    split
    · have hphase := Session.perform_phase_ne (h.begun hstarted) .timeout
      exact (h.withSession hstarted h.ledger.handshakeTimedOut hphase).quietly hquiet
    · exact h.quietly hquiet
  | collect => exact (h.collect hstarted).quietly hquiet
  | handOver n =>
    obtain ⟨handed', hflow⟩ := h.handOver n
    exact hflow.quietly hquiet
  | giveUp =>
    rw [Link.part]
    split
    · exact (h.close hstarted .contextGone).quietly hquiet
    · exact h.quietly hquiet

/-! ## Whole turns keep the flow -/

/-- To drain is to hand over, or to give up and to drop what waits. -/
theorem drain (h : Flow heard size read handed contents l) (hstarted : l.started = true) :
    ∃ handed', Flow heard size read handed' contents l.drain := by
  cases hlistening : l.listening with
  | true =>
    rw [drain_of_listening hlistening]
    exact h.handOver _
  | false =>
    by_cases hunsent : l.unsent = []
    · rw [drain_of_nil hunsent]
      exact ⟨handed, h⟩
    · rw [drain_of_deaf hlistening hunsent]
      exact ⟨handed, (h.close hstarted .contextGone).discard (Session.phase_close _ _)⟩

theorem settleTurn (h : Flow heard size read handed contents l) (hstarted : l.started = true) :
    ∃ handed', Flow heard size read handed' contents l.settleTurn := by
  by_cases hopen : l.session.phase = .closed
  · rw [settleTurn_of_closed hopen]
    exact ⟨handed, h.of_agrees (agrees_publish l)⟩
  · rw [settleTurn_of_open hopen]
    obtain ⟨handed', hflow⟩ := (h.collect hstarted).drain hstarted
    exact ⟨handed', hflow.of_agrees (agrees_publish _)⟩

/-- At the end of a turn the outbox is empty. -/
theorem outbox_settleTurn (h : Flow heard size read handed contents l) :
    l.settleTurn.session.outbox = [] := by
  by_cases hopen : l.session.phase = .closed
  · rw [settleTurn_of_closed hopen]
    exact h.ledger.outbox_of_closed hopen
  · rw [settleTurn_of_open hopen]
    exact outbox_drain rfl

/-- A keeper that stops leaves to the context what was handed over. -/
theorem stop (h : Flow heard size read handed contents l) :
    FlowAfter heard size read contents l.stop :=
  (h.of_agrees (agrees_stop l)).quietly (isQuiet_stop l)

/-- **A turn keeps the flow** and leaves nothing in the outbox. -/
theorem turn (h : Flow heard size read handed contents l) {effects : List Effect}
    (hturn : l.turn? = some (l', effects)) (hready : l.HearsReady l' → heard) :
    FlowAfter heard size read contents (l', effects) ∧ l'.session.outbox = [] := by
  rcases turn?_cases hturn with
    ⟨hnot, rfl, rfl⟩ | ⟨hclosed, rfl, rfl⟩ | ⟨hstarted, hopen, p, _, rfl, rfl⟩
  · have hcreated := h.create hnot
    -- the session cannot refuse: nothing happened to it before the keeper began
    have hok : l.session.contextCreated.1 = .ok () := by
      unfold Session.contextCreated
      rw [(h.idle hnot).1]
    rw [start_eq, hok]
    obtain ⟨handed', hflow⟩ := hcreated.settleTurn rfl
    exact ⟨hflow.quietly ⟨rfl, rfl⟩, hcreated.outbox_settleTurn⟩
  · exact ⟨h.stop, h.ledger.outbox_of_closed hclosed⟩
  · rw [HearsReady, (rests_settleTurn _).inbound] at hready
    obtain ⟨handed', hflow⟩ := h.part hstarted hopen p hready
    have hstarted' := (part_frame l p).1.trans hstarted
    exact ⟨hflow.settleTurn hstarted', hflow.outbox_settleTurn⟩

end Flow

end Link

end SafePreview
