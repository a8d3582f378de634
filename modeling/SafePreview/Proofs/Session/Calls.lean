import Mathlib.Data.List.Permutation
import SafePreview.Proofs.Session.Answers
import SafePreview.Proofs.Session.Callers
import SafePreview.Proofs.Session.Delivery

/-!
# What becomes of a call

A call is over when its caller is told something, and it can be told by three ways that the
session is closed: by the status that it looks at, by a channel that is closed, or by a keeper
that stops while the call is in the channel. Each of them comes after the close, because the
status and the stop do (`Link.IsTruthful`), and so a call that is refused finds nothing to change.

What the keeper takes out of the channel of commands is told from the channel alone
(`Link.takenFrom`): it is what is gone from its front, unless the keeper stopped and the channel
with it. Nothing has to be recorded for that, so it can be compared with what the session recorded
and with what the callers were told. The session counts the contents that were taken and no others
(`Link.life_counts`), and whoever asks for a content is among those whose content was taken, those
who were refused, those who went away or those who still wait, once for each time
(`Link.life_conserves`). A caller that asks once is therefore told at most one thing, and only what
the session recorded. To go away is to be told nothing, and it takes nothing back that is in the
channel already: such a content is taken or refused like any other.
-/

namespace SafePreview

open Markup (SafeMarkup)

namespace Link

section Lives

variable [Channels]

variable {l l' : Link} {p : Pulse} {effects : List Effect}

/-! ## What is taken out of the channel -/

/-- **What the keeper took out of the channel of commands** between two links: what is gone from its
front. The keeper that stops takes nothing, it drops the channel. -/
def takenFrom (l l' : Link) : List Command :=
  if l'.stopped then []
  else l.commands.toList.take (l.commands.toList.length - l'.commands.toList.length)

/-- The contents among them, each with its caller. What leaves the channel with its caller is not
taken by the keeper. -/
def takenIn (l : Link) : Pulse → List (Nat × SafeMarkup)
  | .event (.vanish _) => []
  | p => (l.takenFrom (l.pulse p).1).filterMap Command.ask?

/-- **The contents that the keeper takes out of the channel in a life**, in the order in which it
does. -/
def taken (l : Link) : List Pulse → List (Nat × SafeMarkup)
  | [] => []
  | p :: rest => l.takenIn p ++ (l.pulse p).1.taken rest

/-- Where the channel only grows, nothing is taken. -/
theorem takenFrom_of_append {more : List Command}
    (h : l'.commands.toList = l.commands.toList ++ more) : l.takenFrom l' = [] := by
  have hnone : l.commands.toList.length - l'.commands.toList.length = 0 := by
    rw [h, List.length_append]
    omega
  rw [takenFrom, hnone, List.take_zero, ite_self]

/-- Where it is as it was, nothing is taken. -/
theorem takenFrom_of_eq (h : l'.commands = l.commands) : l.takenFrom l' = [] :=
  takenFrom_of_append (by rw [h, List.append_nil])

/-- What is gone from the front was taken. -/
theorem takenFrom_of_cons {command : Command} (hstopped : l'.stopped = false)
    (h : l.commands.toList = command :: l'.commands.toList) : l.takenFrom l' = [command] := by
  rw [takenFrom, if_neg (by rw [hstopped]; decide), h, List.length_cons, Nat.add_sub_cancel_left]
  rfl

/-- A keeper that stops takes nothing. -/
theorem takenFrom_stop (l : Link) : l.takenFrom l.stop.1 = [] := if_pos rfl

/-! ## What a pulse tells -/

/-- **What a pulse tells those who ask for a content**, when `taken` was taken out of the channel.
-/
inductive Tells (l : Link) (p : Pulse) (taken : List (Nat × SafeMarkup)) (l' : Link)
    (effects : List Effect) : Prop
  /-- Whose content was taken has a receipt, under the revision that the session counted. -/
  | receipt (caller : Nat) (markup : SafeMarkup) (receipt : Receipt)
      (taken : taken = [(caller, markup)])
      (asking : (l.asking ++ p.asks).Perm ((caller, markup) :: l'.asking))
      (revision : receipt.revision = l.session.nextRevision)
      (next : l'.session.nextRevision = l.session.nextRevision + 1)
      (effects : effects = [.accepted receipt markup, .answered caller (.receipt receipt)])
  /-- Some are refused, or none, and nobody is told anything else. -/
  | refusals (gone : List (Nat × SafeMarkup)) (taken : taken = [])
      (asking : (l.asking ++ p.asks).Perm (gone ++ l'.asking))
      (next : l'.session.nextRevision = l.session.nextRevision)
      (accepted : accepted effects = []) (receipts : receipts effects = [])
      (answers : ∀ caller ∉ l.others ++ p.others,
        answersTo caller effects = (ofCaller caller gone).map fun _ => .refused)
  /-- One goes away with what it asked for, and nobody is told anything. -/
  | leaves (left : List (Nat × SafeMarkup)) (taken : taken = [])
      (asking : (l.asking ++ p.asks).Perm (left ++ l'.asking))
      (vanished : ∀ ask ∈ left, p = .event (.vanish ask.1))
      (next : l'.session.nextRevision = l.session.nextRevision) (effects : effects = [])

/-- Where nobody is refused, nobody who asks is told anything. -/
theorem Tells.nothing (hasking : (l.asking ++ p.asks).Perm l'.asking)
    (hnext : l'.session.nextRevision = l.session.nextRevision) (haccepted : accepted effects = [])
    (hreceipts : receipts effects = []) (hanswered : ∀ caller answer,
      .answered caller answer ∈ effects → caller ∈ l.others ++ p.others) :
    l.Tells p [] l' effects :=
  .refusals [] rfl hasking hnext haccepted hreceipts fun caller hother =>
    answersTo_eq_nil fun answer hmem => hother (hanswered caller answer hmem)

/-! ### A keeper that stops -/

/-- **A keeper that stops refuses those who ask**, each once. -/
theorem answersTo_stop {caller : Nat} (h : caller ∉ l.others) :
    answersTo caller l.stop.2
      = (ofCaller caller (l.commands.toList.filterMap Command.ask?)).map fun _ => .refused := by
  have hcloser : .close caller ∉ l.commands.waiting := fun hmem =>
    h (mem_others.2 (.inl (List.mem_append_right _ hmem)))
  have hsenders : answersTo caller (farewell [] [] l.inbound.waiting) = [] := by
    refine answersTo_eq_nil fun answer hmem => h ?_
    obtain ⟨⟨sender, message⟩, hsender, heffect⟩ := List.mem_map.1 hmem
    cases heffect
    exact mem_others.2 (.inr ⟨message, List.mem_append_right _ hsender⟩)
  have hsplit : l.stop.2 = farewell l.commands.items [] [] ++ farewell [] l.commands.waiting []
      ++ farewell [] [] l.inbound.waiting := by
    simp [stop, farewell]
  rw [hsplit, answersTo_append, answersTo_append, answersTo_queued, answersTo_waiting hcloser,
    hsenders, List.append_nil, Channel.toList, List.filterMap_append, ofCaller, ofCaller, ofCaller,
    List.filter_append, List.map_append]

/-- It gives no receipt. -/
theorem receipts_stop (l : Link) : receipts l.stop.2 = [] := by
  refine List.filterMap_eq_nil_iff.2 fun effect hmem => ?_
  obtain ⟨caller, rfl | rfl⟩ := exists_of_mem_stop hmem
  · rfl
  · rfl

/-! ### Every pulse -/

/-- Who goes away is told nothing, nor is anybody else. -/
theorem vanish_tells (l : Link) (caller : Nat) :
    l.Tells (.event (.vanish caller)) [] (l.vanish caller) [] := by
  obtain ⟨left, hasking, hmine⟩ := l.asking_vanish caller
  refine .leaves left rfl ?_ (fun ask hmem => by rw [hmine ask hmem]) rfl rfl
  show (l.asking ++ []).Perm _
  rw [List.append_nil]
  exact hasking

/-- **What each course tells those who ask**, in a truthful link, unless one of them goes away. -/
theorem Course.tells (h : l.Course p l' effects) (htruth : l.IsTruthful)
    (hstays : ∀ caller, p ≠ .event (.vanish caller)) :
    l.Tells p ((l.takenFrom l').filterMap Command.ask?) l' effects := by
  have hworking (hopen : l.session.phase ≠ .closed) (hstopped : l'.stopped = l.stopped) :
      l'.stopped = false := by
    rw [hstopped]
    exact Bool.eq_false_iff.2 fun hstop => hopen (htruth.stopped hstop)
  cases h with
  | passes closers quiet commands calls _ asks next accepted receipts answered =>
    rw [takenFrom_of_append commands]
    refine .nothing (.of_eq ?_) next accepted receipts answered
    rw [asks, asking, asking, commands, calls, List.filterMap_append, quiet, List.append_nil,
      List.append_nil]
  | finds caller markup pulse link effects =>
    have hcommands : l'.commands = l.commands := by rw [link]
    rw [takenFrom_of_eq hcommands]
    subst pulse link effects
    exact .nothing (.of_eq (List.append_assoc _ _ _)) rfl rfl rfl fun _ _ hmem =>
      absurd hmem List.not_mem_nil
  | posts caller markup pulse calls commands _ session effects =>
    subst pulse effects
    rw [takenFrom_of_append commands]
    refine .nothing ?_ (by rw [session]) rfl rfl fun _ _ hmem => absurd hmem List.not_mem_nil
    show (l.asking ++ []).Perm _
    rw [List.append_nil, asking, asking, commands, List.filterMap_append, List.append_assoc]
    exact calls.append_left _
  | refuses caller markup _ calls commands _ unmoved effects =>
    subst effects
    rw [takenFrom_of_eq commands]
    refine .refusals [(caller, markup)] rfl ?_ (by rw [unmoved.session]) rfl rfl fun other _ =>
      answersTo_refused_cons other caller markup rfl
    rw [asking, asking, commands, List.append_assoc]
    exact (calls.append_left _).trans List.perm_middle
  | vanishes caller pulse => exact absurd pulse (hstays caller)
  | takes caller markup receipt commands calls _ asks stopped isOpen revision next effects =>
    rw [takenFrom_of_cons (hworking isOpen stopped) commands]
    refine .receipt caller markup receipt rfl (.of_eq ?_) revision next effects
    rw [asks, List.append_nil, asking, asking, commands, calls]
    rfl
  | closes caller commands calls _ asks stopped isOpen next effects =>
    subst effects
    rw [takenFrom_of_cons (hworking isOpen stopped) commands]
    refine .nothing (.of_eq ?_) next rfl rfl fun _ _ hmem => absurd hmem List.not_mem_nil
    rw [asks, List.append_nil, asking, asking, commands, calls]
    rfl
  | stops pulse _ link effects =>
    subst link effects
    have hasks : p.asks = [] := by
      rcases pulse with rfl | rfl
      · rfl
      · rfl
    refine .refusals (l.commands.toList.filterMap Command.ask?) ?_ ?_ rfl (isQuiet_stop l).2
      (receipts_stop l) fun caller hother =>
        answersTo_stop fun hmem => hother (List.mem_append_left _ hmem)
    · rw [takenFrom_stop]
      rfl
    · rw [hasks, List.append_nil, asking_stop]
      rfl

/-- **What a pulse tells those who ask.** -/
theorem IsTruthful.tells (h : l.IsTruthful) (p : Pulse) :
    l.Tells p (l.takenIn p) (l.pulse p).1 (l.pulse p).2 := by
  unfold takenIn
  split
  · exact l.vanish_tells _
  · rename_i hstays
    exact (l.pulse_course p).tells h hstays

/-! ## What the session counts -/

/-- **A life counts the contents that were taken**: the receipts carry the revisions from the next
one on, in the order in which the contents were taken, and the session took these contents. -/
theorem life_counts (h : l.IsTruthful) (pulses : List Pulse) :
    (receipts (l.life pulses).2).map (fun told => (told.1, told.2.revision))
        = (l.taken pulses).mapIdx (fun i ask => (ask.1, l.session.nextRevision + i))
      ∧ accepted (l.life pulses).2 = (l.taken pulses).map (·.2)
      ∧ (l.life pulses).1.session.nextRevision
        = l.session.nextRevision + (l.taken pulses).length := by
  induction pulses generalizing l with
  | nil => exact ⟨rfl, rfl, rfl⟩
  | cons p pulses ih =>
    obtain ⟨hreceipts, haccepted, hnext⟩ := ih (h.pulse p)
    rw [life, taken, receipts_append, accepted_append, List.map_append, List.map_append, hreceipts,
      haccepted, hnext, List.mapIdx_append, List.length_append]
    cases h.tells p with
    | receipt caller markup receipt taken _ revision next effects =>
      rw [taken, effects, next]
      refine ⟨?_, rfl, Nat.add_assoc _ _ _⟩
      have hfirst : (receipts [.accepted receipt markup, .answered caller (.receipt receipt)]).map
          (fun told => (told.1, told.2.revision)) = [(caller, l.session.nextRevision)] := by
        rw [← revision]
        rfl
      have hshift (i : Nat) :
          l.session.nextRevision + 1 + i = l.session.nextRevision + (i + 1) := by
        omega
      rw [hfirst]
      simp only [hshift]
      rfl
    | refusals gone taken _ next accepted receipts =>
      rw [taken, accepted, receipts, next, List.length_nil, Nat.zero_add]
      exact ⟨rfl, rfl, rfl⟩
    | leaves left taken _ _ next effects =>
      rw [taken, effects, next, List.length_nil, Nat.zero_add]
      exact ⟨rfl, rfl, rfl⟩

/-! ## Who is told what -/

/-- What one pulse tells is what it tells of receipts and of refusals. -/
theorem Tells.conserves {taken : List (Nat × SafeMarkup)} (h : l.Tells p taken l' effects) :
    ∃ gone left, (l.asking ++ p.asks).Perm (taken ++ gone ++ left ++ l'.asking)
      ∧ (∀ ask ∈ left, p = .event (.vanish ask.1))
      ∧ ∀ caller ∉ l.others ++ p.others,
        answersTo caller effects
          = (ofCaller caller (receipts effects)).map (fun told => .receipt told.2)
            ++ (ofCaller caller gone).map fun _ => .refused := by
  cases h with
  | receipt caller markup receipt taken asking _ _ effects =>
    subst taken effects
    refine ⟨[], [], asking, nofun, fun other _ => ?_⟩
    show answersTo other [.answered caller (.receipt receipt)]
      = (ofCaller other [(caller, receipt)]).map (fun told => .receipt told.2) ++ []
    rw [List.append_nil]
    by_cases hcaller : caller = other
    · rw [ofCaller_cons_self hcaller]
      exact List.filterMap_cons_some (if_pos hcaller)
    · rw [ofCaller_cons_of_ne hcaller]
      exact List.filterMap_cons_none (if_neg hcaller)
  | refusals gone taken asking _ _ receipts answers =>
    subst taken
    refine ⟨gone, [], ?_, nofun, fun caller hother => ?_⟩
    · rw [List.append_nil]
      exact asking
    · rw [answers caller hother, receipts]
      rfl
  | leaves left taken asking vanished _ effects =>
    subst taken effects
    exact ⟨[], left, asking, vanished, fun caller _ => rfl⟩

/-- **Whoever asks is told at most one thing, once for each time.** Those who ask in a life are
those whose content is taken, those who are refused, those who went away and those who still wait.
Who is not among the others is told of the receipts it was given and of the refusals, and of nothing
else. -/
theorem life_conserves (h : l.IsTruthful) (pulses : List Pulse) :
    ∃ gone left, (l.asking ++ pulses.flatMap Pulse.asks).Perm
        (l.taken pulses ++ gone ++ left ++ (l.life pulses).1.asking)
      ∧ (∀ ask ∈ left, .event (.vanish ask.1) ∈ pulses)
      ∧ ∀ caller ∉ l.others ++ pulses.flatMap Pulse.others,
        (answersTo caller (l.life pulses).2).Perm
          ((ofCaller caller (receipts (l.life pulses).2)).map (fun told => .receipt told.2)
            ++ (ofCaller caller gone).map fun _ => .refused) := by
  induction pulses generalizing l with
  | nil => exact ⟨[], [], .of_eq (List.append_nil _), nofun, fun caller _ => .of_eq rfl⟩
  | cons p pulses ih =>
    obtain ⟨gone, left, hasking, hvanished, hanswers⟩ := (h.tells p).conserves
    obtain ⟨more, lost, hasking', hvanished', hanswers'⟩ := ih (h.pulse p)
    refine ⟨gone ++ more, left ++ lost, List.perm_iff_count.2 fun ask => ?_, fun ask hmem => ?_,
      fun caller hother => ?_⟩
    · have hfirst := hasking.count_eq ask
      have hrest := hasking'.count_eq ask
      rw [life, taken, List.flatMap_cons]
      simp only [List.count_append] at hfirst hrest ⊢
      omega
    · rcases List.mem_append.1 hmem with hmem | hmem
      · exact hvanished ask hmem ▸ List.mem_cons_self
      · exact List.mem_cons_of_mem _ (hvanished' ask hmem)
    · rw [List.flatMap_cons, ← List.append_assoc] at hother
      have hnow := hanswers caller fun hmem => hother (List.mem_append_left _ hmem)
      have hlater := hanswers' caller fun hmem => hother <| by
        rcases List.mem_append.1 hmem with hmem | hmem
        · exact List.mem_append_left _ ((l.pulse_course p).others_subset hmem)
        · exact List.mem_append_right _ hmem
      rw [life, answersTo_append, receipts_append, ofCaller_append, ofCaller_append,
        List.map_append, List.map_append, hnow]
      refine List.perm_iff_count.2 fun answer => ?_
      have hcount := hlater.count_eq answer
      simp only [List.count_append] at hcount ⊢
      omega

/-! ## One call -/

/-- **What has become of a call** after a life of these pulses, in which `taken` was taken out of
the channel. -/
inductive Fate (caller : Nat) (markup : SafeMarkup) (pulses : List Pulse)
    (taken : List (Nat × SafeMarkup)) (effects : List Effect) (l : Link) : Prop
  /-- It waits, its caller was told nothing, and its content was not taken. -/
  | waits (told : answersTo caller effects = []) (asking : (caller, markup) ∈ l.asking)
      (untaken : caller ∉ taken.map (·.1))
  /-- Its content was taken, once, and its caller was told the place at which it was. -/
  | received (receipt : Receipt) (told : answersTo caller effects = [.receipt receipt])
      (place : ∃ i, taken[i]? = some (caller, markup) ∧ receipt.revision = i + 1)
      (once : ofCaller caller taken = [(caller, markup)]) (ended : caller ∉ l.asking.map (·.1))
  /-- Its caller was told that the session is closed, and its content was not taken. -/
  | refused (told : answersTo caller effects = [.refused]) (untaken : caller ∉ taken.map (·.1))
      (ended : caller ∉ l.asking.map (·.1))
  /-- Its caller went away, was told nothing, and its content was not taken. -/
  | left (vanished : .event (.vanish caller) ∈ pulses) (told : answersTo caller effects = [])
      (untaken : caller ∉ taken.map (·.1)) (ended : caller ∉ l.asking.map (·.1))

/-- **The one thing that a caller asks for is in one of four places**, and where it is says what
the caller was told. -/
theorem fate_of_places {caller : Nat} {markup : SafeMarkup} {pulses : List Pulse}
    {taken gone left : List (Nat × SafeMarkup)}
    (hplaces : ofCaller caller taken ++ ofCaller caller gone ++ ofCaller caller left
      ++ ofCaller caller l.asking = [(caller, markup)])
    (hleft : ∀ ask ∈ left, .event (.vanish ask.1) ∈ pulses)
    (hanswers : (answersTo caller effects).Perm
      ((ofCaller caller (receipts effects)).map (fun told => .receipt told.2)
        ++ (ofCaller caller gone).map fun _ => .refused))
    (hreceipts : (receipts effects).map (fun told => (told.1, told.2.revision))
      = taken.mapIdx fun i ask => (ask.1, 1 + i)) :
    Fate caller markup pulses taken effects l := by
  have hlength := length_ofCaller caller (map_fst_receipts hreceipts)
  rcases List.append_eq_singleton_iff.1 hplaces with ⟨hover, hwaits⟩ | ⟨hplaces, hover⟩
  · obtain ⟨hover, -⟩ := List.append_eq_nil_iff.1 hover
    obtain ⟨huntaken, hgone⟩ := List.append_eq_nil_iff.1 hover
    rw [huntaken, List.length_nil, List.length_eq_zero_iff] at hlength
    rw [hlength, hgone] at hanswers
    refine .waits hanswers.eq_nil ?_ (ofCaller_eq_nil_iff.1 huntaken)
    exact (mem_ofCaller.1 (hwaits ▸ List.mem_singleton_self _)).1
  rw [ofCaller_eq_nil_iff] at hover
  rcases List.append_eq_singleton_iff.1 hplaces with ⟨htold, hmine⟩ | ⟨hplaces, -⟩
  · obtain ⟨huntaken, hgone⟩ := List.append_eq_nil_iff.1 htold
    rw [huntaken, List.length_nil, List.length_eq_zero_iff] at hlength
    rw [hlength, hgone] at hanswers
    have hmem := (mem_ofCaller.1 (hmine ▸ List.mem_singleton_self (caller, markup))).1
    exact .left (hleft _ hmem) hanswers.eq_nil (ofCaller_eq_nil_iff.1 huntaken) hover
  rcases List.append_eq_singleton_iff.1 hplaces with ⟨huntaken, hgone⟩ | ⟨honce, hgone⟩
  · rw [huntaken, List.length_nil, List.length_eq_zero_iff] at hlength
    rw [hlength, hgone] at hanswers
    exact .refused (List.perm_singleton.1 hanswers) (ofCaller_eq_nil_iff.1 huntaken) hover
  · rw [honce] at hlength
    obtain ⟨⟨other, receipt⟩, hreceipt⟩ := List.length_eq_one_iff.1 hlength
    rw [hreceipt, hgone] at hanswers
    obtain ⟨hmem, rfl⟩ := mem_ofCaller.1 (hreceipt ▸ List.mem_singleton_self (other, receipt))
    obtain ⟨i, found, hplace, hrevision⟩ := exists_place hreceipts hmem
    -- what is at that place is of this caller, so it is the one thing that was taken of it
    have hfound : (other, found) ∈ ofCaller other taken :=
      mem_ofCaller.2 ⟨List.mem_of_getElem? hplace, rfl⟩
    rw [honce, List.mem_singleton] at hfound
    refine .received receipt (List.perm_singleton.1 hanswers) ⟨i, ?_, ?_⟩ honce hover
    · rw [hplace, hfound]
    · rw [hrevision, Nat.add_comm]

/-- **A caller that asks once is told at most one thing**, and only what the session recorded. -/
theorem fate_of_asks_once (capacity clock timeout : Nat) (pulses : List Pulse) {caller : Nat}
    {markup : SafeMarkup}
    (honce : ofCaller caller (pulses.flatMap Pulse.asks) = [(caller, markup)])
    (hother : caller ∉ pulses.flatMap Pulse.others) :
    Fate caller markup pulses ((opened capacity clock timeout).taken pulses)
      ((opened capacity clock timeout).life pulses).2
      ((opened capacity clock timeout).life pulses).1 := by
  have htruth := isTruthful_opened capacity clock timeout
  obtain ⟨gone, left, hperm, hleft, hanswers⟩ := life_conserves htruth pulses
  rw [others_opened, List.nil_append] at hanswers
  refine fate_of_places ?_ hleft (hanswers caller hother) (life_counts htruth pulses).1
  have hplaces := ofCaller_perm caller hperm
  rw [asking_opened, List.nil_append, honce] at hplaces
  rw [← ofCaller_append, ← ofCaller_append, ← ofCaller_append]
  exact List.perm_singleton.1 hplaces.symm

/-! ## Refusals -/

/-- Nobody is among the others who was not named as one of them. -/
theorem others_life (l : Link) (pulses : List Pulse) :
    (l.life pulses).1.others ⊆ l.others ++ pulses.flatMap Pulse.others := by
  induction pulses generalizing l with
  | nil => exact List.subset_append_left _ _
  | cons p pulses ih =>
    intro caller hmem
    rw [List.flatMap_cons, ← List.append_assoc]
    rcases List.mem_append.1 (ih (l.pulse p).1 hmem) with hmem | hmem
    · exact List.mem_append_left _ ((l.pulse_course p).others_subset hmem)
    · exact List.mem_append_right _ hmem

/-- **A call that is refused finds the session closed, and leaves it as it is**, at whichever of the
three places it is refused. -/
theorem refusal_of_asks_once (capacity clock timeout : Nat) {before after : List Pulse} {p : Pulse}
    {caller : Nat} {markup : SafeMarkup}
    (honce : ofCaller caller ((before ++ p :: after).flatMap Pulse.asks) = [(caller, markup)])
    (hother : caller ∉ (before ++ p :: after).flatMap Pulse.others)
    {l : Link} (hl : ((opened capacity clock timeout).life before).1 = l)
    (hrefused : .answered caller .refused ∈ (l.pulse p).2) :
    l.Refusal p caller markup ∧ l.session.phase = .closed ∧ l.Undisturbed (l.pulse p).1
      ∧ accepted (l.pulse p).2 = [] := by
  have htruth := (isTruthful_opened capacity clock timeout).life before
  have hothers := others_life (opened capacity clock timeout) before
  obtain ⟨gone, left, hperm, -, -⟩ :=
    life_conserves (isTruthful_opened capacity clock timeout) before
  rw [hl, others_opened] at hothers
  rw [hl, asking_opened] at hperm
  rw [hl] at htruth
  rw [List.flatMap_append, List.flatMap_cons] at honce hother
  have hcaller : caller ∉ l.others ++ p.others := by
    intro hmem
    rcases List.mem_append.1 hmem with hmem | hmem
    · exact hother (List.mem_append_left _ (hothers hmem))
    · exact hother (List.mem_append_right _ (List.mem_append_left _ hmem))
  obtain ⟨found, hrefusal, hunmoved, haccepted⟩ :=
    (l.pulse_course p).exists_refusal hcaller hrefused
  -- what was refused is what the caller asked for, as it asked for nothing else
  have hasked : (caller, found) ∈
      before.flatMap Pulse.asks ++ (p.asks ++ after.flatMap Pulse.asks) := by
    rcases List.mem_append.1 hrefusal.mem_asking with hmem | hmem
    · exact List.mem_append_left _ (hperm.symm.subset (List.mem_append_right _ hmem))
    · exact List.mem_append_right _ (List.mem_append_left _ hmem)
  have hmine := mem_ofCaller.2 ⟨hasked, rfl⟩
  rw [honce, List.mem_singleton] at hmine
  cases hmine
  exact ⟨hrefusal, hrefusal.closed htruth, hunmoved, haccepted⟩

/-! ## Every life -/

/-- **An update is all or nothing**, in every life of a link, whoever else calls, closes, sends or
waits. The receipts are for the contents that the keeper took out of the channel, in the order in
which it did and under the revisions 1, 2, 3 and so on; these contents, and no others, are what the
session took, counted and has for its context. A caller that asks once, and for nothing else, waits,
or has the receipt for its content, or was refused or went away, and then its content was not taken;
where it was refused, the session was closed, and nothing happened to it. -/
theorem life_updates_atomically (capacity clock timeout : Nat) (pulses : List Pulse) :
    let new := opened capacity clock timeout
    let l := (new.life pulses).1
    let effects := (new.life pulses).2
    let taken := new.taken pulses
    (receipts effects).map (fun told => (told.1, told.2.revision))
        = taken.mapIdx (fun i ask => (ask.1, 1 + i)) ∧
    (receipts effects).map (·.2.revision) = List.range' 1 taken.length ∧
    accepted effects = taken.map (·.2) ∧
    l.session.nextRevision = 1 + taken.length ∧
    (l.session.phase ≠ .closed → l.listening = true →
      received effects ++ l.outbound ++ l.unsent ++ l.session.outbox ++ l.session.pending
        = l.due (taken.map (·.2))) ∧
    received effects ++ l.outbound <+: l.due (taken.map (·.2)) ∧
    (∀ caller markup, ofCaller caller (pulses.flatMap Pulse.asks) = [(caller, markup)] →
      caller ∉ pulses.flatMap Pulse.others →
      Fate caller markup pulses taken effects l ∧
      ∀ before p after, pulses = before ++ p :: after →
        .answered caller .refused ∈ ((new.life before).1.pulse p).2 →
        (new.life before).1.Refusal p caller markup ∧
        (new.life before).1.session.phase = .closed ∧
        (new.life before).1.Undisturbed ((new.life before).1.pulse p).1 ∧
        accepted ((new.life before).1.pulse p).2 = []) := by
  intro new l effects taken
  obtain ⟨hreceipts, haccepted, hnext⟩ :=
    life_counts (isTruthful_opened capacity clock timeout) pulses
  obtain ⟨handed, hflow⟩ := flow_life capacity clock timeout pulses
  rw [haccepted] at hflow
  refine ⟨hreceipts, map_revision_receipts hreceipts, haccepted, hnext, hflow.eq_due,
    hflow.prefix_due, fun caller markup honce hother => ?_⟩
  refine ⟨fate_of_asks_once capacity clock timeout pulses honce hother, ?_⟩
  rintro before p after rfl hrefused
  exact refusal_of_asks_once capacity clock timeout honce hother rfl hrefused

end Lives

/-! ### Four calls

One is in time. Of the others one is left in the channel behind a command to close, one looks after
the close, and one found the session open but posts when the keeper has stopped. -/

/-- The pulses of the four calls, with the content `markup` in each. -/
def fourCalls (markup : SafeMarkup) : List Pulse :=
  [.event .turn, .event (.call 1 markup), .event (.call 2 markup), .event (.call 3 markup),
    .event (.post 1), .event .turn, .event (.close 9), .event (.post 2), .event .turn,
    .event (.call 4 markup), .event .turn, .event (.post 3)]

/-- The first has its receipt, and the others are refused in three ways. -/
theorem life_fourCalls :
    let markup := Markup.sanitize .preview "content"
    let new := opened 4 0 5000
    let lived := new.life (fourCalls markup)
    let before (n : Nat) := (new.life ((fourCalls markup).take n)).1
    answersTo 1 lived.2 = [.receipt (.queued 1)] ∧ new.taken (fourCalls markup) = [(1, markup)] ∧
    Fate 1 markup (fourCalls markup) (new.taken (fourCalls markup)) lived.2 lived.1 ∧
    (before 10).Refusal (.event .turn) 2 markup ∧
    (before 11).Refusal (.event (.post 3)) 3 markup ∧
    (before 9).Refusal (.event (.call 4 markup)) 4 markup := by
  intro markup
  -- the content itself does not matter
  clear_value markup
  intro new lived before
  have hatomic := (life_updates_atomically 4 0 5000 (fourCalls markup)).2.2.2.2.2.2
  have hothers : (fourCalls markup).flatMap Pulse.others = [9] := rfl
  have htold : answersTo 1 (new.life (fourCalls markup)).2 = [.receipt (.queued 1)] := by cbv
  have htaken : new.taken (fourCalls markup) = [(1, markup)] := by cbv
  have hleft : ((new.life ((fourCalls markup).take 10)).1.pulse (.event .turn)).2
      = [.answered 2 .refused] := by cbv
  have hmailbox : ((new.life ((fourCalls markup).take 11)).1.pulse (.event (.post 3))).2
      = [.answered 3 .refused] := by cbv
  have hpublished : ((new.life ((fourCalls markup).take 9)).1.pulse (.event (.call 4 markup))).2
      = [.answered 4 .refused] := by cbv
  rw [hothers] at hatomic
  refine ⟨htold, htaken, (hatomic 1 markup rfl (by decide)).1, ?_, ?_, ?_⟩
  · exact ((hatomic 2 markup rfl (by decide)).2 ((fourCalls markup).take 10) (.event .turn)
      [.event (.post 3)] rfl (hleft ▸ List.mem_singleton_self _)).1
  · exact ((hatomic 3 markup rfl (by decide)).2 ((fourCalls markup).take 11) (.event (.post 3))
      [] rfl (hmailbox ▸ List.mem_singleton_self _)).1
  · exact ((hatomic 4 markup rfl (by decide)).2 ((fourCalls markup).take 9)
      (.event (.call 4 markup)) [.event .turn, .event (.post 3)] rfl
      (hpublished ▸ List.mem_singleton_self _)).1

end Link

end SafePreview
