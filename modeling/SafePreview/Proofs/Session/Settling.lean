import SafePreview.Proofs.Session.Order

/-!
# A link comes to rest

`Link.settle` lets a keeper take turns, and those in line get in, as long as there is something to
do. This module shows that it ends with nothing left to do, without anybody reading
(`Link.isSettled_settle`): each turn and each admission takes something off what is ahead of the
keeper (`Link.ahead`), and the turns that `settle` is given are enough for all of it. A message that
there is no room for is ahead of the keeper too, but is no reason for a turn.

What a settled link looks like is known from the order in which keepers work. With both, a context
that stops reading can keep nothing from happening but its own deliveries
(`Link.life_comes_to_rest`).
-/

namespace SafePreview

/-! ## What is ahead of a keeper -/

namespace Session

/-- How much a session has to do: all messages that it holds, and to be closed. -/
def load (s : Session) : Nat :=
  s.pending.length + s.outbox.length + (!s.isClosed).toNat

theorem load_close_le (s : Session) (reason : CloseReason) : (s.close reason).load ≤ s.load := by
  unfold close
  split
  · exact Nat.le_refl _
  · exact Nat.zero_le _

/-- To be closed is one thing less to do. -/
theorem load_close_lt {s : Session} (h : s.phase ≠ .closed) (reason : CloseReason) :
    (s.close reason).load < s.load := by
  have hopen : s.isClosed = false := decide_eq_false h
  rw [close, if_neg (by rw [hopen]; decide), load, load, hopen]
  exact Nat.succ_pos _

theorem load_contextCreated_le (s : Session) : s.contextCreated.2.load ≤ s.load + 1 := by
  unfold contextCreated
  split
  · rename_i hphase
    simp only [load, isClosed, hphase, List.length_append, List.length_singleton]
    show _ + (_ + 1) + 1 ≤ _ + _ + 1 + 1
    omega
  · exact Nat.le_succ _
  · exact Nat.le_succ _

theorem load_requestUpdate_le (s : Session) (markup : Markup.SafeMarkup) :
    (s.requestUpdate markup).2.load ≤ s.load + 1 := by
  by_cases hopen : s.phase = .closed
  · rw [requestUpdate_of_closed markup hopen]
    exact Nat.le_succ _
  by_cases hready : s.phase = .ready
  · rw [requestUpdate_of_ready markup hready]
    simp only [load, isClosed, List.length_append, List.length_singleton]
    omega
  · rw [requestUpdate_of_waiting markup hready hopen]
    simp only [load, isClosed, List.length_append, List.length_singleton]
    omega

theorem load_receive_le (s : Session) (message : ContextMessage) :
    (s.receive message).2.load ≤ s.load := by
  unfold receive
  split
  · exact Nat.le_refl _
  · rename_i hphase
    simp only [load, isClosed, hphase, List.length_append, List.length_nil]
    show 0 + _ + 1 ≤ _ + _ + 1
    omega
  · exact Nat.le_refl _
  · split
    · exact Nat.le_refl _
    · exact Nat.le_refl _
  · exact s.load_close_le _

end Session

namespace Link

section Lives

variable [Channels]

variable {l l' : Link} {effects : List Effect}

/-- **What a keeper has of its own**: what its session has to do, and the messages that wait. -/
def own (l : Link) : Nat := l.session.load + l.unsent.length

/-- To collect the outbox makes it neither more nor less. -/
theorem own_collect (l : Link) : l.collect.own = l.own := by
  show l.session.pending.length + 0 + (!l.session.isClosed).toNat
    + (l.unsent ++ l.session.outbox).length = l.own
  rw [own, Session.load, List.length_append]
  omega

/-- To hand over makes it less, if there is something to be handed over and room for it. -/
theorem own_handOver (l : Link) (n : Nat) :
    (l.handOver n).own = l.own - min (min n (l.capacity - l.outbound.length)) l.unsent.length := by
  simp only [own, handOver, List.length_drop]
  omega

theorem own_drain_le (l : Link) : l.drain.own ≤ l.own := by
  cases hlistening : l.listening with
  | true =>
    rw [drain_of_listening hlistening, own_handOver]
    exact Nat.sub_le _ _
  | false =>
    by_cases hunsent : l.unsent = []
    · exact Nat.le_of_eq (congrArg own (drain_of_nil hunsent))
    · rw [drain_of_deaf hlistening hunsent]
      exact Nat.add_le_add (l.session.load_close_le _) (Nat.zero_le _)

theorem own_settleTurn_le (l : Link) : l.settleTurn.own ≤ l.own := by
  by_cases h : l.session.phase = .closed
  · rw [settleTurn_of_closed h]
    exact Nat.le_refl _
  · rw [settleTurn_of_open h]
    exact Nat.le_trans (own_drain_le _) (Nat.le_of_eq l.own_collect)

/-- **What is ahead of a keeper.** Each message and each command takes a turn and can leave one
more message behind, each in line has to get in, and a keeper has to begin and to stop. -/
def ahead (l : Link) : Nat :=
  2 * (l.inbound.toList.length + l.commands.toList.length) + l.lineLength + l.own
    + 2 * (!l.started).toNat + (!l.stopped).toNat

/-- A link is given as many turns as are ahead of its keeper. -/
theorem ahead_le_workload (l : Link) : l.ahead ≤ l.workload := by
  have hclosed := (!l.session.isClosed).toNat_le
  have hstarted := (!l.started).toNat_le
  have hstopped := (!l.stopped).toNat_le
  rw [ahead, workload, own, Session.load]
  omega

/-! ## Each turn takes something off it -/

theorem started_settleTurn (l : Link) : l.settleTurn.started = l.started := by
  have hdrain (l : Link) : l.drain.started = l.started := by
    unfold drain
    split
    · rfl
    · split
      · rfl
      · rfl
  by_cases h : l.session.phase = .closed
  · rw [settleTurn_of_closed h]
    rfl
  · rw [settleTurn_of_open h]
    exact hdrain l.collect

/-- Where a keeper minds its own messages, nothing else that is ahead of it changes. -/
theorem ahead_add_own (hkeeps : l.Keeps l') (hstarted : l'.started = l.started)
    (hstopped : l'.stopped = l.stopped) : l'.ahead + l.own = l.ahead + l'.own := by
  rw [ahead, ahead, lineLength, lineLength, hkeeps.inbound, hkeeps.commands, hstarted, hstopped]
  omega

/-- To settle a turn adds nothing. -/
theorem ahead_settleTurn_le (l : Link) : l.settleTurn.ahead ≤ l.ahead := by
  have hrests := l.rests_settleTurn
  have hown := l.own_settleTurn_le
  have hsame := ahead_add_own hrests.toKeeps l.started_settleTurn hrests.stopped
  omega

/-- To close the session takes something off. -/
theorem ahead_close_lt (h : l.session.phase ≠ .closed) (reason : CloseReason) :
    (l.withSession (l.session.close reason)).ahead < l.ahead := by
  have hload := Session.load_close_lt h reason
  have hsame : (l.withSession (l.session.close reason)).ahead + l.own
      = l.ahead + ((l.session.close reason).load + l.unsent.length) :=
    ahead_add_own ⟨rfl, rfl, rfl⟩ rfl rfl
  rw [own] at hsame
  omega

/-- What is received is out of the channel, and those in line stay in line. -/
theorem length_receive? {α : Type} {c rest : Channel α} {a : α} (h : c.receive? = some (a, rest)) :
    c.toList.length = rest.toList.length + 1 ∧ rest.waiting = c.waiting :=
  ⟨congrArg List.length (Channel.toList_receive? h), Channel.waiting_of_receive? h⟩

/-- To hear a message takes it off. -/
theorem ahead_hear_lt (h : l.inbound.items ≠ []) : (l.part .hear).1.ahead < l.ahead := by
  rw [Ne, ← Channel.receive?_eq_none_iff] at h
  rw [part]
  split
  · rename_i sender message inbound hheard
    obtain ⟨hlength, hline⟩ := length_receive? hheard
    have hload := l.session.load_receive_le message
    simp only [ahead, lineLength, own, withSession, hline]
    omega
  · rename_i hnone
    exact absurd hnone h

/-- To obey a command takes it off, though it may leave a message behind. -/
theorem ahead_obey_lt (h : l.commands.items ≠ []) : (l.part .obey).1.ahead < l.ahead := by
  rw [Ne, ← Channel.receive?_eq_none_iff] at h
  rw [part]
  split
  · rename_i command commands hcommand
    obtain ⟨hlength, hline⟩ := length_receive? hcommand
    have hask : ∃ s : Session, s.load ≤ l.session.load + 1 ∧
        ({ l with commands }.ask command).1 = { l with commands, session := s } := by
      cases command with
      | close caller => exact ⟨_, Nat.le_succ_of_le (l.session.load_close_le _), rfl⟩
      | update caller markup => exact ⟨_, l.session.load_requestUpdate_le markup, rfl⟩
    obtain ⟨s, hload, hask⟩ := hask
    rw [hask]
    simp only [ahead, lineLength, own, hline]
    omega
  · rename_i hnone
    exact absurd hnone h

/-- To hand over takes messages off, if there are any and there is room for them. -/
theorem ahead_handOver_lt (hunsent : l.unsent ≠ []) (hroom : l.outbound.length < l.capacity) :
    (l.handOver (l.capacity - l.outbound.length)).ahead < l.ahead := by
  have hlength := List.length_pos_iff.2 hunsent
  have hown := l.own_handOver (l.capacity - l.outbound.length)
  have hsame : (l.handOver (l.capacity - l.outbound.length)).ahead + l.own
      = l.ahead + (l.handOver (l.capacity - l.outbound.length)).own :=
    ahead_add_own ⟨rfl, rfl, rfl⟩ rfl rfl
  have hsome : l.unsent.length ≤ l.own := Nat.le_add_left _ _
  omega

/-- **The part that a turn begins with takes something off.** -/
theorem ahead_part_lt (hopen : l.session.phase ≠ .closed) {part : Part}
    (hnext : l.nextPart? = some part) : (l.part part).1.ahead < l.ahead := by
  unfold nextPart? at hnext
  split at hnext
  · rename_i hitems
    cases hnext
    exact ahead_hear_lt hitems
  rename_i hsilent
  split at hnext
  · rename_i hmiss
    cases hnext
    have hnothing : l.inbound.toList = [] := by
      rw [Channel.toList, Decidable.of_not_not hsilent, hmiss.2]
      rfl
    rw [Link.part, if_pos ⟨hmiss.1, hnothing⟩]
    exact ahead_close_lt hopen _
  split at hnext
  · rename_i hitems
    cases hnext
    exact ahead_obey_lt hitems
  split at hnext
  · rename_i hforsaken
    cases hnext
    rw [Link.part, if_pos hforsaken]
    exact ahead_close_lt hopen _
  split at hnext
  · rename_i hexpired
    cases hnext
    rw [Link.part, if_pos hexpired.2, Session.handshakeTimedOut, if_pos hexpired.1]
    exact ahead_close_lt hopen _
  split at hnext
  · rename_i hdeliver
    rw [canDeliver, Bool.and_eq_true, Bool.not_eq_true', List.isEmpty_eq_false_iff,
      Bool.or_eq_true, decide_eq_true_iff] at hdeliver
    cases hlistening : l.listening with
    | true =>
      rw [hlistening] at hdeliver
      rw [if_pos hlistening] at hnext
      cases hnext
      exact ahead_handOver_lt hdeliver.1 (hdeliver.2.resolve_left (by decide))
    | false =>
      rw [hlistening, if_neg (by decide)] at hnext
      cases hnext
      rw [Link.part, if_pos ⟨hlistening, hdeliver.1⟩]
      exact ahead_close_lt hopen _
  · cases hnext

/-- To begin leaves at most the handshake behind. -/
theorem ahead_start_lt (hnot : l.started = false) : l.start.ahead < l.ahead := by
  have hcreate : l.create.ahead < l.ahead := by
    have hload := l.session.load_contextCreated_le
    simp only [ahead, lineLength, own, create, hnot]
    show _ + _ + 2 * 0 + _ < _ + _ + 2 * 1 + _
    omega
  rw [start_eq]
  split
  · exact Nat.lt_of_le_of_lt l.create.ahead_settleTurn_le hcreate
  · exact hcreate

/-- To stop is the last that is ahead of a keeper. -/
theorem ahead_stop_lt (hnot : l.stopped = false) : l.stop.1.ahead < l.ahead := by
  simp only [ahead, lineLength, stop, own, hnot, Channel.toList_empty, Channel.waiting_empty]
  show 2 * (0 + 0) + (0 + 0) + _ + _ + 0 < _ + _ + _ + _ + 1
  omega

/-- **Each turn takes something off what is ahead of a keeper.** -/
theorem ahead_turn_lt (hturn : l.turn? = some (l', effects)) : l'.ahead < l.ahead := by
  have hstopped : l.stopped = false := Bool.eq_false_iff.2 fun hstop => by
    rw [turn?, if_pos hstop] at hturn
    cases hturn
  rcases turn?_cases hturn with ⟨hnot, rfl, _⟩ | ⟨_, rfl, _⟩ | ⟨_, hopen, part, hpart, rfl, _⟩
  · exact ahead_start_lt hnot
  · exact ahead_stop_lt hstopped
  · exact Nat.lt_of_le_of_lt (ahead_settleTurn_le _) (ahead_part_lt hopen hpart)

/-! ## Who gets in is not in line any more -/

/-- Who is let in leaves the line and is in the channel. -/
theorem length_admit? {α : Type} {capacity : Nat} {c rest : Channel α} {a : α}
    (h : c.admit? capacity = some (a, rest)) :
    rest.toList.length = c.toList.length ∧ rest.waiting.length + 1 = c.waiting.length :=
  ⟨congrArg List.length (Channel.toList_admit? h), by rw [Channel.waiting_of_admit? h]; rfl⟩

theorem ahead_admitMessage_lt (h : l.admitMessage? = some (l', effects)) :
    l'.ahead < l.ahead ∧ l'.lineLength + 1 = l.lineLength := by
  rw [admitMessage?] at h
  cases hlet : l.inbound.admit? l.capacity with
  | none =>
    rw [hlet] at h
    cases h
  | some admitted =>
    obtain ⟨⟨sender, message⟩, inbound⟩ := admitted
    rw [hlet] at h
    cases h
    obtain ⟨hlength, hline⟩ := length_admit? hlet
    constructor
    · simp only [ahead, lineLength, own]
      omega
    · simp only [lineLength]
      omega

theorem ahead_admitCommand_lt (h : l.admitCommand? = some (l', effects)) :
    l'.ahead < l.ahead ∧ l'.lineLength + 1 = l.lineLength := by
  rw [admitCommand?] at h
  cases hlet : l.commands.admit? l.capacity with
  | none =>
    rw [hlet] at h
    cases h
  | some admitted =>
    obtain ⟨command, commands⟩ := admitted
    rw [hlet] at h
    cases h
    obtain ⟨hlength, hline⟩ := length_admit? hlet
    constructor
    · simp only [ahead, lineLength, own]
      omega
    · simp only [lineLength]
      omega

theorem ahead_admitAll_le (n : Nat) (l : Link) : (admitAll n l).1.ahead ≤ l.ahead := by
  induction n generalizing l with
  | zero => exact Nat.le_refl _
  | succ n ih =>
    rw [admitAll]
    split
    · rename_i l' effects hlet
      exact Nat.le_trans (ih l') (Nat.le_of_lt (ahead_admitMessage_lt hlet).1)
    · split
      · rename_i l' effects hlet
        exact Nat.le_trans (ih l') (Nat.le_of_lt (ahead_admitCommand_lt hlet).1)
      · exact Nat.le_refl _

/-- **If anybody gets in, there is less ahead of the keeper.** -/
theorem ahead_admitAll_lt (h : (l.admitMessage?.isNone && l.admitCommand?.isNone) = false) :
    (admitAll l.lineLength l).1.ahead < l.ahead := by
  cases hline : l.lineLength with
  | zero =>
    -- where nobody stands in line, nobody gets in
    cases hmessage : l.admitMessage? with
    | some admitted =>
      have hless := (ahead_admitMessage_lt hmessage).2
      omega
    | none =>
      cases hcommand : l.admitCommand? with
      | some admitted =>
        have hless := (ahead_admitCommand_lt hcommand).2
        omega
      | none =>
        rw [hmessage, hcommand] at h
        cases h
  | succ n =>
    rw [admitAll]
    split
    · rename_i l' effects hlet
      exact Nat.lt_of_le_of_lt (ahead_admitAll_le n l') (ahead_admitMessage_lt hlet).1
    · rename_i hmessage
      split
      · rename_i l' effects hlet
        exact Nat.lt_of_le_of_lt (ahead_admitAll_le n l') (ahead_admitCommand_lt hlet).1
      · rename_i hcommand
        rw [hmessage, hcommand] at h
        cases h

/-! ## Settling -/

/-- **With enough turns a link comes to rest.** -/
theorem isSettled_settleWithin (n : Nat) (l : Link) (hahead : l.ahead ≤ n) :
    (settleWithin n l).1.isSettled = true := by
  induction n generalizing l with
  | zero =>
    -- nothing is ahead of the keeper, so nothing can be taken off
    rw [settleWithin, isSettled]
    cases hturn : l.turn? with
    | some next => exact absurd (ahead_turn_lt hturn) (by omega)
    | none =>
      cases hlet : l.admitMessage?.isNone && l.admitCommand?.isNone with
      | false => exact absurd (ahead_admitAll_lt hlet) (by omega)
      | true => rw [Option.isNone_none, Bool.true_and, hlet]
  | succ n ih =>
    rw [settleWithin]
    split
    · rename_i l' effects hturn
      exact ih l' (Nat.le_of_lt_succ (Nat.lt_of_lt_of_le (ahead_turn_lt hturn) hahead))
    · rename_i hturn
      split
      · rename_i hlet
        rw [isSettled, hturn, Option.isNone_none, Bool.true_and, hlet]
      · rename_i hlet
        rw [Bool.not_eq_true] at hlet
        exact ih _ (Nat.le_of_lt_succ (Nat.lt_of_lt_of_le (ahead_admitAll_lt hlet) hahead))

/-- **Every link comes to rest**, without anybody reading. -/
theorem isSettled_settle (l : Link) : l.settle.1.isSettled = true :=
  isSettled_settleWithin _ l l.ahead_le_workload

/-- **What happens by itself**: the keeper takes a turn, or the first in line gets in. -/
def Event.isOwn : Event → Bool
  | .turn | .admitMessage | .admitCommand => true
  | .call _ _ | .post _ | .close _ | .send _ _ | .read | .deafen | .silence | .vanish _ | .forsake
  | .elapse _ => false

/-- A link after events that happen by themselves. -/
def GoesTo (l l' : Link) : Prop :=
  ∃ events : List Event, events.all Event.isOwn = true ∧ l' = (l.life (events.map .event)).1

theorem goesTo_rfl (l : Link) : l.GoesTo l := ⟨[], rfl, rfl⟩

theorem GoesTo.step (e : Event) (hown : e.isOwn = true) (h : (l.step e).1.GoesTo l') :
    l.GoesTo l' := by
  obtain ⟨events, hall, rfl⟩ := h
  exact ⟨e :: events, by rw [List.all_cons, hown, hall]; rfl, rfl⟩

theorem GoesTo.trans {l'' : Link} (h : l.GoesTo l') (h' : l'.GoesTo l'') : l.GoesTo l'' := by
  obtain ⟨events, hall, rfl⟩ := h
  obtain ⟨more, hmore, rfl⟩ := h'
  refine ⟨events ++ more, by rw [List.all_append, hall, hmore]; rfl, ?_⟩
  rw [List.map_append, life_append]

theorem goesTo_admitAll (n : Nat) (l : Link) : l.GoesTo (admitAll n l).1 := by
  induction n generalizing l with
  | zero => exact l.goesTo_rfl
  | succ n ih =>
    rw [admitAll]
    split
    · rename_i l' effects hlet
      exact .step .admitMessage rfl (by rw [Link.step, hlet]; exact ih l')
    · split
      · rename_i l' effects hlet
        exact .step .admitCommand rfl (by rw [Link.step, hlet]; exact ih l')
      · exact l.goesTo_rfl

theorem goesTo_settleWithin (n : Nat) (l : Link) : l.GoesTo (settleWithin n l).1 := by
  induction n generalizing l with
  | zero => exact l.goesTo_rfl
  | succ n ih =>
    rw [settleWithin]
    split
    · rename_i l' effects hturn
      exact .step .turn rfl (by rw [Link.step, hturn]; exact ih l')
    · split
      · exact l.goesTo_rfl
      · exact (goesTo_admitAll _ l).trans (ih _)

/-! ## A context that stops reading -/

/-- A channel that is empty and lets nobody in has nobody in line. -/
theorem toList_of_admit?_eq_none {α : Type} {capacity : Nat} {c : Channel α}
    (hroom : 0 < capacity) (hitems : c.items = []) (hlet : c.admit? capacity = none) :
    c.toList = [] := by
  rcases Channel.admit?_eq_none_iff.1 hlet with hwaiting | hfull
  · rw [Channel.toList, hitems, hwaiting]
    rfl
  · rw [hitems] at hfull
    exact absurd hroom (Nat.not_lt.2 hfull)

/-- Nobody gets in where the channels let nobody in. -/
theorem admit?_of_isSettled (h : l.isSettled = true) :
    l.turn? = none ∧ l.inbound.admit? l.capacity = none ∧ l.commands.admit? l.capacity = none := by
  rw [isSettled, Bool.and_eq_true, Bool.and_eq_true, Option.isNone_iff_eq_none,
    admitMessage?, admitCommand?] at h
  refine ⟨h.1.1, ?_, ?_⟩
  · cases hlet : l.inbound.admit? l.capacity with
    | none => rfl
    | some admitted =>
      rw [hlet] at h
      cases h.1.2
  · cases hlet : l.commands.admit? l.capacity with
    | none => rfl
    | some admitted =>
      rw [hlet] at h
      cases h.2

/-- **A link that comes to rest**, whatever its context reads, after some pulses of a new one. -/
structure ComesToRest (new : Link) (pulses : List Pulse) (l : Link) : Prop where
  /-- The host sees the session as it is. -/
  status : l.status = l.session.status
  /-- Where the keeper has no turn to take, all is heard and obeyed, and handed over up to what
  there is no room for. -/
  rests : l.turn? = none → l.session.phase ≠ .closed → l.IsAtRest
  /-- Where nobody gets in either, nobody is in line. -/
  served : l.isSettled = true → l.session.phase ≠ .closed →
    l.inbound.toList = [] ∧ l.commands.toList = []
  /-- No session is left open that the host let go of, unless a caller is about to post. -/
  tended : l.isSettled = true → l.session.phase ≠ .closed → l.held = true ∨ l.calls ≠ []
  /-- A command to close that was not taken back was obeyed by then, unless it has not got in, -/
  obeyed : ∀ caller, new.GivesClose pulses caller → l.turn? = none →
    l.session.phase = .closed ∨ .close caller ∈ l.commands.waiting
  /-- and in a settled link it was obeyed. -/
  closed : ∀ caller, new.GivesClose pulses caller → l.isSettled = true →
    l.session.phase = .closed

/-- **What is known between two turns** of a keeper that works in order. -/
theorem Works.comesToRest {capacity clock timeout : Nat} {pulses : List Pulse}
    (h : (opened capacity clock timeout).Works .between pulses .between) :
    ComesToRest (opened capacity clock timeout) pulses
      ((opened capacity clock timeout).life pulses).1 := by
  have htruth := (isTruthful_opened capacity clock timeout).life pulses
  have hplace := h.inPlace (flow_opened True capacity clock timeout) ⟨rfl, rfl⟩
  obtain ⟨handed, hflow⟩ := (flow_opened True capacity clock timeout).life pulses
    fun _ _ _ _ _ => trivial
  have hclose (caller : Nat) (hgives : (opened capacity clock timeout).GivesClose pulses caller) :
      ((opened capacity clock timeout).life pulses).1.Awaits caller true :=
    hgives.awaits (isTruthful_opened capacity clock timeout)
  revert htruth hplace hflow hclose
  generalize ((opened capacity clock timeout).life pulses).1 = l
  intro htruth hplace hflow hclose
  have hroom : 0 < l.capacity := by
    rw [hflow.capacity]
    exact Nat.le_max_right _ _
  have hrests := isAtRest_of_turn?_eq_none htruth hflow hplace
  have hserved (hsettled : l.isSettled = true) (hopen : l.session.phase ≠ .closed) :
      l.inbound.toList = [] ∧ l.commands.toList = [] := by
    obtain ⟨hturn, hmessage, hcommand⟩ := admit?_of_isSettled hsettled
    have hrest := hrests hturn hopen
    exact ⟨toList_of_admit?_eq_none hroom hrest.heard hmessage,
      toList_of_admit?_eq_none hroom hrest.obeyed hcommand⟩
  refine ⟨hplace.2, hrests, hserved, fun hsettled hopen => ?_, fun caller hgives hturn => ?_,
    fun caller hgives hsettled => ?_⟩
  · have htended := (hrests (admit?_of_isSettled hsettled).1 hopen).tended
    rw [isForsaken, (hserved hsettled hopen).2, List.isEmpty_nil, Bool.and_true,
      Bool.and_eq_false_iff, Bool.not_eq_false', List.isEmpty_eq_false_iff] at htended
    exact htended
  · by_cases hopen : l.session.phase = .closed
    · exact .inl hopen
    · have hthere := (hclose caller hgives).resolve_left hopen
      rw [Channel.certain, if_pos rfl, Channel.toList, (hrests hturn hopen).obeyed] at hthere
      exact .inr hthere
  · by_cases hopen : l.session.phase = .closed
    · exact hopen
    · have hthere := (hclose caller hgives).resolve_left hopen
      rw [Channel.certain, if_pos rfl, (hserved hsettled hopen).2] at hthere
      exact absurd hthere List.not_mem_nil

/-- **A context that stops reading delays only its own deliveries.** In every life in which the
keeper works in order, with the others free to do anything at any point of it, what is known of a
link at rest holds between any two turns, and every link gets there: by itself and without anybody
reading it comes to a point where nothing is left to do, and there every command to close has been
obeyed, unless its caller went away before it got in, and the host sees that it was. -/
theorem life_comes_to_rest (capacity clock timeout : Nat) (pulses : List Pulse)
    (hworks : (opened capacity clock timeout).Works .between pulses .between) :
    let l := ((opened capacity clock timeout).life pulses).1
    l.capacity = max capacity 1 ∧ ComesToRest (opened capacity clock timeout) pulses l ∧
      l.GoesTo l.settle.1 ∧ l.settle.1.isSettled = true ∧
      ComesToRest (opened capacity clock timeout) pulses l.settle.1 ∧
      ∀ caller, (opened capacity clock timeout).GivesClose pulses caller →
        l.settle.1.status.phase = .closed := by
  intro l
  obtain ⟨events, hown, hsettle⟩ := l.goesTo_settleWithin l.workload
  have hsettled : l.settle.1 = ((opened capacity clock timeout).life
      (pulses ++ events.map .event)).1 := by
    rw [life_append]
    exact hsettle
  have hlater := (hworks.append (works_events _ events)).comesToRest
  rw [← hsettled] at hlater
  have hstays (caller : Nat) : .event (.vanish caller) ∉ events.map Pulse.event := by
    intro hmem
    obtain ⟨e, hevent, hvanish⟩ := List.mem_map.1 hmem
    cases hvanish
    exact absurd (List.all_eq_true.1 hown _ hevent) Bool.false_ne_true
  have hrest : ComesToRest (opened capacity clock timeout) pulses l.settle.1 :=
    { status := hlater.status
      rests := hlater.rests
      served := hlater.served
      tended := hlater.tended
      obeyed := fun caller hgives => hlater.obeyed caller (hgives.append (hstays caller))
      closed := fun caller hgives => hlater.closed caller (hgives.append (hstays caller)) }
  obtain ⟨handed, hflow⟩ := (flow_opened True capacity clock timeout).life pulses
    fun _ _ _ _ _ => trivial
  refine ⟨hflow.capacity, hworks.comesToRest, ⟨events, hown, hsettle⟩, l.isSettled_settle, hrest,
    fun caller hgives => ?_⟩
  rw [hrest.status]
  exact hrest.closed caller hgives l.isSettled_settle

end Lives

/-! ### A stalled context

The channel holds one message, and the handshake fills it. -/

/-- The context is ready, reads nothing and gets three contents; its keeper begins in parts. -/
def stalled (markup : Markup.SafeMarkup) : List Pulse :=
  [.create, .part .collect, .part (.handOver 1), .publish] ++
    [.send 7 .ready, .turn, .call 1 markup, .post 1, .turn, .call 2 markup, .post 2, .turn,
      .call 3 markup, .post 3, .turn].map .event

/-- Its keeper works in order, also when the session is asked to be closed. -/
theorem works_stalled [Channels] (markup : Markup.SafeMarkup) (l : Link) (events : List Event) :
    l.Works .between (stalled markup ++ events.map .event) .between := by
  rw [stalled, List.append_assoc, ← List.map_append]
  have hbegins : (Part.handOver 1).delivers = true := rfl
  exact .cons .create (.cons .collect (.cons (.deliver (by exact nofun) hbegins)
    (.cons .publish (works_events _ _))))

/-- With the contents in line behind the handshake the link is at rest, and a command to close is
obeyed. -/
theorem life_stalled :
    let pulses := stalled (Markup.sanitize .preview "content")
    let l := ((opened 1 0 5000).life pulses).1
    let closing := ((opened 1 0 5000).life (pulses ++ [.event (.close 9)])).1
    (opened 1 0 5000).Works .between pulses .between ∧ l.IsAtRest ∧ l.session.phase = .ready ∧
      l.outbound = [.handshake] ∧ l.unsent.length = 3 ∧
      closing.settle.1.status.phase = .closed := by
  intro pulses l closing
  have hworks : (opened 1 0 5000).Works .between pulses .between := by
    have hworks := works_stalled (Markup.sanitize .preview "content") (opened 1 0 5000) []
    rwa [List.map_nil, List.append_nil] at hworks
  have hphase : l.session.phase = .ready := by decide +kernel
  have hturn : l.turn?.isNone = true := by decide +kernel
  have hopen : l.session.phase ≠ .closed := by
    rw [hphase]
    decide
  have hrest := (life_comes_to_rest 1 0 5000 pulses hworks).2.1
  have hcloses := (life_comes_to_rest 1 0 5000 (pulses ++ [.event (.close 9)])
    (works_stalled _ _ [.close 9])).2.2.2.2.2
  refine ⟨hworks, hrest.rests (Option.isNone_iff_eq_none.1 hturn) hopen, hphase,
    by decide +kernel, by decide +kernel, hcloses 9 (givesClose_of_mem _ ?_ ?_)⟩
  · exact List.mem_append_right _ (List.mem_singleton_self _)
  · simp [pulses, stalled]

end Link

end SafePreview
