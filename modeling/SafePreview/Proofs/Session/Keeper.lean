import SafePreview.Proofs.Session.Pulse

/-!
# What is the keeper's

The session, its status and whether the keeper began or stopped are the keeper's own: no event but a
turn touches them (`Link.sameKeeper_step`). The clock and the deadline are not: no part of a turn
moves either of them, nor does it stop the keeper (`Link.steady_part`). So whatever changed between
two links of a life, it is known whose doing it was.

Of any pulse this leaves little to be said (`Link.attends_pulse`). The keeper publishes nothing but
what is the case and stops only behind the close, and a closed session is left as it is. So whoever
learns of a close, from the status or from a keeper that stopped, learns of one that happened
(`Link.IsTruthful`), and whatever the status says was the case at some time (`Link.status_life`).
-/

namespace SafePreview

variable [Channels]

namespace Link

variable {l l' l'' : Link}

/-! ## The others and what is the keeper's -/

/-- **How long an event takes.** -/
def Event.duration : Event → Nat
  | .elapse ms => ms
  | _ => 0

/-- **Links that agree on all that is the keeper's own**, and on the deadline, so many milliseconds
apart. -/
structure SameKeeper (l : Link) (milliseconds : Nat) (l' : Link) : Prop where
  session : l'.session = l.session
  status : l'.status = l.status
  started : l'.started = l.started
  stopped : l'.stopped = l.stopped
  capacity : l'.capacity = l.capacity
  deadline : l'.deadline = l.deadline
  clock : l'.clock = l.clock + milliseconds

theorem sameKeeper_rfl (l : Link) : l.SameKeeper 0 l := ⟨rfl, rfl, rfl, rfl, rfl, rfl, rfl⟩

/-- **No event but a turn touches what is the keeper's.** -/
theorem sameKeeper_step (l : Link) {e : Event} (hturn : e ≠ .turn) :
    l.SameKeeper e.duration (l.step e).1 := by
  cases e with
  | call caller markup =>
    rw [step, call]
    split
    · exact l.sameKeeper_rfl
    · exact ⟨rfl, rfl, rfl, rfl, rfl, rfl, rfl⟩
  | post caller =>
    rw [step, post]
    split
    · exact l.sameKeeper_rfl
    · dsimp only
      split
      · exact ⟨rfl, rfl, rfl, rfl, rfl, rfl, rfl⟩
      · exact ⟨rfl, rfl, rfl, rfl, rfl, rfl, rfl⟩
  | close caller =>
    rw [step, askClose]
    split
    · exact l.sameKeeper_rfl
    · exact ⟨rfl, rfl, rfl, rfl, rfl, rfl, rfl⟩
  | send sender message =>
    rw [step, send]
    split
    · exact l.sameKeeper_rfl
    · exact ⟨rfl, rfl, rfl, rfl, rfl, rfl, rfl⟩
  | admitCommand =>
    rw [step, admitCommand?]
    cases l.commands.admit? l.capacity with
    | none => exact l.sameKeeper_rfl
    | some admitted => exact ⟨rfl, rfl, rfl, rfl, rfl, rfl, rfl⟩
  | admitMessage =>
    rw [step, admitMessage?]
    cases l.inbound.admit? l.capacity with
    | none => exact l.sameKeeper_rfl
    | some admitted => exact ⟨rfl, rfl, rfl, rfl, rfl, rfl, rfl⟩
  | read =>
    rw [step, read]
    split
    · exact l.sameKeeper_rfl
    · split
      · exact ⟨rfl, rfl, rfl, rfl, rfl, rfl, rfl⟩
      · exact l.sameKeeper_rfl
  | deafen => exact ⟨rfl, rfl, rfl, rfl, rfl, rfl, rfl⟩
  | silence => exact ⟨rfl, rfl, rfl, rfl, rfl, rfl, rfl⟩
  | vanish caller => exact ⟨rfl, rfl, rfl, rfl, rfl, rfl, rfl⟩
  | forsake => exact ⟨rfl, rfl, rfl, rfl, rfl, rfl, rfl⟩
  | elapse ms => exact ⟨rfl, rfl, rfl, rfl, rfl, rfl, rfl⟩
  | turn => exact absurd rfl hturn

/-! ## The keeper and what is not its own -/

/-- **Links that agree on the time**, on the size of channels and on whether the keeper stopped. -/
structure Steady (l l' : Link) : Prop where
  capacity : l'.capacity = l.capacity
  clock : l'.clock = l.clock
  deadline : l'.deadline = l.deadline
  stopped : l'.stopped = l.stopped

theorem steady_rfl (l : Link) : l.Steady l := ⟨rfl, rfl, rfl, rfl⟩

theorem Steady.trans (h : l.Steady l') (h' : l'.Steady l'') : l.Steady l'' where
  capacity := h'.capacity.trans h.capacity
  clock := h'.clock.trans h.clock
  deadline := h'.deadline.trans h.deadline
  stopped := h'.stopped.trans h.stopped

/-- **Links that agree on all who wait for the keeper.** -/
structure Keeps (l l' : Link) : Prop where
  calls : l'.calls = l.calls
  commands : l'.commands = l.commands
  inbound : l'.inbound = l.inbound

theorem keeps_rfl (l : Link) : l.Keeps l := ⟨rfl, rfl, rfl⟩

/-- **Links between which a keeper was busy with its own messages.** -/
structure Rests (l l' : Link) : Prop extends Steady l l', Keeps l l'

theorem rests_drain (l : Link) : l.Rests l.drain := by
  unfold drain
  split
  · exact ⟨l.steady_rfl, l.keeps_rfl⟩
  · split
    · exact ⟨⟨rfl, rfl, rfl, rfl⟩, ⟨rfl, rfl, rfl⟩⟩
    · exact ⟨⟨rfl, rfl, rfl, rfl⟩, ⟨rfl, rfl, rfl⟩⟩

/-- To settle a turn is no business of those who wait, and takes no time. -/
theorem rests_settleTurn (l : Link) : l.Rests l.settleTurn := by
  by_cases h : l.session.phase = .closed
  · rw [settleTurn_of_closed h]
    exact ⟨⟨rfl, rfl, rfl, rfl⟩, ⟨rfl, rfl, rfl⟩⟩
  · rw [settleTurn_of_open h]
    have hdrain := l.collect.rests_drain
    exact ⟨⟨hdrain.capacity, hdrain.clock, hdrain.deadline, hdrain.stopped⟩,
      ⟨hdrain.calls, hdrain.commands, hdrain.inbound⟩⟩

theorem rests_start (l : Link) : l.Rests l.start := by
  rw [start_eq]
  split
  · have hsettled := l.create.rests_settleTurn
    exact ⟨⟨hsettled.capacity, hsettled.clock, hsettled.deadline, hsettled.stopped⟩,
      ⟨hsettled.calls, hsettled.commands, hsettled.inbound⟩⟩
  · exact ⟨⟨rfl, rfl, rfl, rfl⟩, ⟨rfl, rfl, rfl⟩⟩

/-- **No part of a turn moves the time**, stops the keeper or publishes a status. -/
theorem steady_part (l : Link) (p : Part) :
    l.Steady (l.part p).1 ∧ (l.part p).1.status = l.status := by
  cases p with
  | hear =>
    rw [part]
    split
    · exact ⟨⟨rfl, rfl, rfl, rfl⟩, rfl⟩
    · exact ⟨l.steady_rfl, rfl⟩
  | obey =>
    rw [part]
    split
    · rename_i command commands _
      cases command with
      | close caller => exact ⟨⟨rfl, rfl, rfl, rfl⟩, rfl⟩
      | update caller markup => exact ⟨⟨rfl, rfl, rfl, rfl⟩, rfl⟩
    · exact ⟨l.steady_rfl, rfl⟩
  | miss =>
    rw [part]
    split
    · exact ⟨⟨rfl, rfl, rfl, rfl⟩, rfl⟩
    · exact ⟨l.steady_rfl, rfl⟩
  | forgo =>
    rw [part]
    split
    · exact ⟨⟨rfl, rfl, rfl, rfl⟩, rfl⟩
    · exact ⟨l.steady_rfl, rfl⟩
  | expire =>
    rw [part]
    split
    · exact ⟨⟨rfl, rfl, rfl, rfl⟩, rfl⟩
    · exact ⟨l.steady_rfl, rfl⟩
  | collect => exact ⟨⟨rfl, rfl, rfl, rfl⟩, rfl⟩
  | handOver n => exact ⟨⟨rfl, rfl, rfl, rfl⟩, rfl⟩
  | giveUp =>
    rw [part]
    split
    · exact ⟨⟨rfl, rfl, rfl, rfl⟩, rfl⟩
    · exact ⟨l.steady_rfl, rfl⟩

/-- At the end of a turn the status is that of the session. -/
theorem status_settleTurn (l : Link) : l.settleTurn.status = l.settleTurn.session.status := rfl

theorem status_start (l : Link) : l.start.status = l.start.session.status := by
  rw [start_eq]
  split
  · exact l.create.status_settleTurn
  · rfl

/-! ## Every pulse -/

/-- A closed session is left as it is by every event, -/
theorem session_step_of_closed {l : Link} (h : l.session.phase = .closed) (e : Event) :
    (l.step e).1.session = l.session := by
  by_cases hturn : e = .turn
  · rw [hturn, step]
    cases hnext : l.turn? with
    | none => rfl
    | some next =>
      rcases turn?_cases hnext with ⟨_, hstart, _⟩ | ⟨_, hstop, _⟩ | ⟨_, hopen, _⟩
      · show next.1.session = l.session
        rw [hstart, start, Session.contextCreated_of_closed h]
        rfl
      · show next.1.session = l.session
        rw [hstop]
        rfl
      · exact absurd h hopen
  exact (l.sameKeeper_step hturn).session

/-- and by every pulse. -/
theorem session_pulse_of_closed {l : Link} (h : l.session.phase = .closed) (p : Pulse) :
    (l.pulse p).1.session = l.session := by
  cases p with
  | event e => exact session_step_of_closed h e
  | create =>
    rw [pulse]
    split
    · rfl
    · show l.session.contextCreated.2 = l.session
      rw [Session.contextCreated_of_closed h]
  | part p => rw [pulse, if_neg fun hwork => hwork.2 h]
  | discard => rw [pulse, if_pos h]
  | publish => rfl
  | stop =>
    rw [pulse, if_pos h]
    rfl

/-- It is so in every life. -/
theorem session_life_of_closed {l : Link} (h : l.session.phase = .closed) (pulses : List Pulse) :
    (l.life pulses).1.session = l.session := by
  induction pulses generalizing l with
  | nil => rfl
  | cons p pulses ih =>
    have hsame := session_pulse_of_closed h p
    exact (ih (by rwa [hsame])).trans hsame

/-- **How long a pulse takes.** What the keeper does takes no time. -/
def Pulse.duration : Pulse → Nat
  | .event e => e.duration
  | _ => 0

/-- **A keeper that does its duty** while a pulse goes by: it publishes nothing but what is the case
and stops only behind the close, and time passes as it does for everybody. -/
structure Attends (l : Link) (p : Pulse) (l' : Link) : Prop where
  capacity : l'.capacity = l.capacity
  clock : l'.clock = l.clock + p.duration
  deadline : l'.deadline = l.deadline
  stopped : l'.stopped = true → l.stopped = true ∨ l.session.phase = .closed
  status : l'.status = l.status ∨ l'.status = l'.session.status

theorem Steady.attends {p : Pulse} (h : l.Steady l') (hduration : p.duration = 0)
    (hstatus : l'.status = l.status ∨ l'.status = l'.session.status) : l.Attends p l' where
  capacity := h.capacity
  clock := by rw [h.clock, hduration, Nat.add_zero]
  deadline := h.deadline
  stopped hstop := .inl (h.stopped ▸ hstop)
  status := hstatus

theorem attends_stop (l : Link) {p : Pulse} (hduration : p.duration = 0)
    (hclosed : l.session.phase = .closed) : l.Attends p l.stop.1 where
  capacity := rfl
  clock := by rw [hduration]; rfl
  deadline := rfl
  stopped _ := .inr hclosed
  status := .inl rfl

/-- **Every keeper does its duty.** -/
theorem attends_pulse (l : Link) (p : Pulse) : l.Attends p (l.pulse p).1 := by
  cases p with
  | event e =>
    by_cases hturn : e = .turn
    · subst hturn
      rw [pulse, step]
      cases hnext : l.turn? with
      | none => exact l.steady_rfl.attends rfl (.inl rfl)
      | some next =>
        obtain ⟨l', effects⟩ := next
        rcases turn?_cases hnext with
          ⟨_, rfl, rfl⟩ | ⟨hclosed, rfl, rfl⟩ | ⟨_, _, part, _, rfl, rfl⟩
        · exact l.rests_start.toSteady.attends rfl (.inr l.status_start)
        · exact l.attends_stop rfl hclosed
        · have hsteady := (l.steady_part part).1.trans (l.part part).1.rests_settleTurn.toSteady
          exact hsteady.attends rfl (.inr rfl)
    · have hsame := l.sameKeeper_step hturn
      exact ⟨hsame.capacity, hsame.clock, hsame.deadline, fun hstop => .inl (hsame.stopped ▸ hstop),
        .inl hsame.status⟩
  | create =>
    rw [pulse]
    split
    · exact l.steady_rfl.attends rfl (.inl rfl)
    · exact Steady.attends ⟨rfl, rfl, rfl, rfl⟩ rfl (.inl rfl)
  | part part =>
    rw [pulse]
    split
    · exact (l.steady_part part).1.attends rfl (.inl (l.steady_part part).2)
    · exact l.steady_rfl.attends rfl (.inl rfl)
  | discard =>
    rw [pulse]
    split
    · exact Steady.attends ⟨rfl, rfl, rfl, rfl⟩ rfl (.inl rfl)
    · exact l.steady_rfl.attends rfl (.inl rfl)
  | publish => exact Steady.attends ⟨rfl, rfl, rfl, rfl⟩ rfl (.inr rfl)
  | stop =>
    rw [pulse]
    split
    · rename_i hclosed
      exact l.attends_stop rfl hclosed
    · exact l.steady_rfl.attends rfl (.inl rfl)

/-! ## Every life -/

/-- The deadline of a session is set at its opening. -/
theorem deadline_life (l : Link) (pulses : List Pulse) :
    (l.life pulses).1.deadline = l.deadline := by
  induction pulses generalizing l with
  | nil => rfl
  | cons p pulses ih => exact (ih _).trans (l.attends_pulse p).deadline

/-- **What the status says was the case** at some time, unless nothing was published since the
beginning. -/
theorem status_life (l : Link) (pulses : List Pulse) :
    (l.life pulses).1.status = l.status ∨
      ∃ before after, pulses = before ++ after ∧
        (l.life pulses).1.status = (l.life before).1.session.status := by
  induction pulses generalizing l with
  | nil => exact .inl rfl
  | cons p pulses ih =>
    rcases ih (l.pulse p).1 with hsame | ⟨before, after, rfl, hstatus⟩
    · refine (l.attends_pulse p).status.imp hsame.trans fun hstatus => ?_
      exact ⟨[p], pulses, rfl, hsame.trans hstatus⟩
    · exact .inr ⟨p :: before, after, rfl, hstatus⟩

/-- **Between whole turns the status is that of the session.** -/
theorem status_run (h : l.status = l.session.status) (events : List Event) :
    (l.run events).1.status = (l.run events).1.session.status := by
  induction events generalizing l with
  | nil => exact h
  | cons e events ih =>
    refine ih ?_
    by_cases hturn : e = .turn
    · subst hturn
      rw [step]
      cases hnext : l.turn? with
      | none => exact h
      | some next =>
        obtain ⟨l', effects⟩ := next
        rcases turn?_cases hnext with ⟨_, rfl, _⟩ | ⟨_, rfl, _⟩ | ⟨_, _, part, _, rfl, _⟩
        · exact l.status_start
        · exact h
        · exact (l.part part).1.status_settleTurn
    · have hsame := l.sameKeeper_step hturn
      rw [hsame.status, hsame.session, h]

/-- **A link that speaks of a close only after it**: where the keeper stopped or the status says
that the session is closed, it is. -/
structure IsTruthful (l : Link) : Prop where
  stopped : l.stopped = true → l.session.phase = .closed
  status : l.status.phase = .closed → l.session.phase = .closed

theorem isTruthful_opened (capacity clock timeout : Nat) :
    (opened capacity clock timeout).IsTruthful := ⟨nofun, nofun⟩

/-- **Every pulse leaves a link truthful.** -/
theorem IsTruthful.pulse (h : l.IsTruthful) (p : Pulse) : (l.pulse p).1.IsTruthful := by
  have hclosed (hphase : l.session.phase = .closed) : (l.pulse p).1.session.phase = .closed := by
    rwa [session_pulse_of_closed hphase]
  have hattends := l.attends_pulse p
  constructor
  · intro hstop
    exact hclosed ((hattends.stopped hstop).elim h.stopped id)
  · intro hphase
    rcases hattends.status with hsame | hpublished
    · rw [hsame] at hphase
      exact hclosed (h.status hphase)
    · rw [hpublished] at hphase
      exact hphase

/-- **Every life leaves a link truthful.** -/
theorem IsTruthful.life (h : l.IsTruthful) (pulses : List Pulse) :
    (l.life pulses).1.IsTruthful := by
  induction pulses generalizing l with
  | nil => exact h
  | cons p pulses ih => exact ih (h.pulse p)

end Link

end SafePreview
