import SafePreview.Proofs.Session.Delivery
import SafePreview.Proofs.Session.Hosts
import SafePreview.Proofs.Session.Waiting

/-!
# A handshake that fails safe

A session must not wait for ever for its context to say that it is ready. Two mistakes are
possible at the deadline: to give up a context that spoke in time, and to go on with one that
never did. Which of them can happen depends on what the keeper looks at first when a message, a
command and the deadline are there at once. It looks at them in the order of `Link.nextPart?`,
which is taken for granted here of all its choices (`Link.IsBiased`), while anything may happen
between them.

The keeper then makes neither mistake (`Link.FailsSafe`). It gives up only where it finds nothing
to hear, so the deadline never overtakes a message (`Link.Expires.not_hears`), and it cannot rest
with the deadline behind it and the session still waiting (`Link.phase_of_isSettled`). Since
sessions have nothing to do with each other, this holds of each session of a host, from its own
opening on (`Host.handshakes_fail_safe`).
-/

namespace SafePreview

section Lives

variable [Channels]

namespace Link

variable {l l' : Link} {p : Pulse} {pulses : List Pulse}

/-! ## The handshake of every life -/

/-- **The context is heard to be ready** in a life. -/
def Hears (l : Link) (pulses : List Pulse) : Prop :=
  ∃ before p after, pulses = before ++ p :: after ∧
    (l.life before).1.HearsReady ((l.life before).1.pulse p).1

theorem Hears.append (h : l.Hears pulses) (more : List Pulse) : l.Hears (pulses ++ more) := by
  obtain ⟨before, p, after, rfl, hhears⟩ := h
  exact ⟨before, p, after ++ more, by rw [List.append_assoc]; rfl, hhears⟩

/-- **A handshake that fails safe**, in the life `pulses` that made `new` into `l`, with the time
over at `deadline`. -/
structure FailsSafe (new : Link) (deadline : Nat) (pulses : List Pulse) (l : Link) : Prop where
  /-- A session is ready, or said to be, only if its context was heard to be. -/
  ready : l.session.phase = .ready ∨ l.status.phase = .ready → new.Hears pulses
  /-- It is given up, or said to be, only if the context was never heard to be ready, and in a pulse
  of the keeper at the deadline or later, with no message and no command in the channels. The
  context had then sent no message at all, be it into the channel or in line for it. A command may
  wait in line, where the one before it was just obeyed. -/
  expired : l.session.closeReason = some .handshakeTimeout ∨
      l.status.closeReason = some .handshakeTimeout →
    ¬ new.Hears pulses ∧
    ∃ before p after, pulses = before ++ p :: after ∧ (p = .part .expire ∨ p = .event .turn) ∧
      (new.life before).1.session.phase = .handshaking ∧
      deadline ≤ (new.life before).1.clock ∧
      (new.life before).1.inbound.toList = [] ∧ (new.life before).1.commands.items = [] ∧
      ((new.life before).1.pulse p).1.session
        = (new.life before).1.session.close .handshakeTimeout ∧
      ∀ earlier later, before = earlier ++ later → (new.life earlier).1.inbound.toList = []
  /-- A message that says that the context is ready, once it is the first in the channel, is what
  the keeper turns to next and makes the session ready, whatever the time. -/
  wins : ∀ sender rest, l.session.phase = .handshaking →
    l.inbound.items = (sender, .ready) :: rest →
    l.nextPart? = some .hear ∧ (l.pulse (.part .hear)).1.session.phase = .ready ∧
      l.HearsReady (l.pulse (.event .turn)).1
  /-- When nothing more can happen, the waiting is over from the deadline on. -/
  settled : l.isSettled = true → deadline ≤ l.clock →
    l.session.phase = .ready ∨ l.session.phase = .closed
  /-- Between whole turns the status says how it is. -/
  shown : (∃ events : List Event, pulses = events.map .event) → l.status = l.session.status

section Opened

variable (capacity clock timeout : Nat) (pulses : List Pulse)

/-- What is known of the keeper in every life: it has begun if the session has, and it has stopped
only if the session is closed. -/
theorem of_opened :
    let l := ((opened capacity clock timeout).life pulses).1
    l.IsTruthful ∧ (l.started = false → l.session.phase = .uninitialized) ∧
      (l.started = true → l.session.phase ≠ .uninitialized) := by
  obtain ⟨_, hflow⟩ := flow_life capacity clock timeout pulses
  exact ⟨(isTruthful_opened capacity clock timeout).life pulses, fun hnot => (hflow.idle hnot).1,
    hflow.begun⟩

/-- What the status of a link says was the case in the same life, unless the link is as it was
opened. -/
theorem status_opened :
    let new := opened capacity clock timeout
    (new.life pulses).1.status = Session.new.status ∨ ∃ before after, pulses = before ++ after ∧
      (new.life pulses).1.status = (new.life before).1.session.status :=
  status_life _ pulses

/-- A session is ready only if its context was heard to be, -/
theorem hears_of_ready {pulses : List Pulse}
    (h : ((opened capacity clock timeout).life pulses).1.session.phase = .ready) :
    (opened capacity clock timeout).Hears pulses := by
  obtain ⟨_, hflow⟩ := flow_life capacity clock timeout pulses
  cases hflow.ledger with
  | uninitialized phase => cases phase.symm.trans h
  | handshaking phase => cases phase.symm.trans h
  | ready _ _ _ _ heard => exact heard
  | closed phase => cases phase.symm.trans h

/-- and so it is said to be only then. -/
theorem hears_of_status
    (h : ((opened capacity clock timeout).life pulses).1.status.phase = .ready) :
    (opened capacity clock timeout).Hears pulses := by
  rcases status_opened capacity clock timeout pulses with hstatus | ⟨before, after, rfl, hstatus⟩
  · rw [hstatus] at h
    cases h
  · rw [hstatus] at h
    exact (hears_of_ready capacity clock timeout h).append after

/-- A session is given up, or said to be, only in a pulse in which the keeper gives up. -/
theorem exists_expires
    (h : ((opened capacity clock timeout).life pulses).1.session.closeReason
          = some .handshakeTimeout ∨
        ((opened capacity clock timeout).life pulses).1.status.closeReason
          = some .handshakeTimeout) :
    ∃ before p after, pulses = before ++ p :: after ∧
      ((opened capacity clock timeout).life before).1.Expires p := by
  rcases h with h | h
  · exact (expired_life _ pulses h).resolve_left (Option.some_ne_none _).symm
  · rcases status_opened capacity clock timeout pulses with hstatus | ⟨before, after, rfl, hstatus⟩
    · rw [hstatus] at h
      cases h
    · rw [hstatus] at h
      obtain ⟨earlier, p, later, rfl, hexpires⟩ :=
        (expired_life _ before h).resolve_left (Option.some_ne_none _).symm
      exact ⟨earlier, p, later ++ after, by rw [List.append_assoc]; rfl, hexpires⟩

end Opened

/-- While a session waits with nothing in its channel, its context has sent nothing. -/
theorem toList_eq_nil_of_append {new : Link} (hroom : 0 < new.capacity)
    (hline : new.inbound.waiting = []) {before later : List Pulse}
    (hwaiting : (new.life (before ++ later)).1.session.IsWaiting)
    (hitems : (new.life (before ++ later)).1.inbound.items = []) :
    (new.life before).1.inbound.toList = [] := by
  rw [life_append] at hwaiting hitems
  obtain ⟨hbefore, hlater⟩ := waiting_life _ later hwaiting
  have hnone : (new.life before).1.inbound.items = [] :=
    List.prefix_nil.1 (hitems ▸ hlater.items)
  have hnobody := (waiting_life new before hbefore).2.line hroom (fun _ => hline) hnone
  rw [Channel.toList, hnone, hnobody]
  rfl

/-- To hear something is to find it in the channel. -/
theorem HearsReady.toList_ne_nil (h : l.HearsReady l') : l.inbound.toList ≠ [] := by
  obtain ⟨_, sender, hreceive⟩ := h
  rw [Channel.toList_receive? hreceive]
  exact List.cons_ne_nil _ _

/-- **Where a session is given up, its context was never heard**: not before, as there was nothing
to hear, and not after, as the session is closed. -/
theorem Expires.not_hears {new : Link} {before after : List Pulse}
    (h : (new.life before).1.Expires p)
    (hsilent : ∀ earlier later, before = earlier ++ later →
      (new.life earlier).1.inbound.toList = []) : ¬ new.Hears (before ++ p :: after) := by
  rintro ⟨earlier, q, later, hpulses, hhears⟩
  rcases List.append_eq_append_iff.1 hpulses with
    ⟨between, hearlier, hbetween⟩ | ⟨between, hbefore, _⟩
  · cases between with
    | nil =>
      rw [List.append_nil] at hearlier
      exact hhears.toList_ne_nil (hsilent earlier [] (by rw [hearlier, List.append_nil]))
    | cons p' between =>
      cases hbetween
      -- the pulse in which it is heard is behind the close
      have hclosed : ((new.life before).1.pulse p).1.session.phase = .closed := by
        rw [h.closes, Session.phase_close]
      have hphase := hhears.1
      rw [hearlier, life_append] at hphase
      have hsame : ((new.life before).1.life (p :: between)).1.session
          = ((new.life before).1.pulse p).1.session := session_life_of_closed hclosed between
      rw [hsame, hclosed] at hphase
      cases hphase
  · exact hhears.toList_ne_nil (hsilent earlier between hbefore)

/-- A keeper that finds nothing to do is not at the deadline of a handshake. -/
theorem not_due_of_nextPart? (h : l.nextPart? = none) :
    ¬ (l.session.phase = .handshaking ∧ l.deadline ≤ l.clock) := by
  unfold nextPart? at h
  split at h
  · cases h
  split at h
  · cases h
  split at h
  · cases h
  split at h
  · cases h
  split at h
  · cases h
  · assumption

/-- **Nothing is left to wait for** when a link is settled at the deadline or later. -/
theorem phase_of_isSettled (htruth : l.IsTruthful)
    (hbegun : l.started = true → l.session.phase ≠ .uninitialized) (hsettled : l.isSettled = true)
    (hdue : l.deadline ≤ l.clock) : l.session.phase = .ready ∨ l.session.phase = .closed := by
  rw [isSettled, Bool.and_eq_true, Bool.and_eq_true, Option.isNone_iff_eq_none] at hsettled
  have hturn := hsettled.1.1
  by_cases hopen : l.session.phase = .closed
  · exact .inr hopen
  have hstopped : l.stopped = false := Bool.eq_false_iff.2 fun hstop => hopen (htruth.stopped hstop)
  cases hstarted : l.started with
  | false =>
    rw [turn?, hstopped, hstarted] at hturn
    cases hturn
  | true =>
    rw [turn?_of_open hstopped hstarted hopen, Option.map_eq_none_iff] at hturn
    have hnot := not_due_of_nextPart? hturn
    cases hphase : l.session.phase with
    | uninitialized => exact absurd hphase (hbegun hstarted)
    | handshaking => exact absurd ⟨hphase, hdue⟩ hnot
    | ready => exact .inl rfl
    | closed => exact absurd hphase hopen

/-- **A context that speaks first wins**: the keeper turns to it before it looks at the time. -/
theorem hears_first (htruth : l.IsTruthful)
    (hidle : l.started = false → l.session.phase = .uninitialized) {sender : Nat}
    {rest : List (Nat × ContextMessage)} (hphase : l.session.phase = .handshaking)
    (hitems : l.inbound.items = (sender, .ready) :: rest) :
    l.nextPart? = some .hear ∧ (l.pulse (.part .hear)).1.session.phase = .ready ∧
      l.HearsReady (l.pulse (.event .turn)).1 := by
  have hopen : l.session.phase ≠ .closed := by rw [hphase]; decide
  have hstarted : l.started = true := by
    cases hstarted : l.started with
    | true => rfl
    | false => cases (hidle hstarted).symm.trans hphase
  have hstopped : l.stopped = false := Bool.eq_false_iff.2 fun hstop => hopen (htruth.stopped hstop)
  have hnext : l.nextPart? = some .hear :=
    nextPart?_of_items (by rw [hitems]; exact List.cons_ne_nil _ _)
  obtain ⟨inbound, hreceive⟩ := Channel.exists_receive? hitems
  refine ⟨hnext, ?_, hphase, sender, ?_⟩
  · rw [pulse, if_pos ⟨hstarted, hopen⟩, part, hreceive]
    show (l.session.receive .ready).2.phase = .ready
    rw [Session.receive_ready_of_handshaking hphase]
  · have hturn : (l.pulse (.event .turn)).1 = (l.part .hear).1.settleTurn := by
      rw [pulse, step, turn?_of_open hstopped hstarted hopen, hnext]
      rfl
    rw [hturn, (rests_settleTurn _).inbound, part, hreceive]
    rfl

/-- **The handshake of every life fails safe**, if the keeper chooses in order. -/
theorem failsSafe_life (capacity clock timeout : Nat) (pulses : List Pulse)
    (hbiased : (opened capacity clock timeout).IsBiased pulses) :
    (opened capacity clock timeout).FailsSafe (clock + timeout) pulses
      ((opened capacity clock timeout).life pulses).1 := by
  have hdeadline (pulses : List Pulse) :
      ((opened capacity clock timeout).life pulses).1.deadline = clock + timeout :=
    deadline_life _ pulses
  obtain ⟨htruth, hidle, hbegun⟩ := of_opened capacity clock timeout pulses
  constructor
  case ready =>
    exact fun hready => hready.elim (hears_of_ready capacity clock timeout)
      (hears_of_status capacity clock timeout pulses)
  case expired =>
    intro hreason
    obtain ⟨before, p, after, rfl, hexpires⟩ := exists_expires capacity clock timeout pulses hreason
    obtain ⟨hitems, hcommands⟩ := hexpires.items_eq_nil hbiased.picks
    have hsilent (earlier later : List Pulse) (hbefore : before = earlier ++ later) :
        ((opened capacity clock timeout).life earlier).1.inbound.toList = [] := by
      subst hbefore
      exact toList_eq_nil_of_append (Nat.le_max_right _ _) Channel.waiting_empty
        (.inr hexpires.phase) hitems
    refine ⟨hexpires.not_hears hsilent, before, p, after, rfl, hexpires.choice.imp_right And.left,
      hexpires.phase, ?_, hsilent before [] (List.append_nil _).symm, hcommands, hexpires.closes,
      hsilent⟩
    rw [← hdeadline before]
    exact hexpires.due
  case wins => exact fun _ _ hphase hitems => hears_first htruth hidle hphase hitems
  case settled =>
    intro hsettled hdue
    exact phase_of_isSettled htruth hbegun hsettled (by rwa [hdeadline])
  case shown =>
    rintro ⟨events, rfl⟩
    rw [life_events]
    exact status_run rfl events

end Link

namespace Host

/-- **The handshake of every session of a host fails safe**, however many sessions there are and
whatever happens to them, if keepers choose in order. A session that is there was opened at some
time, and the deadline of its handshake is that time and the time that the limits allow. -/
theorem handshakes_fail_safe (limits : Limits) (moves : List Move)
    (hbiased : (new limits).IsBiased moves) {i : Nat} {o : Opened}
    (ho : ((new limits).life moves).session? i = some o) :
    ∃ first rest, moves = first ++ .openSession o.id :: rest ∧
      ((new limits).life first).sessions.length = i ∧
      o.link.clock = ((new limits).life moves).clock ∧
      let time := ((new limits).life first).clock
      let opened := Link.opened limits.mailboxCapacity time limits.handshakeTimeout
      o.link = (opened.life (pulsesOf i rest)).1 ∧
      opened.FailsSafe (time + limits.handshakeTimeout) (pulsesOf i rest) o.link := by
  obtain ⟨first, rest, hmoves, hlength, hlink, hchoices⟩ := exists_opening moves rfl ho
  refine ⟨first, rest, hmoves, hlength, (keepsTime_new limits).life moves i o ho, hlink, ?_⟩
  rw [hlink]
  exact Link.failsSafe_life _ _ _ _ (hchoices hbiased)

end Host

end Lives

/-! ### Two handshakes

The first session has a message in its channel when the deadline is there, and the second has
none. -/

namespace Host

/-- Two sessions are opened, the second in parts, and the time of each of them passes. -/
def twoHandshakes : List Move :=
  [.openSession (.ofNat 1), .pulse 0 (.event .turn), .elapse 900,
    .openSession (.ofNat 2), .pulse 1 .create, .pulse 1 (.part .collect), .pulse 1 .publish,
    .pulse 0 (.event (.send 7 .ready)), .elapse 100, .pulse 0 (.event .turn),
    .elapse 900, .pulse 1 (.part .expire), .pulse 1 .publish, .pulse 1 (.event .turn)]

/-- The keepers choose in order. -/
theorem isBiased_twoHandshakes : (new ⟨1000, 1, false⟩).IsBiased twoHandshakes := by
  refine ⟨trivial, fun _ _ => trivial, trivial, trivial, fun _ _ => trivial, fun _ _ => ?_,
    fun _ _ => trivial, fun _ _ => trivial, trivial, fun _ _ => trivial, trivial, fun o ho => ?_,
    fun _ _ => trivial, fun _ _ => trivial, trivial⟩
  · exact fun hchoice => by cases hchoice
  · cases ho
    exact fun _ => rfl

/-- The first session is ready, as its context was heard, and the second is given up, as its
context was not. -/
theorem life_twoHandshakes :
    let host := new ⟨1000, 1, false⟩
    let h := host.life twoHandshakes
    ∃ first second, h.session? 0 = some first ∧ h.session? 1 = some second ∧
      first.link.status.phase = .ready ∧
      second.link.status.closeReason = some .handshakeTimeout ∧
      h.sessions.all (·.link.isSettled) = true ∧ h.clock = 1900 ∧
      (∃ before after, twoHandshakes = before ++ .openSession (.ofNat 1) :: after ∧
        (Link.opened 1 (host.life before).clock 1000).Hears (pulsesOf 0 after)) ∧
      (∃ before after, twoHandshakes = before ++ .openSession (.ofNat 2) :: after ∧
        ¬ (Link.opened 1 (host.life before).clock 1000).Hears (pulsesOf 1 after)) := by
  intro host h
  have hfirst : (h.session? 0).map (fun o => (o.id, o.link.status))
      = some (.ofNat 1, ⟨.ready, none, none⟩) := by decide +kernel
  have hsecond : (h.session? 1).map (fun o => (o.id, o.link.status))
      = some (.ofNat 2, ⟨.closed, some .handshakeTimeout, none⟩) := by decide +kernel
  have hsettled : h.sessions.all (·.link.isSettled) = true := by decide +kernel
  have htime : h.clock = 1900 := by decide +kernel
  obtain ⟨first, hfirst, hready⟩ := Option.map_eq_some_iff.1 hfirst
  obtain ⟨second, hsecond, hexpired⟩ := Option.map_eq_some_iff.1 hsecond
  rw [Prod.mk.injEq] at hready hexpired
  obtain ⟨before, after, hmoves, -, -, -, hsafe⟩ :=
    handshakes_fail_safe ⟨1000, 1, false⟩ twoHandshakes isBiased_twoHandshakes hfirst
  obtain ⟨before', after', hmoves', -, -, -, hsafe'⟩ :=
    handshakes_fail_safe ⟨1000, 1, false⟩ twoHandshakes isBiased_twoHandshakes hsecond
  rw [hready.1] at hmoves
  rw [hexpired.1] at hmoves'
  have hphase : first.link.status.phase = .ready := by rw [hready.2]
  have hreason : second.link.status.closeReason = some .handshakeTimeout := by rw [hexpired.2]
  exact ⟨first, second, hfirst, hsecond, hphase, hreason, hsettled, htime,
    ⟨before, after, hmoves, hsafe.ready (.inr hphase)⟩,
    ⟨before', after', hmoves', (hsafe'.expired (.inr hreason)).1⟩⟩

end Host

end SafePreview
