import SafePreview.Proofs.Session.Ledger
import SafePreview.Session.Link

/-!
# A turn in parts

A turn of the keeper is one event of a link, but those around it do not wait for its end: between
two messages that the keeper hands over the context may read one, send one or go away. This module
takes a turn apart. A `Part` is one thing that the keeper does, a `Pulse` is an event or something
that the keeper does, and a life in pulses (`Link.life`) lets anything happen between any two of
them. Nothing is said about which part follows which, so there are lives in every order in which a
keeper could do its work, and a life in whole turns is one of them (`Link.life_events`).

What a turn comes to is said once, in terms of its parts (`Link.turn?_cases`): the keeper begins, or
stops, or does one part and settles its turn. Which part that is depends on what there is to do and
not on what came before (`Link.nextPart?`). What holds of the parts therefore holds of turns.
-/

namespace SafePreview

open Markup (SafeMarkup)

variable [Channels]

namespace Link

/-- **What the keeper does in a turn**, one thing at a time, while the session is open. -/
inductive Part where
  /-- It hears the context. -/
  | hear
  /-- It obeys a command. -/
  | obey
  /-- It closes the session, as the context can send no more and all that it sent was heard. -/
  | miss
  /-- It closes the session, as nobody is left who could give a command. -/
  | forgo
  /-- It closes the session, as the time for the handshake is over. -/
  | expire
  /-- It moves the outbox behind the messages that wait. -/
  | collect
  /-- It hands over messages that wait, up to `n` and as many as there is room for. What is handed
  over to a context that has just gone away is lost. -/
  | handOver (n : Nat)
  /-- It closes the session, as messages wait and nobody can read them. -/
  | giveUp

/-- **What can happen to a link**, with a turn in one piece or in parts. -/
inductive Pulse where
  | event (e : Event)
  /-- The keeper begins: the context exists. -/
  | create
  | part (p : Part)
  /-- The keeper drops the messages that wait, as the session is closed. -/
  | discard
  | publish
  /-- The keeper stops, as the session is closed. -/
  | stop

/-- What the session makes of a command, and who is answered. -/
def ask (l : Link) : Command → Link × List Effect
  | .close _ => (l.withSession (l.session.close .hostClosed), [])
  | .update caller markup =>
    let asked := l.session.requestUpdate markup
    (l.withSession asked.2, match asked.1 with
      | .ok receipt => [.accepted receipt markup, .answered caller (.receipt receipt)]
      | .error _ => [.answered caller .refused])

/-- The context exists. -/
def create (l : Link) : Link :=
  { l with started := true, session := l.session.contextCreated.2 }

/-- Moves the outbox behind the messages that wait. -/
def collect (l : Link) : Link :=
  { l with session := l.session.takeOutbox.2, unsent := l.unsent ++ l.session.takeOutbox.1 }

/-- Hands over messages that wait, up to `n` and as many as there is room for. -/
def handOver (n : Nat) (l : Link) : Link :=
  { l with
    outbound :=
      if l.listening then l.outbound ++ l.unsent.take (min n (l.capacity - l.outbound.length))
      else l.outbound
    unsent := l.unsent.drop (min n (l.capacity - l.outbound.length)) }

/-- **One part of a turn.** A part for which there is no reason changes nothing. -/
def part (l : Link) : Part → Link × List Effect
  | .hear =>
    match l.inbound.receive? with
    | some ((_, message), inbound) =>
      ({ l with inbound }.withSession (l.session.receive message).2, [])
    | none => (l, [])
  | .obey =>
    match l.commands.receive? with
    | some (command, commands) => { l with commands }.ask command
    | none => (l, [])
  | .miss =>
    if l.speaking = false ∧ l.inbound.toList = [] then
      (l.withSession (l.session.close .contextGone), [])
    else (l, [])
  | .forgo => if l.isForsaken then (l.withSession (l.session.close .hostClosed), []) else (l, [])
  | .expire =>
    if l.deadline ≤ l.clock then (l.withSession l.session.handshakeTimedOut.2, []) else (l, [])
  | .collect => (l.collect, [])
  | .handOver n => (l.handOver n, [])
  | .giveUp =>
    if l.listening = false ∧ l.unsent ≠ [] then
      (l.withSession (l.session.close .contextGone), [])
    else (l, [])

/-- **One pulse.** The keeper does no part of a turn before it began or after the close. -/
def pulse (l : Link) : Pulse → Link × List Effect
  | .event e => l.step e
  | .create => if l.started then (l, []) else (l.create, [])
  | .part p => if l.started ∧ l.session.phase ≠ .closed then l.part p else (l, [])
  | .discard => if l.session.phase = .closed then ({ l with unsent := [] }, []) else (l, [])
  | .publish => (l.publish, [])
  | .stop => if l.session.phase = .closed then l.stop else (l, [])

/-- **A life in pulses**, and all that could be seen of it. -/
def life (l : Link) : List Pulse → Link × List Effect
  | [] => (l, [])
  | p :: rest =>
    let first := l.pulse p
    let more := first.1.life rest
    (more.1, first.2 ++ more.2)

/-- A life in whole turns. -/
theorem life_events (l : Link) (events : List Event) :
    l.life (events.map .event) = l.run events := by
  induction events generalizing l with
  | nil => rfl
  | cons e events ih =>
    rw [List.map_cons, life, run, ih]
    rfl

/-- A life goes on where the first pulses of it end. -/
theorem life_append (l : Link) (first more : List Pulse) :
    (l.life (first ++ more)).1 = ((l.life first).1.life more).1 := by
  induction first generalizing l with
  | nil => rfl
  | cons p first ih => exact ih (l.pulse p).1

/-! ## A turn in terms of its parts -/

/-- To drain is to hand over all that there is room for. -/
theorem drain_of_listening {l : Link} (h : l.listening = true) :
    l.drain = l.handOver (l.capacity - l.outbound.length) := by
  rw [handOver, if_pos h, Nat.min_self]
  unfold drain
  split
  · rename_i hnil
    rw [hnil, List.take_nil, List.drop_nil, List.append_nil, ← hnil]
  · rw [if_neg (by rw [h]; decide)]

/-- Where nobody reads, it is to close the session and to drop what waits. -/
theorem drain_of_deaf {l : Link} (h : l.listening = false) (hunsent : l.unsent ≠ []) :
    l.drain = { l with session := l.session.close .contextGone, unsent := [] } := by
  unfold drain
  split
  · contradiction
  · rw [h]
    rfl

/-- With nothing that waits, it is to do nothing. -/
theorem drain_of_nil {l : Link} (h : l.unsent = []) : l.drain = l := by
  rw [drain, h]

/-- At the end of a turn the outbox is collected and as much as possible handed over. -/
theorem settleTurn_of_open {l : Link} (h : l.session.phase ≠ .closed) :
    l.settleTurn = l.collect.drain.publish := by
  rw [settleTurn, stage, if_neg (by rwa [Session.isClosed_iff])]
  rfl

/-- At the end of a turn that closed the session nothing more is done for the context. -/
theorem settleTurn_of_closed {l : Link} (h : l.session.phase = .closed) :
    l.settleTurn = l.publish := by
  rw [settleTurn, stage, if_pos ((Session.isClosed_iff _).2 h)]

/-- The first turn: the context exists, and the turn is settled unless the session refuses. -/
theorem start_eq (l : Link) :
    l.start = match l.session.contextCreated.1 with
      | .ok () => l.create.settleTurn
      | .error _ => l.create.publish := rfl

/-- To obey is to ask the session and to settle the turn. -/
theorem obey_eq (l : Link) (command : Command) :
    l.obey command = ((l.ask command).1.settleTurn, (l.ask command).2) := by
  cases command with
  | close caller => rfl
  | update caller markup => rfl

/-- **The part that a turn begins with**, the first for which there is a reason: the context comes
before the commands, these before the time, and the messages that wait come last. -/
def nextPart? (l : Link) : Option Part :=
  if l.inbound.items ≠ [] then some .hear
  else if l.speaking = false ∧ l.inbound.waiting = [] then some .miss
  else if l.commands.items ≠ [] then some .obey
  else if l.isForsaken then some .forgo
  else if l.session.phase = .handshaking ∧ l.deadline ≤ l.clock then some .expire
  else if l.canDeliver then
    some (if l.listening then .handOver (l.capacity - l.outbound.length) else .giveUp)
  else none

/-- To deliver is to hand over what there is room for, or to give up, and to settle the turn. -/
theorem deliver_eq {l : Link} (h : l.canDeliver = true) :
    (l.deliver, []) = (fun p : Part => ((l.part p).1.settleTurn, (l.part p).2))
      (if l.listening then .handOver (l.capacity - l.outbound.length) else .giveUp) := by
  rw [canDeliver, Bool.and_eq_true, Bool.not_eq_true', List.isEmpty_eq_false_iff] at h
  cases hlistening : l.listening with
  | true =>
    rw [deliver, if_pos hlistening, drain_of_listening hlistening]
    rfl
  | false =>
    dsimp only
    rw [deliver, hlistening, if_neg (by decide), if_neg (by decide), part,
      if_pos ⟨hlistening, h.1⟩]

/-- **The turn of a keeper whose session is open**: the first part for which there is a reason, and
what settles the turn. -/
theorem turn?_of_open {l : Link} (hstopped : l.stopped = false) (hstarted : l.started = true)
    (hopen : l.session.phase ≠ .closed) :
    l.turn? = l.nextPart?.map fun p => ((l.part p).1.settleTurn, (l.part p).2) := by
  rw [turn?, if_neg (by rw [hstopped]; decide), if_neg (by rw [hstarted]; decide),
    if_neg (by rwa [Session.isClosed_iff])]
  split
  · rename_i hheard
    have hitems : l.inbound.items ≠ [] := by
      rw [Ne, ← Channel.receive?_eq_none_iff, hheard]
      exact Option.some_ne_none _
    rw [nextPart?, if_pos hitems, Option.map_some, part, hheard]
  rename_i hheard
  have hitems := Channel.receive?_eq_none_iff.1 hheard
  have hsilent : ¬ l.inbound.items ≠ [] := fun hne => hne hitems
  rw [nextPart?, if_neg hsilent]
  by_cases hmiss : l.speaking = false ∧ l.inbound.waiting = []
  · have hnothing : l.inbound.toList = [] := by
      rw [Channel.toList, hitems, hmiss.2]
      rfl
    rw [if_pos (by rw [hmiss.1, hmiss.2]; rfl), if_pos hmiss, Option.map_some, part,
      if_pos ⟨hmiss.1, hnothing⟩]
  rw [if_neg (by rwa [Bool.and_eq_true, Bool.not_eq_true', List.isEmpty_iff]), if_neg hmiss]
  split
  · rename_i hcommand
    have hqueued : l.commands.items ≠ [] := by
      rw [Ne, ← Channel.receive?_eq_none_iff, hcommand]
      exact Option.some_ne_none _
    rw [if_pos hqueued, Option.map_some, part, hcommand, obey_eq]
  rename_i hcommand
  have hunasked : ¬ l.commands.items ≠ [] :=
    fun hne => hne (Channel.receive?_eq_none_iff.1 hcommand)
  rw [if_neg hunasked]
  by_cases hforsaken : l.isForsaken = true
  · rw [if_pos hforsaken, if_pos hforsaken, Option.map_some, part, if_pos hforsaken]
  rw [if_neg hforsaken, if_neg hforsaken]
  by_cases hexpired : l.session.phase = .handshaking ∧ l.deadline ≤ l.clock
  · rw [if_pos hexpired, if_pos hexpired, Option.map_some, part, if_pos hexpired.2]
  rw [if_neg hexpired, if_neg hexpired]
  by_cases hdeliver : l.canDeliver = true
  · rw [if_pos hdeliver, if_pos hdeliver, Option.map_some, deliver_eq hdeliver]
  · rw [if_neg hdeliver, if_neg hdeliver]
    rfl

/-- **What a turn comes to**: the keeper begins, or stops, or does one part and settles its turn. -/
theorem turn?_cases {l l' : Link} {effects : List Effect} (h : l.turn? = some (l', effects)) :
    (l.started = false ∧ l' = l.start ∧ effects = []) ∨
    (l.session.phase = .closed ∧ l' = l.stop.1 ∧ effects = l.stop.2) ∨
    (l.started = true ∧ l.session.phase ≠ .closed ∧
      ∃ p, l.nextPart? = some p ∧ l' = (l.part p).1.settleTurn ∧ effects = (l.part p).2) := by
  cases hstopped : l.stopped with
  | true =>
    rw [turn?, if_pos hstopped] at h
    cases h
  | false =>
    cases hstarted : l.started with
    | false =>
      rw [turn?, hstopped, hstarted] at h
      cases h
      exact .inl ⟨rfl, rfl, rfl⟩
    | true =>
      by_cases hopen : l.session.phase = .closed
      · rw [turn?, hstopped, hstarted, (Session.isClosed_iff _).2 hopen] at h
        cases h
        exact .inr (.inl ⟨hopen, rfl, rfl⟩)
      · rw [turn?_of_open hstopped hstarted hopen] at h
        obtain ⟨p, hp, hdone⟩ := Option.map_eq_some_iff.1 h
        cases hdone
        exact .inr (.inr ⟨rfl, hopen, p, hp, rfl, rfl⟩)

/-! ## A keeper that looks at things in order -/

/-- The parts of a turn among which a keeper has to choose. What it does with its messages belongs
to the end of every turn. -/
def Part.isChoice : Part → Bool
  | .hear | .obey | .miss | .forgo | .expire => true
  | .collect | .handOver _ | .giveUp => false

/-- **A choice that is made in order**: the part is the first for which there is a reason. -/
def Picks (l : Link) : Pulse → Prop
  | .part p => p.isChoice = true → l.nextPart? = some p
  | _ => True

/-- **A life of a biased keeper**: every choice is made in order. -/
def IsBiased (l : Link) : List Pulse → Prop
  | [] => True
  | p :: rest => l.Picks p ∧ (l.pulse p).1.IsBiased rest

/-- In whole turns the keeper always chooses in order. -/
theorem isBiased_events (l : Link) (events : List Event) : l.IsBiased (events.map .event) := by
  induction events generalizing l with
  | nil => trivial
  | cons e events ih => exact ⟨trivial, ih _⟩

theorem IsBiased.append {l : Link} {pulses more : List Pulse} (h : l.IsBiased pulses)
    (hmore : (l.life pulses).1.IsBiased more) : l.IsBiased (pulses ++ more) := by
  induction pulses generalizing l with
  | nil => exact hmore
  | cons p pulses ih => exact ⟨h.1, ih h.2 hmore⟩

theorem IsBiased.picks {l : Link} {before after : List Pulse} {p : Pulse}
    (h : l.IsBiased (before ++ p :: after)) : (l.life before).1.Picks p := by
  induction before generalizing l with
  | nil => exact h.1
  | cons q before ih => exact ih h.2

end Link

end SafePreview
