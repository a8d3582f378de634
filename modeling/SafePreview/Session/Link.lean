import SafePreview.Session.Basic
import SafePreview.Session.Channel

/-!
# A session at work

A `Link` is a session together with all that lies between its host and its context: the channel of
commands, the two channels of messages, what was taken from the session and found no room yet, and
the status that the host sees. One keeper alone touches the session. Everything else can happen in
any order, so a life of a link is a list of events: callers look and post, senders send and get in,
either of them goes away while it waits, the context reads or goes away, the host lets go of the
session, time passes, and the keeper takes a turn.

A turn does the first thing that can be done of these: hear the context, close because it is gone,
obey a command, close because nobody is left to give one, close because the time for the handshake
is over, hand over a message for which there is room. Whatever it did, the outbox is then moved
behind the messages that still wait, as many of these as there is room for are handed over, and the
status is published. The keeper never waits for the context to read, so a command is obeyed however
full the channel is.

`Link.settle` is one order of events among the possible ones: the keeper takes turns as long as it
can, then all who wait and have room get in, and so on until nothing can happen any more.
-/

namespace SafePreview

open Markup (SafeMarkup)

/-- **What the host sees of a session.** -/
structure Status where
  phase : Phase
  closeReason : Option CloseReason
  acknowledged : Option Nat
deriving DecidableEq, Repr

/-- The status of a session. -/
def Session.status (s : Session) : Status := ⟨s.phase, s.closeReason, s.acknowledged⟩

/-- **What the host asks of a session**, and who waits for the answer. -/
inductive Command where
  | update (caller : Nat) (markup : SafeMarkup)
  | close (caller : Nat)
deriving DecidableEq

/-- Who gave a command. -/
def Command.caller : Command → Nat
  | .update caller _ | .close caller => caller

/-- **What a caller is answered.** -/
inductive Answer where
  | done
  | receipt (receipt : Receipt)
  | refused
deriving DecidableEq, Repr

/-- **What can be seen of an event.** -/
inductive Effect where
  /-- A caller has its answer. A caller that went away is answered too, but nobody hears it. -/
  | answered (caller : Nat) (answer : Answer)
  /-- The session took a content. -/
  | accepted (receipt : Receipt) (markup : SafeMarkup)
  /-- The context read a message. -/
  | read (message : HostMessage)
deriving DecidableEq

variable [Channels]

/-- **A session with its channels.** -/
structure Link where
  session : Session
  /-- How many items each channel holds. -/
  capacity : Nat
  /-- The time, in milliseconds. -/
  clock : Nat
  /-- The time at which the handshake has to be answered. -/
  deadline : Nat
  started : Bool
  stopped : Bool
  /-- Callers that found the session open and have not posted their content yet. -/
  calls : List (Nat × SafeMarkup)
  commands : Channel Command
  /-- Messages of the context, each with its sender. -/
  inbound : Channel (Nat × ContextMessage)
  /-- Messages handed over and not read yet. -/
  outbound : List HostMessage
  /-- Messages taken from the session for which there was no room. -/
  unsent : List HostMessage
  /-- Whether the context can still read. -/
  listening : Bool
  /-- Whether the context can still send. -/
  speaking : Bool
  /-- Whether the host still holds the session. Callers hold it as long as they wait. -/
  held : Bool
  status : Status

namespace Link

/-- A link at its opening. -/
def opened (capacity clock timeout : Nat) : Link where
  session := .new
  capacity := max capacity 1
  clock := clock
  deadline := clock + timeout
  started := false
  stopped := false
  calls := []
  commands := .empty
  inbound := .empty
  outbound := []
  unsent := []
  listening := true
  speaking := true
  held := true
  status := Session.new.status

/-! ## The keeper's turn -/

/-- The session with something done to it. -/
def withSession (l : Link) (s : Session) : Link := { l with session := s }

/-- Hands over waiting messages as long as there is room. If nobody can read any more, the session
is closed and they are dropped. -/
def drain (l : Link) : Link :=
  match l.unsent with
  | [] => l
  | _ :: _ =>
    if !l.listening then
      { l with session := l.session.close .contextGone, unsent := [] }
    else
      let room := l.capacity - l.outbound.length
      { l with outbound := l.outbound ++ l.unsent.take room, unsent := l.unsent.drop room }

/-- Moves the outbox behind the messages that wait, and hands over what there is room for. -/
def stage (l : Link) : Link :=
  if l.session.isClosed then l
  else
    drain { l with
      session := l.session.takeOutbox.2
      unsent := l.unsent ++ l.session.takeOutbox.1 }

/-- Publishes the status. -/
def publish (l : Link) : Link := { l with status := l.session.status }

/-- The end of a turn. -/
def settleTurn (l : Link) : Link := l.stage.publish

/-- The keeper's first turn: the context exists. -/
def start (l : Link) : Link :=
  let created := l.session.contextCreated
  let l := { l with started := true, session := created.2 }
  match created.1 with
  | .ok () => l.stage.publish
  | .error _ => l.publish

/-- What those are answered whose commands are left when the keeper stops. -/
def farewell (queued waiting : List Command) (senders : List (Nat × ContextMessage)) :
    List Effect :=
  queued.filterMap (fun
    | .update caller _ => some (.answered caller .refused)
    | .close _ => none)
  ++ waiting.map (fun
    | .update caller _ => .answered caller .refused
    | .close caller => .answered caller .done)
  ++ senders.map fun sender => .answered sender.1 .refused

/-- The keeper stops: its channels are closed. What was handed over can still be read. -/
def stop (l : Link) : Link × List Effect :=
  ({ l with stopped := true, commands := .empty, inbound := .empty },
    farewell l.commands.items l.commands.waiting l.inbound.waiting)

/-- The keeper obeys a command. -/
def obey (l : Link) : Command → Link × List Effect
  | .close _ => ((l.withSession (l.session.close .hostClosed)).settleTurn, [])
  | .update caller markup =>
    let asked := l.session.requestUpdate markup
    let effects := match asked.1 with
      | .ok receipt => [.accepted receipt markup, .answered caller (.receipt receipt)]
      | .error _ => [.answered caller .refused]
    ((l.withSession asked.2).settleTurn, effects)

/-- Whether the first message that waits can be handed over, or can never be. -/
def canDeliver (l : Link) : Bool :=
  !l.unsent.isEmpty && (!l.listening || l.outbound.length < l.capacity)

/-- The keeper hands over the first message that waits, and all others that there is room for. -/
def deliver (l : Link) : Link :=
  if l.listening then l.drain.settleTurn
  else (l.withSession (l.session.close .contextGone)).settleTurn

/-- Whether no command can come any more: all that were given were taken, and nobody is left who
could give another. -/
def isForsaken (l : Link) : Bool :=
  !l.held && l.calls.isEmpty && l.commands.toList.isEmpty

/-- **The keeper's turn**, or nothing if there is nothing to do. -/
def turn? (l : Link) : Option (Link × List Effect) :=
  if l.stopped then none
  else if !l.started then some (l.start, [])
  else if l.session.isClosed then some l.stop
  else
    match l.inbound.receive? with
    | some ((_, message), inbound) =>
      some (({ l with inbound }.withSession (l.session.receive message).2).settleTurn, [])
    | none =>
      if !l.speaking && l.inbound.waiting.isEmpty then
        some ((l.withSession (l.session.close .contextGone)).settleTurn, [])
      else
        match l.commands.receive? with
        | some (command, commands) => some ({ l with commands }.obey command)
        | none =>
          if l.isForsaken then
            some ((l.withSession (l.session.close .hostClosed)).settleTurn, [])
          else if l.session.phase = .handshaking ∧ l.deadline ≤ l.clock then
            some ((l.withSession l.session.handshakeTimedOut.2).settleTurn, [])
          else if l.canDeliver then some (l.deliver, [])
          else none

/-! ## Events -/

/-- **What can happen to a link.** -/
inductive Event where
  /-- A caller with a content looks whether the session is open. -/
  | call (caller : Nat) (markup : SafeMarkup)
  /-- A caller that found it open posts its content. -/
  | post (caller : Nat)
  /-- A caller asks for the session to be closed. -/
  | close (caller : Nat)
  /-- The context sends a message. -/
  | send (sender : Nat) (message : ContextMessage)
  /-- The first in line for commands gets in. -/
  | admitCommand
  /-- The first in line for messages gets in. -/
  | admitMessage
  /-- The context reads. -/
  | read
  /-- The context can read no more. -/
  | deafen
  /-- The context can send no more. -/
  | silence
  /-- A caller or sender goes away, whatever it waits for. -/
  | vanish (caller : Nat)
  /-- The host lets go of the session. -/
  | forsake
  | elapse (milliseconds : Nat)
  /-- The keeper takes a turn. -/
  | turn

/-- A caller looks whether the session is open. -/
def call (l : Link) (caller : Nat) (markup : SafeMarkup) : Link × List Effect :=
  if l.status.phase = .closed then (l, [.answered caller .refused])
  else ({ l with calls := l.calls ++ [(caller, markup)] }, [])

/-- A caller posts its content. -/
def post (l : Link) (caller : Nat) : Link × List Effect :=
  match l.calls.find? (·.1 = caller) with
  | none => (l, [])
  | some (_, markup) =>
    let l := { l with calls := l.calls.eraseP (·.1 = caller) }
    if l.stopped then (l, [.answered caller .refused])
    else ({ l with commands := l.commands.send l.capacity (.update caller markup) }, [])

/-- A caller asks for the session to be closed. It need not wait for that to happen. -/
def askClose (l : Link) (caller : Nat) : Link × List Effect :=
  if l.stopped then (l, [.answered caller .done])
  else
    ({ l with commands := l.commands.send l.capacity (.close caller) },
      if l.commands.hasRoom l.capacity then [.answered caller .done] else [])

/-- The context sends a message. It need not wait for it to be heard. -/
def send (l : Link) (sender : Nat) (message : ContextMessage) : Link × List Effect :=
  if l.stopped || !l.speaking then (l, [.answered sender .refused])
  else
    ({ l with inbound := l.inbound.send l.capacity (sender, message) },
      if l.inbound.hasRoom l.capacity then [.answered sender .done] else [])

/-- The first in line for commands gets in, if there is room. -/
def admitCommand? (l : Link) : Option (Link × List Effect) := do
  let (command, commands) ← l.commands.admit? l.capacity
  return ({ l with commands }, match command with
    | .update _ _ => []
    | .close caller => [.answered caller .done])

/-- The first in line for messages gets in, if there is room. -/
def admitMessage? (l : Link) : Option (Link × List Effect) := do
  let ((sender, _), inbound) ← l.inbound.admit? l.capacity
  return ({ l with inbound }, [.answered sender .done])

/-- The context reads the oldest message. -/
def read (l : Link) : Link × List Effect :=
  match l.outbound with
  | [] => (l, [])
  | message :: rest =>
    if l.listening then ({ l with outbound := rest }, [.read message]) else (l, [])

/-- **A caller goes away.** What it has not posted yet never comes, nor does what still stands in
line. What is in a channel stays there, and is obeyed or heard in its turn. -/
def vanish (l : Link) (caller : Nat) : Link :=
  { l with
    calls := l.calls.filter fun call => !decide (call.1 = caller)
    commands := l.commands.withdraw fun command => decide (command.caller = caller)
    inbound := l.inbound.withdraw fun sent => decide (sent.1 = caller) }

/-- **One event.** An event that cannot happen changes nothing. -/
def step (l : Link) : Event → Link × List Effect
  | .call caller markup => l.call caller markup
  | .post caller => l.post caller
  | .close caller => l.askClose caller
  | .send sender message => l.send sender message
  | .admitCommand => l.admitCommand?.getD (l, [])
  | .admitMessage => l.admitMessage?.getD (l, [])
  | .read => l.read
  | .deafen => ({ l with listening := false, outbound := [] }, [])
  | .silence => ({ l with speaking := false }, [])
  | .vanish caller => (l.vanish caller, [])
  | .forsake => ({ l with held := false }, [])
  | .elapse ms => ({ l with clock := l.clock + ms }, [])
  | .turn => l.turn?.getD (l, [])

/-- **A life**: events in order, and all that could be seen of them. -/
def run (l : Link) : List Event → Link × List Effect
  | [] => (l, [])
  | e :: rest =>
    let first := l.step e
    let more := first.1.run rest
    (more.1, first.2 ++ more.2)

/-- Whether the context will never read anything any more. -/
def isDrained (l : Link) : Bool := l.stopped && l.outbound.isEmpty

/-! ## Settling -/

/-- Lets in all who wait for a place that is free, up to `n` of each kind. -/
def admitAll : Nat → Link → Link × List Effect
  | 0, l => (l, [])
  | n + 1, l =>
    match l.admitMessage? with
    | some (l, effects) =>
      let more := admitAll n l
      (more.1, effects ++ more.2)
    | none =>
      match l.admitCommand? with
      | some (l, effects) =>
        let more := admitAll n l
        (more.1, effects ++ more.2)
      | none => (l, [])

/-- How many there are in line. -/
def lineLength (l : Link) : Nat := l.inbound.waiting.length + l.commands.waiting.length

/-- An upper bound on the turns that a link has before it: each message and each command takes one
and can leave one more behind, each message that waits takes one, and four more are the first, the
last, the deadline and the end of the context. -/
def workload (l : Link) : Nat :=
  2 * (l.inbound.toList.length + l.commands.toList.length) + l.lineLength
    + l.session.pending.length + l.session.outbox.length + l.unsent.length + 8

/-- Lets events happen, up to `n`, until nothing can happen at the current time. -/
def settleWithin : Nat → Link → Link × List Effect
  | 0, l => (l, [])
  | n + 1, l =>
    match l.turn? with
    | some (l, effects) =>
      let more := settleWithin n l
      (more.1, effects ++ more.2)
    | none =>
      if l.admitMessage?.isNone && l.admitCommand?.isNone then (l, [])
      else
        let admitted := admitAll l.lineLength l
        let more := settleWithin n admitted.1
        (more.1, admitted.2 ++ more.2)

/-- **Lets happen all that can happen at the current time.** -/
def settle (l : Link) : Link × List Effect := settleWithin l.workload l

/-- Whether nothing can happen at the current time. -/
def isSettled (l : Link) : Bool :=
  l.turn?.isNone && l.admitMessage?.isNone && l.admitCommand?.isNone

end Link

end SafePreview
