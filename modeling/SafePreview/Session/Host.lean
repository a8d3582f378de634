import SafePreview.Preview.Frame
import SafePreview.Session.Id
import SafePreview.Session.Link

/-!
# The host of all sessions

The host opens sessions and keeps a register of them. A session stays in the register when it
closes, so that a closed session can be told from an unknown one; it leaves by being closed through
the register or by `prune`, which takes out all that are closed. Whoever holds a session goes on
holding it when it leaves the register.

Sessions do not touch each other. Letting everything happen that can happen at an instant
(`Host.settle`) therefore means settling each link by itself.
-/

namespace SafePreview

open Markup (SafeMarkup)

variable [Channels]

/-- **A session that was opened**, and whether the register still has it. -/
structure Opened where
  id : SessionId
  link : Link
  registered : Bool

/-- **What is told about a session.** The time of day at which it was opened is told too, but
nothing is decided by it and it is left out here, where time is counted from the start of the
host. -/
structure SessionInfo where
  id : SessionId
  status : Status
deriving DecidableEq

/-- What is told about an opened session. -/
def Opened.info (o : Opened) : SessionInfo := ⟨o.id, o.link.status⟩

/-- **The host**: all sessions that were ever opened, in order. -/
structure Host where
  limits : Limits
  clock : Nat
  sessions : List Opened

namespace Host

/-- A host without sessions. -/
def new (limits : Limits) : Host := ⟨limits, 0, []⟩

/-- The session with a number in the order of opening. -/
def session? (h : Host) (index : Nat) : Option Opened := h.sessions[index]?

/-- The host with the link of a session replaced. -/
def setLink (h : Host) (index : Nat) (link : Link) : Host :=
  { h with sessions := h.sessions.modify index fun o => { o with link } }

/-- **One event of one session.** -/
def act (h : Host) (index : Nat) (e : Link.Event) : Host × List Effect :=
  match h.session? index with
  | none => (h, [])
  | some o =>
    let stepped := o.link.step e
    (h.setLink index stepped.1, stepped.2)

/-- Several events of one session. -/
def actAll (h : Host) (index : Nat) : List Link.Event → Host × List Effect
  | [] => (h, [])
  | e :: rest =>
    let first := h.act index e
    let more := first.1.actAll index rest
    (more.1, first.2 ++ more.2)

/-- **Opens a session** under an id. -/
def openSession (h : Host) (id : SessionId) : Host :=
  let link := Link.opened h.limits.mailboxCapacity h.clock h.limits.handshakeTimeout
  { h with sessions := h.sessions ++ [⟨id, link, true⟩] }

/-- Lets time pass. -/
def elapse (h : Host) (milliseconds : Nat) : Host :=
  { h with
    clock := h.clock + milliseconds
    sessions := h.sessions.map fun o =>
      { o with link := (o.link.step (.elapse milliseconds)).1 } }

/-- **Lets happen all that can happen at the current time.** -/
def settle (h : Host) : Host × List Effect :=
  let settled := h.sessions.map fun o =>
    let done := o.link.settle
    ({ o with link := done.1 }, done.2)
  ({ h with sessions := settled.map (·.1) }, settled.flatMap (·.2))

/-! ## The register -/

/-- The sessions in the register. -/
def register (h : Host) : List Opened := h.sessions.filter (·.registered)

/-- The number of the registered session with an id. -/
def find? (h : Host) (id : SessionId) : Option Nat :=
  h.sessions.findIdx? fun o => o.registered && o.id = id

/-- **Takes a session out of the register** and says which it was. -/
def unregister (h : Host) (id : SessionId) : Except SessionError (Nat × Host) :=
  match h.find? id with
  | none => .error (.notFound id.text)
  | some index =>
    .ok (index,
      { h with sessions := h.sessions.modify index fun o => { o with registered := false } })

/-- **What is told about the registered sessions**, in ascending order of their ids. -/
def list (h : Host) : List SessionInfo :=
  (h.register.map Opened.info).mergeSort fun a b => a.id.value ≤ b.id.value

/-- How many registered sessions are not closed. -/
def liveCount (h : Host) : Nat := h.register.countP (·.link.status.phase ≠ .closed)

/-- **Takes all closed sessions out of the register** and says by how many it has become shorter.
Nothing else happens between the two countings, as they are made in one call. -/
def prune (h : Host) : Nat × Host :=
  let kept := { h with sessions := h.sessions.map fun o =>
    { o with registered := o.registered && o.link.status.phase ≠ .closed } }
  (h.register.length - kept.register.length, kept)

/-! ## Waiting -/

/-- The next time at which a handshake runs out. -/
def nextDeadline? (h : Host) : Option Nat :=
  (h.sessions.filterMap fun o =>
    if o.link.session.phase = .handshaking then some o.link.deadline else none).min?

/-- Lets time run on from deadline to deadline, up to `limit`, until `done` holds. -/
def waitWithin (done : Host → Bool) (limit : Nat) : Nat → Host → Host
  | 0, h => h
  | n + 1, h =>
    if done h then h
    else
      match h.nextDeadline? with
      | some deadline =>
        if deadline ≤ limit then
          waitWithin done limit n (h.elapse (deadline - h.clock)).settle.1
        else h.elapse (limit - h.clock)
      | none => h.elapse (limit - h.clock)

/-- **Lets time run on** until `done` holds or so many milliseconds are over. Each deadline that is
reached ends a handshake, so there are no more of them than sessions. -/
def wait (h : Host) (done : Host → Bool) (milliseconds : Nat) : Host :=
  waitWithin done (h.clock + milliseconds) (h.sessions.length + 1) h

/-- What one who waits for a handshake is told: nothing as long as it is open. -/
def readiness? (h : Host) (status : Status) : Option (Except SessionError Unit) :=
  match status.phase, status.closeReason with
  | .ready, _ => some (.ok ())
  | .closed, some .handshakeTimeout => some (.error (.handshakeTimeout h.limits.handshakeTimeout))
  | .closed, _ => some (.error .closed)
  | _, _ => none

/-- Why a session was closed: nothing as long as it is open. -/
def closure? (status : Status) : Option CloseReason :=
  if status.phase = .closed then some (status.closeReason.getD .hostClosed) else none

end Host

end SafePreview
