import SafePreview.Session.Error
import SafePreview.Session.Message

/-!
# The state of one session

A session is a state machine without time and without channels. Messages for the context gather in
its outbox. Contents that are asked for before the context is ready gather in `pending` and go to
the outbox, in the order in which they were asked for, when the context says that it is. Revisions
are given out in the order of the requests, so that order is also the order of delivery.

`Operation` lists everything that can happen to a session and `Session.perform` does it, so a
history of a session is a list of operations.
-/

namespace SafePreview

open Markup (SafeMarkup)

/-- **What becomes of a content that was accepted**, under its revision. -/
inductive Receipt where
  /-- It is on its way. -/
  | delivered (revision : Nat)
  /-- It waits until the context is ready. -/
  | queued (revision : Nat)
deriving DecidableEq, Repr

namespace Receipt

/-- The revision that the content was given. -/
def revision : Receipt → Nat
  | .delivered revision => revision
  | .queued revision => revision

/-- The name of what became of it. -/
def status : Receipt → String
  | .delivered _ => "delivered"
  | .queued _ => "queued"

/-- The receipt as JSON. -/
def toValue (receipt : Receipt) : Json.Value :=
  .object [("status", .string receipt.status), ("revision", .ofNat receipt.revision)]

end Receipt

/-- **A session.** -/
structure Session where
  phase : Phase
  /-- Contents that wait for the context, oldest first. -/
  pending : List HostMessage
  /-- Messages that are to be sent, oldest first. -/
  outbox : List HostMessage
  /-- The revision of the next content. Revisions are counted from 1 in steps of 1 and have 64 bits
  where they are kept; no session gets anywhere near 2^64 contents, so they have no bound here. -/
  nextRevision : Nat
  acknowledged : Option Nat
  closeReason : Option CloseReason
deriving DecidableEq

namespace Session

/-- A session that nothing has happened to. -/
def new : Session := ⟨.uninitialized, [], [], 1, none, none⟩

/-- Whether the session is closed. -/
def isClosed (s : Session) : Bool := s.phase = .closed

/-- Closes the session for a reason and drops all that was not sent, unless it is closed. -/
def close (reason : CloseReason) (s : Session) : Session :=
  if s.isClosed then s
  else { s with phase := .closed, closeReason := some reason, pending := [], outbox := [] }

/-- The context exists: the handshake is to be sent. -/
def contextCreated (s : Session) : Except SessionError Unit × Session :=
  match s.phase with
  | .uninitialized =>
    (.ok (), { s with phase := .handshaking, outbox := s.outbox ++ [.handshake] })
  | .closed => (.error .closed, s)
  | phase => (.error (.unexpected "context_created" phase), s)

/-- **Asks for a content to be shown.** -/
def requestUpdate (markup : SafeMarkup) (s : Session) : Except SessionError Receipt × Session :=
  if s.isClosed then (.error .closed, s)
  else
    let message := HostMessage.update s.nextRevision markup
    let s' := { s with nextRevision := s.nextRevision + 1 }
    if s.phase = .ready then
      (.ok (.delivered s.nextRevision), { s' with outbox := s.outbox ++ [message] })
    else (.ok (.queued s.nextRevision), { s' with pending := s.pending ++ [message] })

/-- The higher of an acknowledgement and those before it. -/
def raise (before : Option Nat) (revision : Nat) : Option Nat :=
  match before with
  | none => some revision
  | some last => if last < revision then some revision else some last

/-- **A message of the context arrives.** One that the phase does not accept closes the session. -/
def receive (message : ContextMessage) (s : Session) : Except SessionError Unit × Session :=
  match s.phase, message with
  | .closed, _ => (.error .closed, s)
  | .handshaking, .ready =>
    (.ok (), { s with phase := .ready, outbox := s.outbox ++ s.pending, pending := [] })
  | .ready, .ready => (.ok (), s)
  | .ready, .acknowledge revision =>
    if s.nextRevision ≤ revision then (.ok (), s)
    else (.ok (), { s with acknowledged := raise s.acknowledged revision })
  | phase, message => (.error (.unexpected message.kind phase), s.close .protocolViolation)

/-- The time for the handshake is over; says whether that closed the session. -/
def handshakeTimedOut (s : Session) : Bool × Session :=
  if s.phase = .handshaking then (true, s.close .handshakeTimeout) else (false, s)

/-- Takes the messages that are to be sent. -/
def takeOutbox (s : Session) : List HostMessage × Session := (s.outbox, { s with outbox := [] })

/-! ## Histories -/

/-- **What can happen to a session.** -/
inductive Operation where
  | contextCreated
  | update (markup : SafeMarkup)
  | receive (message : ContextMessage)
  | timeout
  | close (reason : CloseReason)
  | takeOutbox

/-- **What comes of it.** -/
inductive Outcome where
  | done
  | refused (error : SessionError)
  | changed (yes : Bool)
  | accepted (receipt : Receipt)
  | taken (messages : List HostMessage)
deriving DecidableEq

/-- The outcome of something that gives no answer. -/
def Outcome.ofUnit : Except SessionError Unit → Outcome
  | .ok () => .done
  | .error e => .refused e

/-- The outcome of a request. -/
def Outcome.ofReceipt : Except SessionError Receipt → Outcome
  | .ok receipt => .accepted receipt
  | .error e => .refused e

/-- **Does one operation.** -/
def perform (s : Session) : Operation → Outcome × Session
  | .contextCreated => (.ofUnit s.contextCreated.1, s.contextCreated.2)
  | .update markup => (.ofReceipt (s.requestUpdate markup).1, (s.requestUpdate markup).2)
  | .receive message => (.ofUnit (s.receive message).1, (s.receive message).2)
  | .timeout => (.changed s.handshakeTimedOut.1, s.handshakeTimedOut.2)
  | .close reason => (.changed !s.isClosed, s.close reason)
  | .takeOutbox => (.taken s.takeOutbox.1, s.takeOutbox.2)

/-- **A history**: the outcomes of operations in order, and the session after them. -/
def history (s : Session) : List Operation → List Outcome × Session
  | [] => ([], s)
  | op :: rest =>
    let first := s.perform op
    let more := first.2.history rest
    (first.1 :: more.1, more.2)

end Session

end SafePreview
