import SafePreview.Block.Defect

/-!
# Stages of a session and what can go wrong

A session goes from `uninitialized` over `handshaking` to `ready`, and from any of them to `closed`,
where it stays. `SessionError` lists what a caller can be told instead of an answer.
-/

namespace SafePreview

/-- **How far a session has come.** -/
inductive Phase where
  | uninitialized
  | handshaking
  | ready
  | closed
deriving DecidableEq, Repr

/-- **Why a session was closed.** -/
inductive CloseReason where
  | hostClosed
  | contextGone
  | handshakeTimeout
  | protocolViolation
deriving DecidableEq, Repr

/-- A name out of a closed list, from JSON. -/
def Json.Shape.oneOf {α : Type} (all : List α) (name : α → String) : Json.Shape α := fun t => do
  let text ← Json.Shape.stringAs "string or map" t
  match all.find? fun a => name a = text with
  | some a => return a
  | none => throw (.mismatch (.unknownVariant text (all.map name)))

namespace Phase

/-- The name of a phase. -/
def text : Phase → String
  | .uninitialized => "uninitialized"
  | .handshaking => "handshaking"
  | .ready => "ready"
  | .closed => "closed"

/-- All phases, in order. -/
def all : List Phase := [.uninitialized, .handshaking, .ready, .closed]

/-- A phase from JSON. -/
def shape : Json.Shape Phase := .oneOf all text

end Phase

namespace CloseReason

/-- The name of a reason. -/
def text : CloseReason → String
  | .hostClosed => "host_closed"
  | .contextGone => "context_gone"
  | .handshakeTimeout => "handshake_timeout"
  | .protocolViolation => "protocol_violation"

/-- All reasons. -/
def all : List CloseReason := [.hostClosed, .contextGone, .handshakeTimeout, .protocolViolation]

/-- A reason from JSON. -/
def shape : Json.Shape CloseReason := .oneOf all text

end CloseReason

/-- **What a caller is told instead of an answer.** -/
inductive SessionError where
  | closed
  /-- The context did not answer within so many milliseconds. -/
  | handshakeTimeout (milliseconds : Nat)
  /-- A message or event that the phase does not accept. -/
  | unexpected (message : String) (phase : Phase)
  | notFound (id : String)
  | render (cause : BlockError)
deriving DecidableEq

/-- **The words for an error.** -/
def SessionError.message : SessionError → String
  | .closed => "session closed"
  | .handshakeTimeout ms => "handshake timed out after " ++ toString ms ++ "ms"
  | .unexpected message phase =>
    "unexpected " ++ Json.ticked message ++ " in state " ++ phase.text
  | .notFound id => "session not found: " ++ id
  | .render cause => "render failed: " ++ cause.message

end SafePreview
