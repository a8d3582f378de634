import SafePreview.Json.Shape
import SafePreview.Markup.Sanitize

/-!
# Messages between host and context

The host sends a handshake and then contents, each under a revision; the context answers that it is
ready and acknowledges revisions. Each message is a JSON object whose `type` says which it is. The
host's messages are only ever written and the context's only ever read, but what was read can be
written back. A context's message may also be an array that starts with its type.
-/

namespace SafePreview

open Markup (SafeMarkup)

/-- **What the host says to the context.** -/
inductive HostMessage where
  | handshake
  /-- A content under its revision, which is below 2^64 in any session that there can be. -/
  | update (revision : Nat) (markup : SafeMarkup)
deriving DecidableEq

namespace HostMessage

/-- The name of the message. -/
def kind : HostMessage → String
  | .handshake => "handshake"
  | .update _ _ => "update_content"

/-- The revision of a content. -/
def revision? : HostMessage → Option Nat
  | .handshake => none
  | .update revision _ => some revision

/-- The content of an update. -/
def markup? : HostMessage → Option SafeMarkup
  | .handshake => none
  | .update _ markup => some markup

/-- **The message as JSON.** -/
def toValue (message : HostMessage) : Json.Value :=
  .object <| ("type", .string message.kind) :: match message with
    | .handshake => []
    | .update revision markup => [("revision", .ofNat revision), ("markup", .string markup.text)]

end HostMessage

/-- **What the context says to the host.** -/
inductive ContextMessage where
  | ready
  | acknowledge (revision : Nat)
deriving DecidableEq, Repr

namespace ContextMessage

/-- The name of the message. -/
def kind : ContextMessage → String
  | .ready => "preview_ready"
  | .acknowledge _ => "content_ack"

/-- **The message as JSON.** -/
def toValue (message : ContextMessage) : Json.Value :=
  .object <| ("type", .string message.kind) :: match message with
    | .ready => []
    | .acknowledge revision => [("revision", .ofNat revision)]

/-- Which message a type names. -/
inductive Variant where
  | ready
  | acknowledge
deriving DecidableEq, Repr

/-- The type of a message. -/
def Variant.shape : Json.Shape Variant := fun t => do
  match ← Json.Shape.stringAs "variant identifier" t with
  | "preview_ready" => return .ready
  | "content_ack" => return .acknowledge
  | name => throw (.mismatch (.unknownVariant name ["preview_ready", "content_ack"]))

/-- The revision of an acknowledgement. -/
def revision : Json.Record Nat := .required "revision" (.count 64 "u64")

/-- A message of a known type from the items that follow the type. -/
def ofItems (variant : Variant) (items : List Json.Tree) : Except Json.Error ContextMessage :=
  let surplus (wanted : Nat) : Json.Error :=
    .mismatch (.wrongLength items.length (Json.Record.elements wanted ++ " in sequence"))
  match variant, items with
  | .ready, [] => .ok .ready
  | .ready, _ :: _ => .error (surplus 0)
  | .acknowledge, [] => .error (.mismatch
      (.wrongLength 0 "struct variant ContextMessage::ContentAck with 1 element"))
  | .acknowledge, item :: rest => do
    let revision ← Json.Shape.count 64 "u64" item
    if rest.isEmpty then return .acknowledge revision else throw (surplus 1)

/-- A message of a known type from the members beside the type. -/
def ofMembers (variant : Variant) (members : List (Option String × Json.Tree)) :
    Except Json.Error ContextMessage :=
  match variant with
  | .ready => .ok .ready
  | .acknowledge => do return .acknowledge (← revision.ofMembers members .held)

/-- Goes through the members up to the end: the type is tried where it stands, and the others only
have to be readable. -/
def findVariant : List (Option String × Json.Tree) → Option Variant →
    List (Option String × Json.Tree) →
    Except Json.Error (Option Variant × List (Option String × Json.Tree))
  | [], variant, others => .ok (variant, others)
  | (none, _) :: _, _, _ => .error (.fault .malformed)
  | (some "type", t) :: rest, none, others => do
    let variant ← Variant.shape t
    findVariant rest (some variant) others
  | (some "type", _) :: _, some _, _ => .error (.mismatch (.duplicateField "type"))
  | (some key, t) :: rest, variant, others => do
    let _ ← Json.liftFault t.value
    findVariant rest variant (others ++ [(some key, t)])

/-- **A message from JSON.** -/
def shape : Json.Shape ContextMessage
  | .object members ending => do
    let (variant, others) ← findVariant members none []
    Json.liftFault ending.finish
    match variant with
    | some variant => ofMembers variant others
    | none => throw (.mismatch (.missingField "type"))
  | .array items ending =>
    match items with
    | [] => do
      Json.liftFault ending.finish
      throw (.mismatch (.missingField "type"))
    | first :: rest => do
      let variant ← Variant.shape first
      let _ ← rest.mapM fun t => Json.liftFault t.value
      Json.liftFault ending.finish
      ofItems variant rest
  | t => t.refuse "internally tagged enum ContextMessage"

end ContextMessage

end SafePreview
