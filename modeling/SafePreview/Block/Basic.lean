import SafePreview.Block.Content
import SafePreview.Block.Defect

/-!
# Blocks

A `Block` is a stored block whose payload has been found to fit one of six types. `Block.ofWire` is
the only place where the name of a type is looked at: whatever is no `Kind` is refused there, with
the block named, and nothing behind it has to ask again.

A payload may be stored flat or inside one object under `content`. Only if that object is all there
is, is it taken out first, so a text block's own `content` is never mistaken for one.
-/

namespace SafePreview

/-- **What a block shows.** -/
inductive Kind where
  | text (content : String)
  | heading (level : HeadingLevel) (content : String)
  | image (url altText : String)
  | link (url text : String)
  | color (value : Colour) (content : String)
  | fontSize (size : FontSize) (content : String)
deriving DecidableEq

/-- The name under which a kind is stored. -/
def Kind.typeName : Kind → String
  | .text _ => "text"
  | .heading _ _ => "heading"
  | .image _ _ => "image"
  | .link _ _ => "link"
  | .color _ _ => "color"
  | .fontSize _ _ => "font-size"

/-- The kind as JSON, its type beside its fields. -/
def Kind.toValue (kind : Kind) : Json.Value :=
  .object <| ("type", .string kind.typeName) :: match kind with
    | .text content => [("content", .string content)]
    | .heading level content => [("level", .ofNat level.value), ("content", .string content)]
    | .image url altText => [("url", .string url), ("alt_text", .string altText)]
    | .link url label => [("url", .string url), ("text", .string label)]
    | .color value content => [("value", .string value.text), ("content", .string content)]
    | .fontSize size content => [("size", .ofNat size.pixels), ("content", .string content)]

namespace Payload

open Json (Record)

/-- The payload without the object around it, if it is stored inside one. -/
def unwrap : Json.Members → Json.Members
  | [("content", .object inner)] => inner
  | payload => payload

/-- The fields of a payload. Members that the type does not know are passed over. -/
def read {α : Type} (record : Record α) (payload : Json.Members) : Except ContentDefect α :=
  match record.ofMembers (Json.Tree.ofMembers (unwrap payload)) .held with
  | .ok a => .ok a
  | .error (.mismatch m) => .error (.shape m)
  | .error (.fault _) => .error (.stated "unreadable")

/-- A text by itself. -/
def text : Record String := .required "content" .string

/-- A level and a text. -/
def heading : Record (Nat × String) :=
  ((Record.pure Prod.mk).seq (.required "level" (.count 8 "u8"))).seq
    (.required "content" .string)

/-- An address, and a text in its place, under either of two names. -/
def image : Record (String × Option String) :=
  ((Record.pure Prod.mk).seq (.required "url" .string)).seq
    (.fieldOr "altText" ["alt"] (.option .string) (.ok none))

/-- An address and the text that leads there. -/
def link : Record (String × String) :=
  ((Record.pure Prod.mk).seq (.required "url" .string)).seq (.required "text" .string)

/-- A colour, still unchecked, and the text in it. -/
def color : Record (String × String) :=
  ((Record.pure Prod.mk).seq (.required "value" .string)).seq (.optional "content" .string "")

/-- A size, still unchecked, and the text in it. -/
def fontSize : Record (Nat × String) :=
  ((Record.pure Prod.mk).seq (.required "size" (.count 16 "u16"))).seq
    (.optional "content" .string "")

end Payload

/-- **The kind that a type and a payload make.** `none` means that there is no such type, whatever
the payload is. -/
def Kind.ofPayload (type : String) (payload : Json.Members) :
    Option (Except ContentDefect Kind) :=
  match type with
  | "text" => some do return .text (← Payload.read Payload.text payload)
  | "heading" => some do
    let (level, content) ← Payload.read Payload.heading payload
    match HeadingLevel.ofNat? level with
    | some level => return .heading level content
    | none => throw (.headingLevel level)
  | "image" => some do
    let (url, altText) ← Payload.read Payload.image payload
    return .image url (altText.getD "")
  | "link" => some do
    let (url, label) ← Payload.read Payload.link payload
    return .link url label
  | "color" => some do
    let (value, content) ← Payload.read Payload.color payload
    match Colour.ofString? value with
    | some value => return .color value content
    | none => throw .colour
  | "font-size" => some do
    let (size, content) ← Payload.read Payload.fontSize payload
    match FontSize.ofNat? size with
    | some size => return .fontSize size content
    | none => throw (.fontSize size)
  | _ => none

/-- **A block that can be shown.** -/
structure Block where
  id : BlockId
  project : Option ProjectId
  parent : Option BlockId
  sortIndex : Int
  kind : Kind
deriving DecidableEq

namespace Block

/-- **A stored block as one that can be shown**, or the reason why it cannot. -/
def ofWire (wire : WireBlock) : Except BlockError Block :=
  match Kind.ofPayload wire.type wire.payload with
  | none => .error (.unsupportedType wire.id wire.type)
  | some (.error defect) => .error (.invalidContent wire.id defect)
  | some (.ok kind) =>
    .ok { id := wire.id, project := wire.project, parent := wire.parent
          sortIndex := wire.sortIndex, kind }

/-- All blocks, or the error of the first that cannot be shown. -/
def ofWires (wires : List WireBlock) : Except BlockError (List Block) := wires.mapM ofWire

end Block

end SafePreview
