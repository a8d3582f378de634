import SafePreview.Json.Shape

/-!
# Blocks as they are stored

A stored block is one flat JSON object. Five keys have a meaning of their own (`id`, `projectId`,
`parentId`, `sortIndex`, `type`) and all others make up its payload, whatever they hold. An id is
a text or a whole number of 64 bits, and the number is held as its digits, so that both spellings
name the same block.

`WireBlock.toValue` writes a block back. It leaves out a project that is absent and writes a parent
that is absent as null; `WireBlock.shape` reads either for either.
-/

namespace SafePreview

/-- **The name of a block**, unique within its project. -/
structure BlockId where
  text : String
deriving DecidableEq, Repr

/-- **The name of a project.** -/
structure ProjectId where
  text : String
deriving DecidableEq, Repr

/-- An id: a text, or a whole number of 64 bits taken as its digits. -/
def Json.Shape.identifier : Json.Shape String :=
  Json.Shape.firstOf "IdRepr" [Json.Shape.string, fun t => (Json.Shape.int64 t).map toString]

def BlockId.shape : Json.Shape BlockId := fun t => (Json.Shape.identifier t).map BlockId.mk

def ProjectId.shape : Json.Shape ProjectId := fun t => (Json.Shape.identifier t).map ProjectId.mk

def BlockId.toValue (id : BlockId) : Json.Value := .string id.text

def ProjectId.toValue (id : ProjectId) : Json.Value := .string id.text

/-- **A block exactly as it is stored**: its place in the project, the name of its type, and the
members that only its type gives a meaning. -/
structure WireBlock where
  id : BlockId
  project : Option ProjectId
  parent : Option BlockId
  sortIndex : Int
  type : String
  payload : Json.Members

namespace WireBlock

/-- The members with a meaning of their own. -/
structure Head where
  id : BlockId
  project : Option ProjectId
  parent : Option BlockId
  sortIndex : Int
  type : String

/-- The shape of those members, in the order in which absent ones are missed. -/
def Head.record : Json.Record Head :=
  ((((Json.Record.pure Head.mk).seq
    (.required "id" BlockId.shape)).seq
    (.optional "projectId" (.option ProjectId.shape) none)).seq
    (.optional "parentId" (.option BlockId.shape) none)).seq
    (.optional "sortIndex" .int64 0) |>.seq
    (.required "type" .string)

/-- **A stored block from JSON.** -/
def shape : Json.Shape WireBlock := fun t => do
  let (head, others) ← Head.record.openShape "struct RawBlock" t
  return { id := head.id, project := head.project, parent := head.parent
           sortIndex := head.sortIndex, type := head.type, payload := Json.Members.ofList others }

/-- **A stored block as JSON.** -/
def toValue (block : WireBlock) : Json.Value :=
  .object (Json.Members.ofList (
    [("id", block.id.toValue)]
    ++ (match block.project with
      | some project => [("projectId", project.toValue)]
      | none => [])
    ++ [("parentId", Json.Value.ofOption BlockId.toValue block.parent),
      ("sortIndex", Json.Value.ofInt block.sortIndex), ("type", .string block.type)]
    ++ block.payload))

end WireBlock

end SafePreview
