import SafePreview.Markup.Sanitize
import SafePreview.Preview.Generate

/-!
# Previews

A preview is made in one way only: stored blocks are read, put into a forest, written as markup and
sanitised. Where any step fails there is no preview at all. The map that comes with a preview is
that of the markup before it was sanitised, provided that sanitising kept the number of lines.
-/

namespace SafePreview

open Markup (Policy SafeMarkup)

/-- **Safe markup and the lines of its blocks.** -/
structure Preview where
  markup : SafeMarkup
  map : LineMap
deriving DecidableEq

namespace Preview

/-- The number of lines of a text; a text without characters has none. -/
def lineCount (text : String) : Nat :=
  if text.isEmpty then 0 else Text.newlines text.toList + 1

/-- **The preview of a forest.** -/
def ofForest (policy : Policy) (forest : Forest) : Preview :=
  let generated := forest.generate
  let markup := Markup.sanitize policy generated.markup
  { markup
    map := if lineCount markup.text = generated.map.lineCount then generated.map else .empty }

/-- **The preview of stored blocks**, of those alone that belong to the project if one is given. -/
def render [ParentOrder] (policy : Policy) (project : Option ProjectId) (wires : List WireBlock) :
    Except BlockError Preview := do
  let blocks ← Block.ofWires wires
  match Forest.build project blocks with
  | .ok forest => return ofForest policy forest
  | .error defect => throw (.malformedTree defect)

/-- A preview as JSON. -/
def toValue (preview : Preview) : Json.Value :=
  .object [("markup", .string preview.markup.text), ("mapping", preview.map.toValue)]

end Preview

end SafePreview
