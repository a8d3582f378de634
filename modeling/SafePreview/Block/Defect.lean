import SafePreview.Block.Wire

/-!
# What can be wrong with blocks

A block may be of an unknown type, its payload may not fit its type, or the blocks of a project may
not form a forest. Each cause is a value that names the blocks concerned; `BlockError.message` puts
it into words.
-/

namespace SafePreview

/-- **Why blocks are no forest.** -/
inductive TreeDefect where
  | missingParent (block parent : BlockId)
  | cycle (block : BlockId)
  /-- Two blocks under one parent, or two roots, have the same index. -/
  | duplicateSortIndex (parent : Option BlockId) (index : Int)
  | duplicateId (block : BlockId)
  | unknownBlock (block : BlockId)
deriving DecidableEq, Repr

/-- The words for a defect of the forest. -/
def TreeDefect.message : TreeDefect → String
  | .missingParent block parent =>
    "block " ++ block.text ++ " references missing parent " ++ parent.text
  | .cycle block => "cycle detected through block " ++ block.text
  | .duplicateSortIndex parent index =>
    "siblings under " ++ (match parent with
      | some id => id.text
      | none => "<root>") ++ " share sort index " ++ toString index
  | .duplicateId block => "duplicate block id " ++ block.text
  | .unknownBlock block => "unknown block " ++ block.text

/-- **Why a payload does not fit its type.** -/
inductive ContentDefect where
  | shape (mismatch : Json.Mismatch)
  | headingLevel (level : Nat)
  | colour
  | fontSize (pixels : Nat)
  /-- A reason that a caller states in words. -/
  | stated (reason : String)
deriving DecidableEq

/-- The words for a payload that does not fit. -/
def ContentDefect.message : ContentDefect → String
  | .shape mismatch => mismatch.message
  | .headingLevel level => "heading level " ++ toString level ++ " is outside 1..=6"
  | .colour => "colour must be hex or a keyword"
  | .fontSize pixels => "font size " ++ toString pixels ++ " is outside 1..=512"
  | .stated reason => reason

/-- **Why blocks cannot be shown.** -/
inductive BlockError where
  | malformedTree (defect : TreeDefect)
  | unsupportedType (block : BlockId) (type : String)
  | invalidContent (block : BlockId) (defect : ContentDefect)
deriving DecidableEq

/-- **The words for an error.** -/
def BlockError.message : BlockError → String
  | .malformedTree defect => "malformed block tree: " ++ defect.message
  | .unsupportedType block type =>
    "unsupported block type " ++ Json.ticked type ++ " on block " ++ block.text
  | .invalidContent block defect =>
    "invalid content on block " ++ block.text ++ ": " ++ defect.message

end SafePreview
