import SafePreview.Json.Tree
import SafePreview.Json.Writer
import SafePreview.Text.Quoted

/-!
# Why a value is refused

A tree is refused because its text has a fault or because it has not the wanted shape. A
`Mismatch` is the second: a value with a cause and no text, `Mismatch.message` being the one place
where it is put into words.
-/

namespace SafePreview.Json

/-- **What was met** where something else was wanted. -/
inductive Found where
  | null
  | bool (b : Bool)
  | number (n : Number)
  | string (s : String)
  | sequence
  | map
deriving DecidableEq

/-- The words for what was met. -/
def Found.message : Found → String
  | .null => "null"
  | .bool b => "boolean `" ++ toString b ++ "`"
  | .number (.integer n) => "integer `" ++ toString n ++ "`"
  | .number (.double x) => "floating point `" ++ (Number.double x).write ++ "`"
  | .string s => "string " ++ Text.quote s
  | .sequence => "sequence"
  | .map => "map"

/-- **A wrong shape.** `wanted` is the wanted shape in words. -/
inductive Mismatch where
  | missingField (name : String)
  | duplicateField (name : String)
  | unknownVariant (name : String) (known : List String)
  | wrongType (found : Found) (wanted : String)
  | wrongValue (found : Found) (wanted : String)
  | wrongLength (length : Nat) (wanted : String)
  | noVariant (choice : String)
deriving DecidableEq

/-- A name between backticks. -/
def ticked (name : String) : String := "`" ++ name ++ "`"

/-- The known names as a phrase. -/
def oneOf : List String → String
  | [] => "there are no variants"
  | [a] => "expected " ++ ticked a
  | [a, b] => "expected " ++ ticked a ++ " or " ++ ticked b
  | names => "expected one of " ++ ", ".intercalate (names.map ticked)

/-- **The words for a wrong shape.** -/
def Mismatch.message : Mismatch → String
  | .missingField name => "missing field " ++ ticked name
  | .duplicateField name => "duplicate field " ++ ticked name
  | .unknownVariant name known => "unknown variant " ++ ticked name ++ ", " ++ oneOf known
  | .wrongType found wanted => "invalid type: " ++ found.message ++ ", expected " ++ wanted
  | .wrongValue found wanted => "invalid value: " ++ found.message ++ ", expected " ++ wanted
  | .wrongLength length wanted => "invalid length " ++ toString length ++ ", expected " ++ wanted
  | .noVariant choice => "data did not match any variant of untagged enum " ++ choice

/-- **Why a tree is refused.** -/
inductive Error where
  | fault (f : Fault)
  | mismatch (m : Mismatch)
deriving DecidableEq

/-- What stands at the root of a tree, if anything can be read there. -/
def Tree.found : Tree → Except Fault Found
  | .null => .ok .null
  | .bool b => .ok (.bool b)
  | .number n => .ok (.number n)
  | .string s => .ok (.string s)
  | .array _ _ => .ok .sequence
  | .object _ _ => .ok .map
  | .unreadable _ => .error .malformed
  | .broken fault => .error fault

/-- The refusal of a tree where `wanted` is wanted. -/
def Tree.refuse {α : Type} (t : Tree) (wanted : String) : Except Error α :=
  match t.found with
  | .ok found => .error (.mismatch (.wrongType found wanted))
  | .error fault => .error (.fault fault)

/-- A fault as the reason of a refusal. -/
def liftFault {α : Type} : Except Fault α → Except Error α
  | .ok a => .ok a
  | .error fault => .error (.fault fault)

end SafePreview.Json
