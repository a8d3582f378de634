import SafePreview.Json.Value
import SafePreview.Decimal.Written
import SafePreview.Text.Character

/-!
# Written JSON

`Value.compact` writes a value without blanks and `Value.pretty` with two spaces a level. Members
are written in the order in which they stand. A string escapes the quote, the backslash and the
characters below the space, five of them by a letter; all others stand for themselves.
-/

namespace SafePreview.Json

/-- **How doubles are written**: positionally from `0.00001` to below `10 ^ 16`. -/
def doubleStyle : Decimal.Style := ⟨-5, 15⟩

/-- The text of a number. -/
def Number.write : Number → String
  | .integer n => toString n
  | .double x => doubleStyle.write x

/-- How one character is written inside a string. -/
def escape (c : Char) : List Char :=
  if c = '"' ∨ c = '\\' then ['\\', c]
  else if c = '\x08' then ['\\', 'b']
  else if c = '\x0c' then ['\\', 'f']
  else if c = '\n' then ['\\', 'n']
  else if c = '\r' then ['\\', 'r']
  else if c = '\t' then ['\\', 't']
  else if c.toNat < 0x20 then
    ['\\', 'u', '0', '0', Text.hexDigit (c.toNat / 16), Text.hexDigit (c.toNat % 16)]
  else [c]

/-- A string between quotes. -/
def writeString (s : String) : String :=
  String.ofList ('"' :: s.toList.flatMap escape ++ ['"'])

namespace Value

mutual

/-- **The value without blanks.** -/
def compact : Value → String
  | .null => "null"
  | .bool b => if b then "true" else "false"
  | .number n => n.write
  | .string s => writeString s
  | .array items => "[" ++ ",".intercalate (compactItems items) ++ "]"
  | .object members => "\x7b" ++ ",".intercalate (compactMembers members) ++ "\x7d"

def compactItems : List Value → List String
  | [] => []
  | item :: rest => item.compact :: compactItems rest

def compactMembers : List (String × Value) → List String
  | [] => []
  | (key, value) :: rest => (writeString key ++ ":" ++ value.compact) :: compactMembers rest

end

/-- A line break and the blanks of a level. -/
def indent (level : Nat) : String := String.ofList ('\n' :: List.replicate (2 * level) ' ')

/-- A bracketed list with every item on a line of its own. -/
def block (level : Nat) (opening closing : String) (items : List String) : String :=
  if items.isEmpty then opening ++ closing
  else
    opening ++ indent (level + 1) ++ ("," ++ indent (level + 1)).intercalate items
      ++ indent level ++ closing

mutual

/-- The value with its parts on lines of their own, inside `level` brackets. -/
def prettyAt (level : Nat) : Value → String
  | .array items => block level "[" "]" (prettyItems (level + 1) items)
  | .object members => block level "\x7b" "\x7d" (prettyMembers (level + 1) members)
  | .null => "null"
  | .bool b => if b then "true" else "false"
  | .number n => n.write
  | .string s => writeString s

def prettyItems (level : Nat) : List Value → List String
  | [] => []
  | item :: rest => item.prettyAt level :: prettyItems level rest

def prettyMembers (level : Nat) : List (String × Value) → List String
  | [] => []
  | (key, value) :: rest =>
    (writeString key ++ ": " ++ value.prettyAt level) :: prettyMembers level rest

end

/-- **The value with two spaces a level.** -/
def pretty (v : Value) : String := v.prettyAt 0

end Value

end SafePreview.Json
