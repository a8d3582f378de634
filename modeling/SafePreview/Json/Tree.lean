import SafePreview.Json.Value

/-!
# Trees read from a text

A text is read up to its first fault, and what stands before the fault still has a shape. A `Tree`
is that shape: members in the order written, repeated keys included, with the fault in the place
where the text breaks off. Whoever takes a tree apart from left to right thus meets a wrong shape
before a later fault and a fault before a later wrong shape, and `Tree.ofValue` lets the same
readings serve a value that is already held.

`unreadable` marks text that is well formed but denotes no value (a number beyond every double, half
a surrogate pair, brackets nested too deeply). It is a fault to whoever wants the value and none to
whoever passes over it.
-/

namespace SafePreview.Json

/-- **What is wrong with a text**: it ends too early, or it goes on wrongly. -/
inductive Fault where
  | eof
  | malformed
deriving DecidableEq, Repr

/-- How the brackets of a tree end. -/
inductive Ending where
  /-- The end is known beforehand: the tree is that of a held value. -/
  | held
  /-- The closing bracket was read. -/
  | closed
  /-- The text breaks off after the last part. -/
  | cut (fault : Fault)
deriving DecidableEq, Repr

/-- **What a text holds up to its first fault.** A key is absent where it was unreadable. -/
inductive Tree where
  | null
  | bool (b : Bool)
  | number (n : Number)
  | string (s : String)
  | array (items : List Tree) (ending : Ending)
  | object (members : List (Option String × Tree)) (ending : Ending)
  /-- Well-formed text that denotes no value; inside it the text may break off. -/
  | unreadable (cut : Option Fault)
  /-- The text breaks off here. -/
  | broken (fault : Fault)

namespace Ending

/-- The end as a step of reading: a fault if the text breaks off. -/
def finish : Ending → Except Fault Unit
  | .cut fault => .error fault
  | _ => .ok ()

end Ending

namespace Tree

mutual

/-- **Passes over a tree**: it only has to be well-formed text. -/
def skip : Tree → Except Fault Unit
  | .array items ending => do skipItems items; ending.finish
  | .object members ending => do skipMembers members; ending.finish
  | .unreadable none => .ok ()
  | .unreadable (some fault) => .error fault
  | .broken fault => .error fault
  | _ => .ok ()

def skipItems : List Tree → Except Fault Unit
  | [] => .ok ()
  | item :: rest => do skip item; skipItems rest

def skipMembers : List (Option String × Tree) → Except Fault Unit
  | [] => .ok ()
  | (_, tree) :: rest => do skip tree; skipMembers rest

end

mutual

/-- **The value of a tree**, its objects in canonical order. -/
def value : Tree → Except Fault Value
  | .null => .ok .null
  | .bool b => .ok (.bool b)
  | .number n => .ok (.number n)
  | .string s => .ok (.string s)
  | .array items ending => do
    let values ← itemValues items
    ending.finish
    return .array values
  | .object members ending => do
    let values ← memberValues members
    ending.finish
    return .object (Members.ofList values)
  | .unreadable _ => .error .malformed
  | .broken fault => .error fault

def itemValues : List Tree → Except Fault (List Value)
  | [] => .ok []
  | item :: rest => do return (← value item) :: (← itemValues rest)

def memberValues : List (Option String × Tree) → Except Fault (List (String × Value))
  | [] => .ok []
  | (none, _) :: _ => .error .malformed
  | (some key, tree) :: rest => do return (key, ← value tree) :: (← memberValues rest)

end

mutual

/-- The tree of a held value. -/
def ofValue : Value → Tree
  | .null => .null
  | .bool b => .bool b
  | .number n => .number n
  | .string s => .string s
  | .array items => .array (ofItems items) .held
  | .object members => .object (ofMembers members) .held

def ofItems : List Value → List Tree
  | [] => []
  | item :: rest => ofValue item :: ofItems rest

def ofMembers : List (String × Value) → List (Option String × Tree)
  | [] => []
  | (key, value) :: rest => (some key, ofValue value) :: ofMembers rest

end

end Tree

end SafePreview.Json
