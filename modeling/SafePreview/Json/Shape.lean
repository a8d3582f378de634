import SafePreview.Json.Mismatch
import SafePreview.Json.Reader

/-!
# Shapes

A `Shape α` takes a tree apart into an `α` or says why it cannot. `Record α` is the shape of an
object with named fields. The members are visited in the order in which they stand, and each known
one is tried at once: so the first wrong member decides, a repeated field is refused where it
occurs the second time, and only then are absent fields looked for, in the order of declaration.
Where a record may also be written as an array, its fields stand in that same order.
-/

namespace SafePreview.Json

/-- **What takes a tree apart.** -/
abbrev Shape (α : Type) := Tree → Except Error α

namespace Shape

/-- A string. -/
def stringAs (wanted : String) : Shape String
  | .string s => .ok s
  | t => t.refuse wanted

/-- A string. -/
def string : Shape String := stringAs "a string"

/-- A truth value. -/
def bool : Shape Bool
  | .bool b => .ok b
  | t => t.refuse "a boolean"

/-- A whole number from `low` to `high`. -/
def integer (low high : Int) (wanted : String) : Shape Int
  | .number (.integer n) =>
    if low ≤ n ∧ n ≤ high then .ok n
    else .error (.mismatch (.wrongValue (.number (.integer n)) wanted))
  | t => t.refuse wanted

/-- A count below `2 ^ bits`. -/
def count (bits : Nat) (wanted : String) : Shape Nat :=
  fun t => (integer 0 (Int.pow 2 bits - 1) wanted t).map Int.toNat

/-- A whole number of 64 bits with a sign. -/
def int64 : Shape Int := integer (-Int.pow 2 63) (Int.pow 2 63 - 1) "i64"

/-- A value of any shape. -/
def value : Shape Value := fun t => liftFault t.value

/-- Null or the given shape. -/
def option {α : Type} (shape : Shape α) : Shape (Option α)
  | .null => .ok none
  | t => (shape t).map some

/-- An array whose items all have the given shape. -/
def list {α : Type} (shape : Shape α) : Shape (List α)
  | .array items ending => do
    let found ← items.mapM shape
    liftFault ending.finish
    return found
  | t => t.refuse "a sequence"

/-- The first shape that fits, whatever the others would say. A fault of the text counts before
any shape. -/
def firstOf {α : Type} (choice : String) (shapes : List (Shape α)) : Shape α := fun t => do
  let _ ← liftFault t.value
  match shapes.findSome? fun shape => (shape t).toOption with
  | some a => .ok a
  | none => .error (.mismatch (.noVariant choice))

end Shape

/-- **A field**: its name, other names it goes by, and what its value has to be. -/
structure Field where
  name : String
  aliases : List String
  accepts : Tree → Except Error Unit

/-- **The shape of an object**: its fields, and what is built from the trees found for them. -/
structure Record (α : Type) where
  fields : List Field
  build : (String → Option Tree) → Except Error α

namespace Record

/-- A record with no fields. -/
def pure {α : Type} (a : α) : Record α := ⟨[], fun _ => .ok a⟩

/-- The fields of the first record and then those of the second. -/
def seq {α β : Type} (f : Record (α → β)) (a : Record α) : Record β where
  fields := f.fields ++ a.fields
  build found := do return (← f.build found) (← a.build found)

/-- A field of the given shape, with `absent` where it is left out. -/
def fieldOr {α : Type} (name : String) (aliases : List String) (shape : Shape α)
    (absent : Except Error α) : Record α where
  fields := [⟨name, aliases, fun t => (shape t).map fun _ => ()⟩]
  build found := match found name with
    | some t => shape t
    | none => absent

/-- A field that has to be there. -/
def required {α : Type} (name : String) (shape : Shape α) : Record α :=
  fieldOr name [] shape (.error (.mismatch (.missingField name)))

/-- A field with a default. -/
def optional {α : Type} (name : String) (shape : Shape α) (default : α) : Record α :=
  fieldOr name [] shape (.ok default)

/-- The field that goes by a key. -/
def field? (fields : List Field) (key : String) : Option Field :=
  fields.find? fun f => f.name = key ∨ key ∈ f.aliases

/-- The trees found for the fields, by name, and the members that are no fields. -/
structure Visit where
  known : List (String × Tree)
  others : List (String × Tree)

/-- The tree found for a field. -/
def Visit.get? (v : Visit) (name : String) : Option Tree :=
  (v.known.find? (·.1 = name)).map (·.2)

/-- **Visits the members in the order in which they stand.** `other` is tried on what no field
goes by. -/
def visit (fields : List Field) (other : Tree → Except Error Unit) :
    List (Option String × Tree) → Visit → Except Error Visit
  | [], v => .ok v
  | (none, _) :: _, _ => .error (.fault .malformed)
  | (some key, t) :: rest, v =>
    match field? fields key with
    | none => do
      other t
      visit fields other rest { v with others := v.others ++ [(key, t)] }
    | some f =>
      if v.known.any (·.1 = f.name) then .error (.mismatch (.duplicateField f.name))
      else do
        f.accepts t
        visit fields other rest { v with known := v.known ++ [(f.name, t)] }

/-- The items of an array as the fields of a record, in order. -/
def positions : List Field → List Tree → Except Error (List (String × Tree))
  | f :: fields, t :: items => do
    f.accepts t
    return (f.name, t) :: (← positions fields items)
  | _, _ => .ok []

/-- How many things there are, in words. -/
def elements (n : Nat) : String := toString n ++ (if n = 1 then " element" else " elements")

/-- A record from an array. The first field without an item has to have a default. -/
def ofItems {α : Type} (r : Record α) (wanted : String) (items : List Tree) (ending : Ending) :
    Except Error α := do
  let found ← positions r.fields items
  if items.length < r.fields.length then liftFault ending.finish
  let a ← match r.build fun name => (found.find? (·.1 = name)).map (·.2) with
    | .ok a => .ok a
    | .error (.mismatch (.missingField name)) =>
      .error (.mismatch (.wrongLength (r.fields.findIdx (·.name = name))
        (wanted ++ " with " ++ elements r.fields.length)))
    | .error e => .error e
  if r.fields.length < items.length then
    match ending with
    | .held => .error (.mismatch (.wrongLength items.length "fewer elements in array"))
    | _ => .error (.fault .malformed)
  else
    liftFault ending.finish
    return a

/-- A record from the members of an object; members that are no fields are passed over. -/
def ofMembers {α : Type} (r : Record α) (members : List (Option String × Tree))
    (ending : Ending) : Except Error α := do
  let v ← visit r.fields (fun t => liftFault t.skip) members ⟨[], []⟩
  liftFault ending.finish
  r.build v.get?

/-- **The shape of the record**, written as an object or as an array of its fields. -/
def shape {α : Type} (r : Record α) (wanted : String) : Shape α
  | .object members ending => r.ofMembers members ending
  | .array items ending => r.ofItems wanted items ending
  | t => t.refuse wanted

/-- The shape of the record where only an object will do. -/
def objectShape {α : Type} (r : Record α) (wanted : String) : Shape α
  | .object members ending => r.ofMembers members ending
  | t => t.refuse wanted

/-- The shape of the record written as an object, together with the values of all members that
are no fields. -/
def openShape {α : Type} (r : Record α) (wanted : String) : Shape (α × List (String × Value))
  | .object members ending => do
    let v ← visit r.fields (fun t => do let _ ← liftFault t.value) members ⟨[], []⟩
    liftFault ending.finish
    let a ← r.build v.get?
    let others ← v.others.mapM fun member => do return (member.1, ← Shape.value member.2)
    return (a, others)
  | t => t.refuse wanted

end Record

/-- **A text read as a shape.** Behind the tree the text has to end. -/
def Shape.ofText {α : Type} (shape : Shape α) (text : String) : Except Error α := do
  let (tree, ending) := Tree.ofText text
  let a ← shape tree
  liftFault ending
  return a

/-- A held value read as a shape. -/
def Shape.ofValue {α : Type} (shape : Shape α) (value : Value) : Except Error α :=
  shape (Tree.ofValue value)

end SafePreview.Json
