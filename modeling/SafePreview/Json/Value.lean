/-!
# JSON values

A number is a whole number or a double: the two are different values even where they denote the
same quantity, since a count may not be written with a point. An object is a list of members. In a
value that is held, its keys are distinct and ascend (`Value.Canonical`), so that two equal values
are the same term; `Members.insert` keeps that order and lets a repeated key take the later value.
-/

namespace SafePreview.Json

/-- **A number** as it was written: without or with a point or exponent. -/
inductive Number where
  | integer (n : Int)
  | double (x : Float)
deriving DecidableEq

/-- **A JSON value.** -/
inductive Value where
  | null
  | bool (b : Bool)
  | number (n : Number)
  | string (s : String)
  | array (items : List Value)
  | object (members : List (String × Value))

/-- The members of an object. -/
abbrev Members := List (String × Value)

namespace Members

/-- The members with `key` bound to `value`, in ascending order of the keys. -/
def insert (key : String) (value : Value) : Members → Members
  | [] => [(key, value)]
  | (k, v) :: rest =>
    if key < k then (key, value) :: (k, v) :: rest
    else if key = k then (key, value) :: rest
    else (k, v) :: insert key value rest

/-- The members in ascending order of the keys, of a repeated key the last. -/
def ofList (members : List (String × Value)) : Members :=
  members.foldl (fun sorted member => sorted.insert member.1 member.2) []

/-- The value bound to a key. -/
def get? (members : Members) (key : String) : Option Value :=
  (members.find? (·.1 = key)).map (·.2)

end Members

namespace Value

/-- A whole number as a value. -/
def ofInt (n : Int) : Value := .number (.integer n)

/-- A count as a value. -/
def ofNat (n : Nat) : Value := .number (.integer n)

/-- A value that may be absent, absent being null. -/
def ofOption {α : Type} (f : α → Value) : Option α → Value
  | none => .null
  | some a => f a

/-- A list of values, each written by `f`. -/
def ofList {α : Type} (f : α → Value) (items : List α) : Value := .array (items.map f)

/-- An object with the members in the order given. -/
def ofMembers (members : List (String × Value)) : Value := .object members

mutual

/-- **A canonical value**: in every object inside it the keys ascend strictly. -/
def Canonical : Value → Prop
  | .array items => CanonicalItems items
  | .object members => (members.map (·.1)).Pairwise (· < ·) ∧ CanonicalMembers members
  | _ => True

def CanonicalItems : List Value → Prop
  | [] => True
  | item :: rest => item.Canonical ∧ CanonicalItems rest

def CanonicalMembers : List (String × Value) → Prop
  | [] => True
  | (_, value) :: rest => value.Canonical ∧ CanonicalMembers rest

end

end Value

end SafePreview.Json
