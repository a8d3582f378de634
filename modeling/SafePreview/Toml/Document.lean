import SafePreview.Toml.Scalar

/-!
# TOML documents

A document is a table, written as lines. A line binds a key in the table at hand or names the table
that the next lines are about. Tables come about in three ways, and `Origin` records which: by a
line of their own, as the way to another table, or by a key with dots. What may still be added to a
table hangs on its origin alone: nothing is ever bound twice, a table is named by a line of its own
once, and keys with dots add only to tables that came about by them.

`read?` gives the value of a document in the terms of `Json.Value`; a date is an object.
-/

namespace SafePreview.Toml

open Json (Value)

/-- **How a table came about.** -/
inductive Origin where
  /-- By a line of its own. -/
  | named
  /-- As the way to a table that was named. -/
  | passed
  /-- By a key with dots. -/
  | dotted
deriving DecidableEq, Repr

/-- **What a key is bound to.** -/
inductive Item where
  | value (v : Value)
  | table (origin : Origin) (members : List (String × Item))
  /-- Tables under one name, in order. -/
  | tables (elements : List (List (String × Item)))

/-- A table at work. -/
abbrev Table := List (String × Item)

namespace Table

/-- What a key is bound to. -/
def get? (t : Table) (key : String) : Option Item := (t.find? (·.1 = key)).map (·.2)

/-- The table with a key bound. -/
def set (t : Table) (key : String) (item : Item) : Table :=
  if t.any (·.1 = key) then t.map fun m => if m.1 = key then (key, item) else m
  else t ++ [(key, item)]

/-- **Changes the table at a path**, going into the last of tables under one name. Tables that are
missing on the way come about as `fresh` says; a way by dots does not go through named tables. -/
def change (fresh : Origin) (f : Origin → Table → Option Table) :
    List String → Origin → Table → Option Table
  | [], origin, t => f origin t
  | key :: path, _, t =>
    match t.get? key with
    | none => do return t.set key (.table fresh (← change fresh f path fresh []))
    | some (.value _) => none
    | some (.table origin inner) => do
      if fresh = .dotted ∧ origin = .named then none
      else return t.set key (.table origin (← change fresh f path origin inner))
    | some (.tables elements) => do
      let last ← elements.getLast?
      return t.set key (.tables (elements.dropLast ++ [← change fresh f path .named last]))

/-- **Binds a key** in a table. -/
def bind (parts : List String) (v : Value) (t : Table) : Option Table := do
  let key ← parts.getLast?
  let path := parts.dropLast
  let put (origin : Origin) (inner : Table) : Option Table :=
    if (origin == .dotted) == path.isEmpty then none
    else if (inner.get? key).isSome then none
    else some (inner.set key (.value v))
  change .dotted put path .named t

/-- **Binds a key** in the table at a path. -/
def bindAt (place parts : List String) (v : Value) (t : Table) : Option Table :=
  change .passed (fun _ inner => inner.bind parts v) place .named t

/-- **Names a table.** It may have been the way to another one before. -/
def name (parts : List String) (t : Table) : Option Table := do
  let key ← parts.getLast?
  let put (_ : Origin) (inner : Table) : Option Table :=
    match inner.get? key with
    | none => some (inner.set key (.table .named []))
    | some (.table .passed members) => some (inner.set key (.table .named members))
    | some _ => none
  change .passed put parts.dropLast .named t

/-- **Adds one more of the tables under a name.** -/
def append (parts : List String) (t : Table) : Option Table := do
  let key ← parts.getLast?
  let put (_ : Origin) (inner : Table) : Option Table :=
    match inner.get? key with
    | none => some (inner.set key (.tables [[]]))
    | some (.tables elements) => some (inner.set key (.tables (elements ++ [[]])))
    | some _ => none
  change .passed put parts.dropLast .named t

end Table

mutual

/-- The value of an item. -/
def Item.toValue : Item → Value
  | .value v => v
  | .table _ members => .object (Json.Members.ofList (membersValue members))
  | .tables elements => .array (elementsValue elements)

/-- The values of members. -/
def membersValue : List (String × Item) → List (String × Value)
  | [] => []
  | (key, item) :: rest => (key, item.toValue) :: membersValue rest

/-- The values of tables. -/
def elementsValue : List (List (String × Item)) → List Value
  | [] => []
  | members :: rest => .object (Json.Members.ofList (membersValue members)) :: elementsValue rest

end

/-! ## Values -/

/-- The text behind blanks, line ends and comments inside brackets. -/
def skipFiller? : Nat → List Char → Option (List Char)
  | 0, cs => some cs
  | fuel + 1, cs =>
    match skipBlanks cs with
    | '#' :: rest => do skipFiller? fuel (← readNewline? (rest.dropWhile isPlain))
    | cs =>
      match readNewline? cs with
      | some rest => skipFiller? fuel rest
      | none => some cs

mutual

/-- A value from its first character on, inside `depth` brackets. -/
def readValue? (fuel depth : Nat) (cs : List Char) : Option (Value × List Char) :=
  match fuel with
  | 0 => none
  | fuel + 1 =>
    match cs with
    | [] => none
    | c :: rest =>
      if c = '"' ∨ c = '\'' then (readString? cs).map fun f => (.string f.1, f.2)
      else if c = '[' then
        if depth + 1 < depthLimit then
          (readItems? fuel (depth + 1) rest).map fun f => (.array f.1, f.2)
        else none
      else if c = '\x7b' then
        if depth + 1 < depthLimit then
          match skipBlanks rest with
          | '\x7d' :: rest => some (.object [], rest)
          | rest => (readPairs? fuel (depth + 1) [] rest).map fun f =>
            ((Item.table .named f.1).toValue, f.2)
        else none
      else readToken? cs

/-- The items of an array up to its closing bracket. -/
def readItems? (fuel depth : Nat) (cs : List Char) : Option (List Value × List Char) :=
  match fuel with
  | 0 => none
  | fuel + 1 => do
    match ← skipFiller? cs.length cs with
    | ']' :: rest => return ([], rest)
    | cs =>
      let (item, cs) ← readValue? fuel depth cs
      match ← skipFiller? cs.length cs with
      | ',' :: cs =>
        let (items, cs) ← readItems? fuel depth cs
        return (item :: items, cs)
      | ']' :: cs => return ([item], cs)
      | _ => none

/-- The bindings of a table on one line up to its closing brace. -/
def readPairs? (fuel depth : Nat) (t : Table) (cs : List Char) : Option (Table × List Char) :=
  match fuel with
  | 0 => none
  | fuel + 1 => do
    let (parts, cs) ← readKey? cs
    let (v, cs) ← readValue? fuel depth (skipBlanks (← expect? '=' cs))
    let t ← t.bind parts v
    match skipBlanks cs with
    | ',' :: cs => readPairs? fuel depth t cs
    | '\x7d' :: cs => return (t, cs)
    | _ => none

end

/-! ## Lines -/

/-- A line that names a table: whether it is one of several, and its path. -/
def readName? (cs : List Char) : Option ((Bool × List String) × List Char) :=
  match cs with
  | '[' :: '[' :: cs => do
    let (parts, cs) ← readKey? cs
    return ((true, parts), ← expect? ']' (← expect? ']' cs))
  | '[' :: cs => do
    let (parts, cs) ← readKey? cs
    return ((false, parts), ← expect? ']' cs)
  | _ => none

/-- Takes the lines of a document into a table, the first of them into the table at `place`. -/
def readLinesInto? : Nat → List String → Table → List Char → Option Table
  | 0, _, t, _ => some t
  | fuel + 1, place, t, cs => do
    let cs := skipBlanks cs
    match cs.head? with
    | none => return t
    | some '[' =>
      let ((several, parts), rest) ← readName? cs
      let t ← if several then t.append parts else t.name parts
      readLinesInto? fuel parts t (← readLineEnd? rest)
    | some c =>
      if c = '#' ∨ c = '\n' ∨ c = '\r' then readLinesInto? fuel place t (← readLineEnd? cs)
      else
        let (parts, rest) ← readKey? cs
        let rest := skipBlanks (← expect? '=' rest)
        let (v, rest) ← readValue? (rest.length + 1) 0 rest
        readLinesInto? fuel place (← t.bindAt place parts v) (← readLineEnd? rest)

/-- **The value of a document**, or nothing if the text is none. -/
def read? (text : String) : Option Value := do
  let cs := match text.toList with
    | '\ufeff' :: cs => cs
    | cs => cs
  let t ← readLinesInto? (cs.length + 1) [] [] cs
  return (Item.table .named t).toValue

end SafePreview.Toml
