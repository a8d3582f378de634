import SafePreview.Settings.Environment

/-!
# Files of variables

A file of variables has a line `name=value` for each; `export` may stand in front. Values may be
quoted weakly by `"`, where `\` and `$` keep their meaning, or strongly by `'`, where nothing does;
a quoted value may go over line ends. `$name` and the name in braces behind `$` stand for the value
of a variable. A comment starts at a `#` behind a blank.

A variable that is set already is not set again. The first line that cannot be read ends the file.
-/

namespace SafePreview.EnvironmentFile

/-! ## Lines -/

/-- **Where a character stands** as to quotes. -/
inductive Quoting where
  | plain
  /-- Right behind a blank. -/
  | blank
  | escaped
  | weak
  | weakEscaped
  | strong
  | strongEscaped
deriving DecidableEq, Repr

/-- Where the next character stands. -/
def Quoting.next (q : Quoting) (c : Char) : Quoting :=
  match q with
  | .escaped => .plain
  | .weak => if c = '\\' then .weakEscaped else if c = '"' then .plain else .weak
  | .weakEscaped => .weak
  | .strong => if c = '\\' then .strongEscaped else if c = '\'' then .plain else .strong
  | .strongEscaped => .strong
  | .plain | .blank =>
    if q = .plain ∧ Text.isBlank c ∧ c ≠ '\n' ∧ c ≠ '\r' then .blank
    else if c = '\\' then .escaped
    else if c = '"' then .weak
    else if c = '\'' then .strong
    else .plain

/-- The characters of a line up to a comment, and where the line leaves off, which is nowhere if
there is a comment. -/
def scan (q : Quoting) : List Char → List Char × Option Quoting
  | [] => ([], some q)
  | c :: cs =>
    if q = .blank ∧ c = '#' then ([], none)
    else
      let rest := scan (q.next c) cs
      (c :: rest.1, rest.2)

/-- The text cut behind every line end. -/
def physicalLines (cs : List Char) : List (List Char) :=
  let parts := cs.splitOn '\n'
  parts.dropLast.map (· ++ ['\n']) ++ (match parts.getLast? with
    | some [] | none => []
    | some last => [last])

/-- A line without its line end. -/
def chop (line : List Char) : List Char :=
  match line.reverse with
  | '\n' :: '\r' :: rest => rest.reverse
  | '\n' :: rest => rest.reverse
  | _ => line

/-- **The lines of a file**, those joined between which a quote is open. `none` stands for a line
that the file ends in the middle of. -/
def joinLines (open? : List Char) (q : Quoting) : List (List Char) → List (Option (List Char))
  | [] => if q = .plain then [] else [none]
  | line :: rest =>
    if ((open? ++ line).dropWhile Text.isBlank).head? = some '#' then
      some [] :: joinLines [] .plain rest
    else
      match scan q line with
      | (kept, none) => some (open? ++ kept) :: joinLines [] .plain rest
      | (kept, some .plain) => some (chop (open? ++ kept)) :: joinLines [] .plain rest
      | (kept, some q) => joinLines (open? ++ kept) q rest

/-! ## Values -/

/-- **How the next character of a value is taken.** `inside` tells whether weak quotes are open. -/
inductive Mode where
  | text (inside : Bool)
  | strong
  | escaped (inside : Bool)
  /-- In a name behind a dollar sign. -/
  | name (inside : Bool) (read : List Char)
  /-- In a name between braces. -/
  | braced (inside : Bool) (read : List Char)
  /-- Behind the value. -/
  | ended
deriving DecidableEq, Repr

/-- A character of a name behind a dollar sign. -/
def isNameChar (c : Char) : Bool :=
  Text.isLetter c || Text.isDigit c || (0x80 ≤ c.toNat && !Text.isBlank c && !Text.isControl c)

/-- The value of the variable with a name; one that is not set has an empty one. -/
def valueOf (env : Environment) (name : List Char) : List Char :=
  ((env.get? (String.ofList name)).getD "").toList

/-- **Takes the characters of a value**, or nothing if they are none. -/
def readValue? (env : Environment) : Mode → List Char → Option (List Char)
  | mode, [] =>
    match mode with
    | .text false | .escaped false | .ended => some []
    | .name false name => some (valueOf env name)
    | _ => none
  | mode, c :: cs =>
    match mode with
    | .ended =>
      if c = ' ' ∨ c = '\t' then readValue? env .ended cs
      else if c = '#' then some []
      else none
    | .escaped inside =>
      if c = '\\' ∨ c = '\'' ∨ c = '"' ∨ c = '$' ∨ c = ' ' then
        (readValue? env (.text inside) cs).map (c :: ·)
      else if c = 'n' then (readValue? env (.text inside) cs).map ('\n' :: ·)
      else none
    | .strong =>
      if c = '\'' then readValue? env (.text false) cs
      else (readValue? env .strong cs).map (c :: ·)
    | .name inside name =>
      if isNameChar c then readValue? env (.name inside (name ++ [c])) cs
      else if c = '\x7b' ∧ name = [] then readValue? env (.braced inside []) cs
      else if c = '$' then
        (readValue? env (.name inside []) cs).map (valueOf env name ++ ·)
      else (readValue? env (.text inside) cs).map (valueOf env name ++ c :: ·)
    | .braced inside name =>
      if c = '\x7d' then (readValue? env (.text inside) cs).map (valueOf env name ++ ·)
      else readValue? env (.braced inside (name ++ [c])) cs
    | .text inside =>
      if c = '$' then readValue? env (.name inside []) cs
      else if c = '\\' then readValue? env (.escaped inside) cs
      else if inside then
        if c = '"' then readValue? env (.text false) cs
        else (readValue? env (.text true) cs).map (c :: ·)
      else if c = '\'' then readValue? env .strong cs
      else if c = '"' then readValue? env (.text true) cs
      else if c = ' ' ∨ c = '\t' then readValue? env .ended cs
      else (readValue? env (.text false) cs).map (c :: ·)

/-! ## Variables -/

/-- The text behind blanks. -/
def skipBlanks (cs : List Char) : List Char := cs.dropWhile Text.isBlank

/-- A name at the front of a text. -/
def readName? (cs : List Char) : Option (List Char × List Char) :=
  let isInner (c : Char) : Bool := Text.isLetter c || Text.isDigit c || c = '_' || c = '.'
  match cs with
  | c :: _ =>
    if Text.isLetter c || c = '_' then some (cs.takeWhile isInner, cs.dropWhile isInner) else none
  | [] => none

/-- The text behind an equals sign. -/
def readEquals? : List Char → Option (List Char)
  | '=' :: cs => some cs
  | _ => none

/-- A name and the text behind the equals sign that follows it. -/
def readBinding? (cs : List Char) : Option (List Char × List Char) := do
  let (name, cs) ← readName? cs
  let cs := skipBlanks cs
  match readEquals? cs with
  | some cs => return (name, cs)
  | none =>
    if name = "export".toList then
      let (name, cs) ← readName? cs
      return (name, ← readEquals? (skipBlanks cs))
    else none

/-- **The variable of a line**: `some none` if it has none, `none` if it cannot be read. -/
def readVariable? (env : Environment) (line : List Char) : Option (Option (String × String)) := do
  let cs := skipBlanks (line.reverse.dropWhile Text.isBlank).reverse
  match cs.head? with
  | none | some '#' => return none
  | some _ =>
    let (name, cs) ← readBinding? cs
    let cs := skipBlanks cs
    match cs.head? with
    | none | some '#' => return some (String.ofList name, "")
    | some _ => return some (String.ofList name, String.ofList (← readValue? env (.text false) cs))

/-- Takes the variables of lines up to the first that cannot be read. -/
def takeLines : List (Option (List Char)) → Environment → Environment
  | [], env => env
  | none :: _, env => env
  | some line :: rest, env =>
    match readVariable? env line with
    | none => env
    | some none => takeLines rest env
    | some (some (name, value)) =>
      takeLines rest (if (env.get? name).isSome then env else env ++ [(name, value)])

/-- **The environment with the variables of a file.** -/
def load (text : String) (env : Environment) : Environment :=
  let cs := match text.toList with
    | '\ufeff' :: cs => cs
    | cs => cs
  takeLines (joinLines [] .plain (physicalLines cs)) env

end SafePreview.EnvironmentFile
