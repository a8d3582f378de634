import SafePreview.Json.Tree
import SafePreview.Text.Character

/-!
# Reading JSON text

`Tree.ofText` reads a text into a tree and says how the text ends behind it. Every step takes the
characters still to be read and gives those that remain, or the fault at which the text breaks off;
a step that reads anything leaves a shorter rest, so the length of the text bounds the depth of the
recursion.

A number without point or exponent is whole as long as its digits fit 64 bits. Any other is a
double: as many leading digits as fit 64 bits, scaled by one power of ten in double arithmetic.
-/

namespace SafePreview.Json

/-- What is left to read, or the fault at which the text breaks off. -/
abbrev Rest := Except Fault (List Char)

/-- A blank of the format. -/
def isSpace (c : Char) : Bool := c = ' ' || c = '\n' || c = '\t' || c = '\r'

/-- The text behind blanks. -/
def skipSpace (cs : List Char) : List Char := cs.dropWhile isSpace

/-- The text behind a fixed word. -/
def readWord : List Char → List Char → Rest
  | [], cs => .ok cs
  | _ :: _, [] => .error .eof
  | w :: ws, c :: cs => if c = w then readWord ws cs else .error .malformed

/-! ## Numbers -/

/-- One more than the largest number of 64 bits. -/
def wordLimit : Nat := Nat.pow 2 64

/-- The powers of ten that one division or multiplication covers. -/
def largestPower : Nat := 308

/-- The double nearest to a power of ten. -/
def powerOfTen (n : Nat) : Float := Float.ofScientific 1 false n

/-- **A double scaled by a power of ten**, or nothing if the result is no finite number. -/
def scale (f : Float) (exponent : Int) : Option Float :=
  if exponent.natAbs ≤ largestPower then
    if 0 ≤ exponent then
      let scaled := f * powerOfTen exponent.natAbs
      if scaled.isInf then none else some scaled
    else some (f / powerOfTen exponent.natAbs)
  else if f == 0 then some f
  else if 0 ≤ exponent then none
  else scale (f / powerOfTen largestPower) (exponent + largestPower)
termination_by exponent.natAbs
decreasing_by simp only [largestPower] at *; omega

/-- The leading digits of a double: those that fit 64 bits, and the power of ten that stands for
the rest. -/
structure Digits where
  value : Nat
  exponent : Int

/-- Takes one more digit in front of the point. After the first that does not fit, every further
one counts as a power of ten. -/
def Digits.whole (value : Nat) : List Char → Digits
  | [] => ⟨value, 0⟩
  | c :: cs =>
    let next := value * 10 + (c.toNat - '0'.toNat)
    if next < wordLimit then whole next cs else ⟨value, (c :: cs).length⟩

/-- Takes the digits behind the point up to the first that does not fit. -/
def Digits.fraction (d : Digits) : List Char → Digits
  | [] => d
  | c :: cs =>
    let next := d.value * 10 + (c.toNat - '0'.toNat)
    if next < wordLimit then fraction ⟨next, d.exponent - 1⟩ cs else d

/-- The largest exponent that is read as a number. -/
def exponentLimit : Nat := Nat.pow 2 31

/-- A sum held between the bounds of 32 bits. -/
def clampExponent (n : Int) : Int :=
  if n < -exponentLimit then -exponentLimit
  else if (exponentLimit : Int) ≤ n then exponentLimit - 1
  else n

/-- **The double that the parts of a number spell**, or nothing beyond the largest. -/
def double? (negative : Bool) (d : Digits) (exponent : Option (Bool × Nat)) : Option Float :=
  let magnitude : Option Float :=
    match exponent with
    | none => scale (Float.ofNat d.value) d.exponent
    | some (below, size) =>
      if exponentLimit ≤ size then
        if d.value = 0 ∨ below then some 0 else none
      else
        let total := if below then d.exponent - size else d.exponent + size
        scale (Float.ofNat d.value) (clampExponent total)
  magnitude.map fun x => if negative then -x else x

/-- The digits at the front of a text, and what is behind them. -/
def spanDigits (cs : List Char) : List Char × List Char :=
  (cs.takeWhile Text.isDigit, cs.dropWhile Text.isDigit)

/-- A run of at least one digit. -/
def readDigits (cs : List Char) : Except Fault (List Char × List Char) :=
  match spanDigits cs with
  | ([], []) => .error .eof
  | ([], _ :: _) => .error .malformed
  | found => .ok found

/-- The exponent of a number if one follows: whether it is below zero, and its digits' value. -/
def readExponent : List Char → Except Fault (Option (Bool × Nat) × List Char)
  | c :: cs =>
    if c = 'e' ∨ c = 'E' then do
      let (below, cs) := match cs with
        | '+' :: cs => (false, cs)
        | '-' :: cs => (true, cs)
        | cs => (false, cs)
      let (digits, cs) ← readDigits cs
      return (some (below, (Text.decimalNumber? digits).getD 0), cs)
    else .ok (none, c :: cs)
  | [] => .ok (none, [])

/-- The digits behind a point if one follows. -/
def readFraction : List Char → Except Fault (Option (List Char) × List Char)
  | '.' :: cs => do
    let (digits, cs) ← readDigits cs
    return (some digits, cs)
  | cs => .ok (none, cs)

/-- The digits before the point: a zero alone or a run that starts with another digit. -/
def readWhole : List Char → Except Fault (List Char × List Char)
  | [] => .error .eof
  | '0' :: c :: cs => if Text.isDigit c then .error .malformed else .ok (['0'], c :: cs)
  | '0' :: [] => .ok (['0'], [])
  | cs => readDigits cs

/-- The tree of a number from its parts. A minus zero is a double. -/
def numberTree (negative : Bool) (whole : List Char) (fraction : Option (List Char))
    (exponent : Option (Bool × Nat)) : Tree :=
  let size := (Text.decimalNumber? whole).getD 0
  let leading := Digits.whole 0 whole
  let asDouble (d : Digits) : Tree :=
    match double? negative d exponent with
    | some x => .number (.double x)
    | none => .unreadable none
  match fraction, exponent with
  | none, none =>
    if wordLimit ≤ size then asDouble leading
    else if negative then
      if size = 0 ∨ Nat.pow 2 63 < size then asDouble leading else .number (.integer (-size))
    else .number (.integer size)
  | none, some _ => asDouble leading
  | some digits, _ => asDouble (leading.fraction digits)

/-- A number from its first character on. -/
def readNumber (cs : List Char) : Tree × Rest :=
  let read : Except Fault (Tree × List Char) := do
    let (negative, cs) := match cs with
      | '-' :: cs => (true, cs)
      | cs => (false, cs)
    let (whole, cs) ← readWhole cs
    let (fraction, cs) ← readFraction cs
    let (exponent, cs) ← readExponent cs
    return (numberTree negative whole fraction exponent, cs)
  match read with
  | .ok (tree, cs) => (tree, .ok cs)
  | .error fault => (.broken fault, .error fault)

/-! ## Strings -/

/-- The four hexadecimal digits behind an escape: their number, and what is behind them. A text
with fewer than four bytes left ends too early, whatever they are. -/
def readUnit (cs : List Char) : Except Fault (Nat × List Char) :=
  if Text.byteLength (cs.take 4) < 4 then .error .eof
  else match Text.hexNumber? (cs.take 4) with
    | some n => if (cs.take 4).length = 4 then .ok (n, cs.drop 4) else .error .malformed
    | none => .error .malformed

/-- A character given by one unit or by a surrogate pair. `none` is half a pair. -/
def readEscapedUnit (cs : List Char) : Except Fault (Option Char × List Char) := do
  let (first, cs) ← readUnit cs
  if first < 0xD800 ∨ 0xDFFF < first then return (some (Char.ofNat first), cs)
  else if 0xDC00 ≤ first then return (none, cs)
  else match cs with
    | '\\' :: 'u' :: rest =>
      let (second, rest) ← readUnit rest
      if 0xDC00 ≤ second ∧ second ≤ 0xDFFF then
        return (some (Char.ofNat ((first - 0xD800) * 0x400 + (second - 0xDC00) + 0x10000)), rest)
      else return (none, cs)
    | _ => return (none, cs)

/-- What an escape letter stands for. -/
def escaped? (c : Char) : Option Char :=
  if c = '"' ∨ c = '\\' ∨ c = '/' then some c
  else if c = 'b' then some '\x08'
  else if c = 'f' then some '\x0c'
  else if c = 'n' then some '\n'
  else if c = 'r' then some '\r'
  else if c = 't' then some '\t'
  else none

/-- The characters up to the closing quote, in reverse behind `read`. They are `none` once half a
surrogate pair was among them, also where the text breaks off later. -/
def readCharacters : Nat → Option (List Char) → List Char → Option (List Char) × Rest
  | 0, read, _ => (read, .error .eof)
  | _ + 1, read, [] => (read, .error .eof)
  | fuel + 1, read, c :: cs =>
    if c = '"' then (read, .ok cs)
    else if c = '\\' then
      match cs with
      | [] => (read, .error .eof)
      | 'u' :: cs =>
        match readEscapedUnit cs with
        | .ok (unit, cs) => readCharacters fuel (do return (← unit) :: (← read)) cs
        | .error fault => (read, .error fault)
      | e :: cs =>
        match escaped? e with
        | some char => readCharacters fuel (read.map (char :: ·)) cs
        | none => (read, .error .malformed)
    else if c.toNat < 0x20 then (read, .error .malformed)
    else readCharacters fuel (read.map (c :: ·)) cs

/-- A string from behind its opening quote on; `none` if it denotes no text. -/
def readString (cs : List Char) : Option String × Rest :=
  let (read, rest) := readCharacters (cs.length + 1) (some []) cs
  (read.map fun chars => String.ofList chars.reverse, rest)

/-! ## Values -/

/-- How many brackets may stand around a value. -/
def depthLimit : Nat := 127

/-- A bracketed tree, unreadable where it is nested too deeply. -/
def bracketed (depth : Nat) (tree : Tree) : Tree :=
  if depth < depthLimit then tree
  else .unreadable (match tree.skip with
    | .ok () => none
    | .error fault => some fault)

mutual

/-- A value from its first character or the blanks before it on, inside `depth` brackets. -/
def readTree (fuel depth : Nat) (cs : List Char) : Tree × Rest :=
  match fuel with
  | 0 => (.broken .eof, .error .eof)
  | fuel + 1 =>
    let word (letters : List Char) (tree : Tree) (cs : List Char) : Tree × Rest :=
      match readWord letters cs with
      | .ok cs => (tree, .ok cs)
      | .error fault => (.broken fault, .error fault)
    match skipSpace cs with
    | [] => (.broken .eof, .error .eof)
    | 'n' :: cs => word ['u', 'l', 'l'] .null cs
    | 't' :: cs => word ['r', 'u', 'e'] (.bool true) cs
    | 'f' :: cs => word ['a', 'l', 's', 'e'] (.bool false) cs
    | '"' :: cs =>
      match readString cs with
      | (some s, .ok cs) => (.string s, .ok cs)
      | (none, .ok cs) => (.unreadable none, .ok cs)
      | (some _, .error fault) => (.broken fault, .error fault)
      | (none, .error fault) => (.unreadable (some fault), .error fault)
    | '[' :: cs =>
      let (items, ending, rest) := readItems fuel (depth + 1) true cs
      (bracketed depth (.array items ending), rest)
    | '\x7b' :: cs =>
      let (members, ending, rest) := readMembers fuel (depth + 1) true cs
      (bracketed depth (.object members ending), rest)
    | c :: cs =>
      if c = '-' ∨ Text.isDigit c then readNumber (c :: cs)
      else (.broken .malformed, .error .malformed)

/-- The items of an array; `first` if none was read yet. -/
def readItems (fuel depth : Nat) (first : Bool) (cs : List Char) : List Tree × Ending × Rest :=
  match fuel with
  | 0 => ([], .cut .eof, .error .eof)
  | fuel + 1 =>
    let item (cs : List Char) : List Tree × Ending × Rest :=
      match readTree fuel depth cs with
      | (tree, .error fault) => ([tree], .cut fault, .error fault)
      | (tree, .ok cs) =>
        let (items, ending, rest) := readItems fuel depth false cs
        (tree :: items, ending, rest)
    match skipSpace cs with
    | [] => ([], .cut .eof, .error .eof)
    | c :: cs =>
      if c = ']' then ([], .closed, .ok cs)
      else if first then item (c :: cs)
      else if c = ',' then
        match skipSpace cs with
        | ']' :: _ => ([.broken .malformed], .cut .malformed, .error .malformed)
        | cs => item cs
      else ([], .cut .malformed, .error .malformed)

/-- The members of an object; `first` if none was read yet. -/
def readMembers (fuel depth : Nat) (first : Bool) (cs : List Char) :
    List (Option String × Tree) × Ending × Rest :=
  match fuel with
  | 0 => ([], .cut .eof, .error .eof)
  | fuel + 1 =>
    let cut (fault : Fault) : List (Option String × Tree) × Ending × Rest :=
      ([], .cut fault, .error fault)
    let member (cs : List Char) : List (Option String × Tree) × Ending × Rest :=
      match readString cs with
      | (some _, .error fault) => cut fault
      | (none, .error fault) => ([(none, .broken fault)], .cut fault, .error fault)
      | (key, .ok cs) =>
        match skipSpace cs with
        | [] => ([(key, .broken .eof)], .cut .eof, .error .eof)
        | ':' :: cs =>
          match readTree fuel depth cs with
          | (tree, .error fault) => ([(key, tree)], .cut fault, .error fault)
          | (tree, .ok cs) =>
            let (members, ending, rest) := readMembers fuel depth false cs
            ((key, tree) :: members, ending, rest)
        | _ :: _ => ([(key, .broken .malformed)], .cut .malformed, .error .malformed)
    match skipSpace cs with
    | [] => cut .eof
    | c :: cs =>
      if c = '\x7d' then ([], .closed, .ok cs)
      else if first then
        if c = '"' then member cs else cut .malformed
      else if c = ',' then
        match skipSpace cs with
        | '"' :: cs => member cs
        | [] => cut .eof
        | _ :: _ => cut .malformed
      else cut .malformed

end

/-- **A text as a tree**, and the fault behind it if the text does not end with the tree. -/
def Tree.ofText (text : String) : Tree × Except Fault Unit :=
  let cs := text.toList
  match readTree (cs.length + 1) 0 cs with
  | (tree, .error fault) => (tree, .error fault)
  | (tree, .ok rest) => (tree, if (skipSpace rest).isEmpty then .ok () else .error .malformed)

/-- **The value of a text.** -/
def Value.ofText (text : String) : Except Fault Value := do
  let (tree, ending) := Tree.ofText text
  let value ← tree.value
  ending
  return value

end SafePreview.Json
