import SafePreview.Json.Reader

/-!
# The parts of a TOML line

Keys, strings, numbers and dates. Each is read from the characters still to come and gives those
that remain; `none` is a text that breaks a rule of the format. A number or date is first cut out as
a whole, since nothing that may follow one can stand inside it, and has to be of one of the forms
from its first to its last character.
-/

namespace SafePreview.Toml

open Json (Value)

/-- A space or tab. -/
def isBlank (c : Char) : Bool := c = ' ' || c = '\t'

/-- The text behind spaces and tabs. -/
def skipBlanks (cs : List Char) : List Char := cs.dropWhile isBlank

/-- A character of a comment or string: a tab or anything that is no ASCII control character. -/
def isPlain (c : Char) : Bool := c = '\t' || (0x20 ≤ c.toNat && c.toNat ≠ 0x7F)

/-- The text behind the end of a line. -/
def readNewline? : List Char → Option (List Char)
  | '\n' :: cs => some cs
  | '\r' :: '\n' :: cs => some cs
  | _ => none

/-- The text behind a comment, if there is one. -/
def skipComment : List Char → List Char
  | '#' :: cs => cs.dropWhile isPlain
  | cs => cs

/-- The text behind what may follow a value on its line, and behind the line's end. -/
def readLineEnd? (cs : List Char) : Option (List Char) :=
  match skipComment (skipBlanks cs) with
  | [] => some []
  | cs => readNewline? cs

/-! ## Strings -/

/-- As many hexadecimal digits as asked for, as the character they number. -/
def readCode? (digits : Nat) (cs : List Char) : Option (Char × List Char) := do
  let code := cs.take digits
  if code.length < digits then none
  else
    let n ← Text.hexNumber? code
    if n.isValidChar then some (Char.ofNat n, cs.drop digits) else none

/-- The character that an escape stands for, from behind the backslash on. -/
def readEscape? : List Char → Option (Char × List Char)
  | 'u' :: cs => readCode? 4 cs
  | 'U' :: cs => readCode? 8 cs
  | 'b' :: cs => some ('\x08', cs)
  | 't' :: cs => some ('\t', cs)
  | 'n' :: cs => some ('\n', cs)
  | 'f' :: cs => some ('\x0c', cs)
  | 'r' :: cs => some ('\r', cs)
  | '"' :: cs => some ('"', cs)
  | '\\' :: cs => some ('\\', cs)
  | _ => none

/-- A string on one line, from behind its opening quote on. -/
def readLine? (quote : Char) (escapes : Bool) :
    Nat → List Char → List Char → Option (List Char × List Char)
  | 0, _, _ => none
  | _ + 1, _, [] => none
  | fuel + 1, read, c :: cs =>
    if c = quote then some (read.reverse, cs)
    else if escapes && c = '\\' then do
      let (char, cs) ← readEscape? cs
      readLine? quote escapes fuel (char :: read) cs
    else if isPlain c then readLine? quote escapes fuel (c :: read) cs
    else none

/-- The text behind line ends and blanks. -/
def skipLines : Nat → List Char → List Char
  | 0, cs => cs
  | fuel + 1, cs =>
    match readNewline? (skipBlanks cs) with
    | some rest => skipLines fuel rest
    | none => skipBlanks cs

/-- The text behind a line end that a backslash takes out, with all blanks and line ends that
follow. -/
def readContinuation? (cs : List Char) : Option (List Char) :=
  (readNewline? (skipBlanks cs)).map (skipLines cs.length)

/-- A string over several lines, from behind its opening quotes on. Of a run of three quotes or more
the last three close it, and at most two may stand before them. -/
def readLines? (quote : Char) (escapes : Bool) :
    Nat → List Char → List Char → Option (List Char × List Char)
  | 0, _, _ => none
  | _ + 1, _, [] => none
  | fuel + 1, read, c :: cs =>
    if c = quote then
      let run := ((c :: cs).takeWhile (· = quote)).length
      if 3 ≤ run then
        some (read.reverse ++ List.replicate (min (run - 3) 2) quote, (c :: cs).drop (min run 5))
      else readLines? quote escapes fuel (c :: read) cs
    else if escapes && c = '\\' then
      match readContinuation? cs with
      | some cs => readLines? quote escapes fuel read cs
      | none => do
        let (char, cs) ← readEscape? cs
        readLines? quote escapes fuel (char :: read) cs
    else
      match readNewline? (c :: cs) with
      | some cs => readLines? quote escapes fuel ('\n' :: read) cs
      | none => if isPlain c then readLines? quote escapes fuel (c :: read) cs else none

/-- **A string** from its opening quote on. Behind three quotes a line end does not count. -/
def readString? (cs : List Char) : Option (String × List Char) :=
  let text (found : Option (List Char × List Char)) : Option (String × List Char) :=
    found.map fun f => (String.ofList f.1, f.2)
  match cs with
  | [] => none
  | quote :: cs =>
    let escapes : Bool := quote = '"'
    if cs.take 2 = [quote, quote] then
      let body := cs.drop 2
      text (readLines? quote escapes (cs.length + 1) [] ((readNewline? body).getD body))
    else text (readLine? quote escapes (cs.length + 1) [] cs)

/-! ## Keys -/

/-- A character of a key without quotes. -/
def isBareChar (c : Char) : Bool :=
  Text.isLetter c || Text.isDigit c || c = '_' || c = '-'

/-- A part of a key between dots. -/
def readKeyPart? (cs : List Char) : Option (String × List Char) :=
  match cs with
  | [] => none
  | c :: rest =>
    if c = '"' ∨ c = '\'' then
      (readLine? c (c = '"') (rest.length + 1) [] rest).map fun f => (String.ofList f.1, f.2)
    else if isBareChar c then
      some (String.ofList (cs.takeWhile isBareChar), cs.dropWhile isBareChar)
    else none

/-- How many parts a key and how many brackets around a value there have to be fewer than. -/
def depthLimit : Nat := 80

/-- The parts of a key, with the blanks around them. -/
def readKeyParts? : Nat → List Char → Option (List String × List Char)
  | 0, _ => none
  | fuel + 1, cs => do
    let (part, cs) ← readKeyPart? (skipBlanks cs)
    match skipBlanks cs with
    | '.' :: cs =>
      let (parts, cs) ← readKeyParts? fuel cs
      return (part :: parts, cs)
    | cs => return ([part], cs)

/-- **A key**: its parts, of which there is at least one. -/
def readKey? (cs : List Char) : Option (List String × List Char) :=
  readKeyParts? (depthLimit - 1) cs

/-! ## Numbers and dates -/

/-- Digits with single underscores between them, without these. -/
def digits? (isDigit : Char → Bool) (cs : List Char) : Option (List Char) :=
  let parts := cs.splitOn '_'
  if parts.all fun part => !part.isEmpty && part.all isDigit then some parts.flatten else none

/-- The digits of a whole number, which has no leading zero. -/
def wholeDigits? (cs : List Char) : Option (List Char) :=
  match digits? Text.isDigit cs with
  | some ['0'] => some ['0']
  | some ('0' :: _) => none
  | found => found

/-- A sign if there is one. -/
def readSign : List Char → Bool × List Char
  | '-' :: cs => (true, cs)
  | '+' :: cs => (false, cs)
  | cs => (false, cs)

/-- A whole number of 64 bits with a sign. -/
def inRange? (n : Int) : Option Value :=
  if -Int.pow 2 63 ≤ n ∧ n < Int.pow 2 63 then some (.ofInt n) else none

/-- The number that digits to a base spell. -/
def inBase? (base : Nat) (cs : List Char) : Option Value := do
  let isDigit (c : Char) : Bool := match Text.hexValue? c with
    | some n => n < base
    | none => false
  let digits ← digits? isDigit cs
  inRange? (digits.foldl (fun n c => n * base + (Text.hexValue? c).getD 0) 0)

/-- A whole number. -/
def integer? (cs : List Char) : Option Value :=
  match cs with
  | '0' :: 'x' :: cs => inBase? 16 cs
  | '0' :: 'o' :: cs => inBase? 8 cs
  | '0' :: 'b' :: cs => inBase? 2 cs
  | cs => do
    let (negative, body) := readSign cs
    let n ← Text.decimalNumber? (← wholeDigits? body)
    inRange? (if negative then -n else n)

/-- A character of a run of digits. -/
def isRunChar (c : Char) : Bool := Text.isDigit c || c = '_'

/-- The exponent of a number if there is one: whether it is below zero, and its digits' value. -/
def exponent? : List Char → Option (Option (Bool × Nat))
  | [] => some none
  | c :: cs => do
    if c = 'e' ∨ c = 'E' then
      let (below, body) := readSign cs
      return some (below, ← Text.decimalNumber? (← digits? Text.isDigit body))
    else none

/-- A number with a point or an exponent. One that is too large is no number, but one that is too
small is minus infinity. -/
def float? (cs : List Char) : Option Value := do
  let (negative, body) := readSign cs
  if body = ['i', 'n', 'f'] then
    return .number (.double (if negative then -1 / 0 else 1 / 0))
  else if body = ['n', 'a', 'n'] then
    return .number (.double (0 / 0))
  else
    let whole ← wholeDigits? (body.takeWhile isRunChar)
    let rest := body.dropWhile isRunChar
    let (fraction, rest) ← match rest with
      | '.' :: rest => do
        let digits ← digits? Text.isDigit (rest.takeWhile isRunChar)
        pure (digits, rest.dropWhile isRunChar)
      | [] => none
      | rest => pure ([], rest)
    let exponent ← exponent? rest
    match Json.double? negative ((Json.Digits.whole 0 whole).fraction fraction) exponent with
    | some x => return .number (.double x)
    | none => if negative then return .number (.double (-1 / 0)) else none

/-- A number of so many digits within bounds, and what is behind it. -/
def bounded? (digits low high : Nat) (cs : List Char) : Option (Nat × List Char) := do
  let code := cs.take digits
  if code.length < digits then none
  else
    let n ← Text.decimalNumber? code
    if low ≤ n ∧ n ≤ high then some (n, cs.drop digits) else none

/-- The text behind a given character. -/
def expect? (wanted : Char) : List Char → Option (List Char)
  | c :: cs => if c = wanted then some cs else none
  | [] => none

/-- How many days a month has. -/
def daysIn (year month : Nat) : Nat :=
  if month = 2 then
    if year % 4 = 0 ∧ (year % 100 ≠ 0 ∨ year % 400 = 0) then 29 else 28
  else if month = 4 ∨ month = 6 ∨ month = 9 ∨ month = 11 then 30
  else 31

/-- The text behind a date. -/
def readDate? (cs : List Char) : Option (List Char) := do
  let (year, cs) ← bounded? 4 0 9999 cs
  let (month, cs) ← bounded? 2 1 12 (← expect? '-' cs)
  let (_, cs) ← bounded? 2 1 (daysIn year month) (← expect? '-' cs)
  return cs

/-- The text behind a time of day. -/
def readTime? (cs : List Char) : Option (List Char) := do
  let (_, cs) ← bounded? 2 0 23 cs
  let (_, cs) ← bounded? 2 0 59 (← expect? ':' cs)
  let (_, cs) ← bounded? 2 0 60 (← expect? ':' cs)
  match cs with
  | '.' :: rest =>
    if (rest.takeWhile Text.isDigit).isEmpty then none else some (rest.dropWhile Text.isDigit)
  | cs => some cs

/-- The text behind an offset from universal time, if there is one. -/
def skipOffset? (cs : List Char) : Option (List Char) :=
  match cs with
  | [] => some []
  | c :: rest =>
    if c = 'Z' ∨ c = 'z' then some rest
    else if c = '+' ∨ c = '-' then do
      let (_, rest) ← bounded? 2 0 23 rest
      let (_, rest) ← bounded? 2 0 59 (← expect? ':' rest)
      return rest
    else none

/-- A date: a value unlike any text or number. -/
def dateValue (cs : List Char) : Value := .object [("date", .string (String.ofList cs))]

/-- A date, a time of day or both, from its first to its last character. -/
def date? (cs : List Char) : Option Value :=
  match readDate? cs with
  | some [] => some (dateValue cs)
  | some (c :: rest) => do
    if c = 'T' ∨ c = 't' ∨ c = ' ' then
      let [] ← skipOffset? (← readTime? rest) | none
      return dateValue cs
    else none
  | none => do
    let [] ← readTime? cs | none
    return dateValue cs

/-- A character of a number, date or word. -/
def isTokenChar (c : Char) : Bool :=
  Text.isLetter c || Text.isDigit c || c = '_' || c = '+' || c = '-' || c = '.' || c = ':'

/-- The characters of a number, date or word. A space may stand between a date and a time. -/
def spanToken (cs : List Char) : List Char × List Char :=
  let token := cs.takeWhile isTokenChar
  let rest := cs.dropWhile isTokenChar
  match readDate? token, rest with
  | some [], ' ' :: c :: more =>
    if Text.isDigit c then
      (token ++ ' ' :: (c :: more).takeWhile isTokenChar, (c :: more).dropWhile isTokenChar)
    else (token, rest)
  | _, _ => (token, rest)

/-- **A word, number or date.** -/
def readToken? (cs : List Char) : Option (Value × List Char) := do
  let (token, rest) := spanToken cs
  let value ←
    if token = ['t', 'r', 'u', 'e'] then some (.bool true)
    else if token = ['f', 'a', 'l', 's', 'e'] then some (.bool false)
    else date? token <|> float? token <|> integer? token
  return (value, rest)

end SafePreview.Toml
