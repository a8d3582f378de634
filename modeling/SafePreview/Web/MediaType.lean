import SafePreview.Text.Character

/-!
# Media types

A media type is a type and a subtype, with a suffix behind the last `+` of the subtype, and
parameters behind it. All but the parameters counts, in either case of letters; the parameters only
have to be well formed, and `Parameter.step` reads them character by character.
-/

namespace SafePreview

/-- **A media type**, in lower case and without its parameters. -/
structure MediaType where
  type : String
  subtype : String
  suffix : Option String
deriving DecidableEq, Repr

namespace MediaType

/-- A character of a name in a media type. -/
def isTokenChar (c : Char) : Bool :=
  Text.isLetter c || Text.isDigit c || "!#$%&'*+-.^_\x60|~".toList.contains c

/-- A character between the quotes of a parameter. -/
def isQuotedChar (c : Char) : Bool := ' ' ≤ c && c ≤ '~'

/-- Where a reader of parameters is. -/
inductive Parameter where
  /-- In front of a name. -/
  | outside
  | name
  /-- In front of a value. -/
  | equals
  | value
  /-- Behind an opening quote. -/
  | opened
  | quoted
  /-- Behind a closing quote. -/
  | closed
deriving DecidableEq, Repr

namespace Parameter

/-- Reads one character of the parameters. -/
def step : Parameter → Char → Option Parameter
  | .outside, c => if c = ' ' then some .outside else if isTokenChar c then some .name else none
  | .name, c => if c = '=' then some .equals else if isTokenChar c then some .name else none
  | .equals, c => if c = '"' then some .opened else if isTokenChar c then some .value else none
  | .value, c => if c = ';' then some .outside else if isTokenChar c then some .value else none
  | .opened, c => if isQuotedChar c then some .quoted else none
  | .quoted, c => if c = '"' then some .closed else if isQuotedChar c then some .quoted else none
  | .closed, c => if c = ';' then some .outside else if c = ' ' then some .closed else none

/-- Whether the parameters may end here. -/
def isEnd : Parameter → Bool
  | .outside | .equals | .value | .closed => true
  | .name | .opened | .quoted => false

/-- Whether characters are well-formed parameters. -/
def accepts : Parameter → List Char → Bool
  | p, [] => p.isEnd
  | p, c :: rest =>
    match p.step c with
    | some p => p.accepts rest
    | none => false

end Parameter

/-- A subtype and its suffix. -/
def splitSuffix (cs : List Char) : List Char × Option (List Char) :=
  let suffix := (cs.reverse.takeWhile (· ≠ '+')).reverse
  let front := cs.take (cs.length - suffix.length - 1)
  if suffix.length < cs.length ∧ !front.isEmpty then (front, some suffix) else (cs, none)

/-- **The media type that a text spells.** -/
def ofString? (s : String) : Option MediaType :=
  let cs := s.toList
  let type := cs.takeWhile (· ≠ '/')
  let behind := (cs.dropWhile (· ≠ '/')).drop 1
  let subtype := behind.takeWhile (· ≠ ';')
  let parameters := (behind.dropWhile (· ≠ ';')).drop 1
  if !type.isEmpty && !subtype.isEmpty && type.all isTokenChar && subtype.all isTokenChar
      && cs.contains '/' && Parameter.outside.accepts parameters then
    let (front, suffix) := splitSuffix subtype
    let write (cs : List Char) : String := Text.lower (String.ofList cs)
    some ⟨write type, write front, suffix.map write⟩
  else none

/-- **Whether a body of this type is JSON.** -/
def isJson (m : MediaType) : Bool :=
  m.type = "application" && (m.subtype = "json" || m.suffix = some "json")

end MediaType

end SafePreview
