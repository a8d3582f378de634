import SafePreview.Markup.Token
import SafePreview.Proofs.Markup.Escaping
import SafePreview.Proofs.Text.Bytes

/-!
# Reading tokens by bytes

The stream of tokens is defined on lists of characters, where what has been read is no longer there.
A reader of a long text holds the text and a place in it instead, counted in bytes, and looks at the
bytes from there on. It then has three ways to fail that the lists do not have: it can move past the
end, it can cut a text inside a character, and a loop can fail to move at all. This module is that
reader. A function of it gives nothing where the reader would fail in one of these ways, so that it
gives something says that the reader does not. The loops are held to it by what they go on with: a
place that is farther on (`Text.onward?`), or a text that is shorter (`Text.shorter?`). One that
would go round without having moved gives nothing.

A tag or a value that the text does not finish is no failure: there the reader goes to the end and
has no token. `Reading` has both.
-/

namespace SafePreview.Markup

open Text (byte? byteSlice? place? onward? shorter? slice? walk isByteOf)

/-! ## Marks -/

/-- The byte at which a mark first stands in a text. -/
def offset? (mark : List Char) : List Char → Option Nat
  | [] => none
  | c :: cs =>
    if mark.isPrefixOf (c :: cs) then some 0 else (offset? mark cs).map (c.utf8Size + ·)

/-- The place behind the first occurrence of a mark, or the end. -/
def skipPastAt (mark : List Char) (s : String) (i : Nat) : Option Nat := do
  let rest ← slice? s i s.utf8ByteSize
  match offset? mark rest.toList with
  | some k => place? s (i + k + Text.byteLength mark)
  | none => some s.utf8ByteSize

/-- **What a reader that does not fail finds**: something, and the place that it has come to; or
nothing, if the text ends first. -/
abbrev Reading (α : Type) := Option (α × Nat)

/-! ## References -/

/-- The reference that a text starts with. Where the text behind the ampersand starts inside a
character there is none. -/
def referenceAt (s : String) : Option (Reading Char) :=
  match slice? s 1 s.utf8ByteSize with
  | none => some none
  | some behind =>
    match offset? [';'] behind.toList with
    | none => some none
    | some k =>
      if k ≤ bodyLimit then do
        let body ← slice? s 1 (k + 1)
        some ((referenced? body.toList).map (·, k + 2))
      else some none

/-- The text with its references replaced and without NUL. -/
def decodeAt (s : String) : Option (List Char) :=
  match offset? ['&'] s.toList with
  | none => some (withoutNul s.toList)
  | some k => do
    let run ← slice? s 0 k
    let rest ← slice? s k s.utf8ByteSize
    match ← referenceAt rest with
    | some (c, i) =>
      let more ← decodeAt (← shorter? s (← slice? rest i rest.utf8ByteSize))
      some (withoutNul run.toList ++ c :: more)
    | none =>
      let more ← decodeAt (← shorter? s (← slice? rest 1 rest.utf8ByteSize))
      some (withoutNul run.toList ++ '&' :: more)
termination_by s.utf8ByteSize
decreasing_by all_goals
  rename_i shorter
  exact shorter.2

/-! ## Parts of a tag -/

/-- The place behind spaces. -/
def skipSpaceAt (s : String) (i : Nat) : Option Nat := walk (isByteOf Text.isMarkupSpace) s i

/-- A character that a value can stand between. -/
def isQuote (c : Char) : Bool := c = '"' || c = '\''

/-- The value behind an equals sign. -/
def valueAt (s : String) (i : Nat) : Option (Reading (List Char)) := do
  let i ← skipSpaceAt s i
  match byte? s i with
  | none => some none
  | some b =>
    if isByteOf isQuote b then
      let start ← place? s (i + 1)
      let stop ← walk (· ≠ b) s start
      match byte? s stop with
      | none => some none
      | some _ => do
        let value ← decodeAt (← slice? s start stop)
        some (some (value, ← place? s (stop + 1)))
    else
      let stop ← walk (!isByteOf endsBareValue ·) s i
      let value ← decodeAt (← slice? s i stop)
      some (some (value, stop))

/-- The attribute whose name starts at a place. Its first byte belongs to the name, whatever it
is. -/
def attributeAt (s : String) (start : Nat) : Option (Reading Attribute) := do
  let stop ← walk (!isByteOf endsAttributeName ·) s (← place? s (start + 1))
  let name := lowerName (← slice? s start stop).toList
  let i ← skipSpaceAt s stop
  if (byte? s i).any (isByteOf (· = '=')) then
    let found ← valueAt s (← place? s (i + 1))
    some (found.map fun found => (⟨name, found.1⟩, found.2))
  else some (some (⟨name, []⟩, i))

/-- The attributes of a tag up to its `>`, and whether a `/` stands right before that. -/
def attributesAt (selfClosing : Bool) (s : String) (i : Nat) :
    Option (Reading (List Attribute × Bool)) := do
  let start ← skipSpaceAt s i
  match byte? s start with
  | none => some none
  | some b =>
    if isByteOf (· = '>') b then
      some (some (([], selfClosing), ← place? s (start + 1)))
    else if isByteOf (· = '/') b then do
      let behind ← onward? s i (start + 1)
      attributesAt ((byte? s behind).any (isByteOf (· = '>'))) s behind
    else do
      match ← attributeAt s start with
      | none => some none
      | some (a, stop) => do
        let found ← attributesAt false s (← onward? s i stop)
        some (found.map fun found => ((a :: found.1.1, found.1.2), found.2))
termination_by s.utf8ByteSize - i
decreasing_by all_goals exact Text.left_lt _

/-! ## The stream -/

/-- **Where a reader is**: a place, and the element whose content it has to pass over first. -/
structure Cursor where
  place : Nat
  rawText : Option (List Char)
deriving DecidableEq, Repr

/-- A reader that has read nothing. -/
def Cursor.start : Cursor := ⟨0, none⟩

/-- What the `<` at a place opens. -/
def openingAt (s : String) (i : Nat) : Opening :=
  match byte? s (i + 1) with
  | none => .literal
  | some b =>
    if isByteOf Text.isLetter b then .tag
    else if isByteOf (· = '/') b then
      match byte? s (i + 2) with
      | none => .literal
      | some b => if isByteOf Text.isLetter b then .tag else .ignored
    else if isByteOf (· = '!') b then
      if (Text.encode ['<', '!', '-', '-']).isPrefixOf ((Text.bytes s).drop i) then .comment
      else .ignored
    else if isByteOf (· = '?') b then .ignored
    else .literal

/-- **The tag whose `<` stands at a place**, and where the reader is behind it. -/
def tagAt (s : String) (i : Nat) : Option (Option Token × Cursor) := do
  let isEnd := (byte? s (i + 1)).any (isByteOf (· = '/'))
  let start ← place? s (if isEnd then i + 2 else i + 1)
  let stop ← walk (!isByteOf endsTagName ·) s start
  let name := lowerName (← slice? s start stop).toList
  match ← attributesAt false s stop with
  | none => some (none, ⟨s.utf8ByteSize, none⟩)
  | some ((attributes, selfClosing), i) =>
    if isEnd then some (some (.endTag name), ⟨i, none⟩)
    else
      some (some (.startTag name attributes selfClosing),
        ⟨i, if isRawText name then some name else none⟩)

/-- **The next token behind text that has been read**, and where the reader is then. -/
def textAt (text : List Char) (s : String) (i : Nat) : Option (Option Token × Cursor) :=
  if i < s.utf8ByteSize then do
    let rest ← slice? s i s.utf8ByteSize
    match offset? ['<'] rest.toList with
    | none => do
      let more ← decodeAt rest
      textAt (text ++ more) s (← onward? s i s.utf8ByteSize)
    | some 0 =>
      match openingAt s i with
      | .literal => do textAt (text ++ ['<']) s (← onward? s i (i + 1))
      | .comment => do
        let behind ← skipPastAt ['-', '-', '>'] s (← place? s (i + 4))
        textAt text s (← onward? s i behind)
      | .ignored => do textAt text s (← onward? s i (← skipPastAt ['>'] s i))
      | .tag => if text = [] then tagAt s i else some (some (.text text), ⟨i, none⟩)
    | some k => do
      let more ← decodeAt (← slice? rest 0 k)
      textAt (text ++ more) s (← onward? s i (i + k))
  else some (if text = [] then none else some (.text text), ⟨i, none⟩)
termination_by s.utf8ByteSize - i
decreasing_by all_goals exact Text.left_lt _

/-- A byte in lower case. -/
def lowerByte (b : UInt8) : UInt8 := if 0x41 ≤ b ∧ b ≤ 0x5A then b + 0x20 else b

/-- Whether the end tag of an element stands at a place, in any case of letters. -/
def closesAt (name : List Char) (s : String) (i : Nat) : Option Bool := do
  let behind := i + 2 + Text.byteLength name
  let opening ← byteSlice? s i (i + 2)
  let spelled ← byteSlice? s (i + 2) behind
  some (opening = Text.encode ['<', '/']
    && spelled.map lowerByte = (Text.encode name).map lowerByte
    && (byte? s behind).all (isByteOf endsTagName))

/-- The place of the end tag of a raw-text element, or the end. -/
def rawEndAt (name : List Char) (s : String) (i : Nat) : Option Nat :=
  if i + 2 + Text.byteLength name ≤ s.utf8ByteSize then do
    if ← closesAt name s i then some i else rawEndAt name s (← onward? s i (i + 1))
  else some s.utf8ByteSize
termination_by s.utf8ByteSize - i
decreasing_by exact Text.left_lt _

/-- The place behind the content that is passed over. -/
def Cursor.arrive (s : String) (k : Cursor) : Option Nat :=
  match k.rawText with
  | none => some k.place
  | some name =>
    if name = ['p', 'l', 'a', 'i', 'n', 't', 'e', 'x', 't'] then some s.utf8ByteSize
    else rawEndAt name s k.place

/-- **The next token**, and where the reader is then. -/
def Cursor.next (s : String) (k : Cursor) : Option (Option Token × Cursor) := do
  textAt [] s (← k.arrive s)

/-- **All tokens**, each with where the reader is behind it. -/
def Cursor.readAll (s : String) (k : Cursor) : Option (List (Token × Cursor)) := do
  match ← k.next s with
  | (none, _) => some []
  | (some t, behind) => do
    let place ← onward? s k.place behind.place
    let more ← readAll s ⟨place, behind.rawText⟩
    some ((t, behind) :: more)
termination_by s.utf8ByteSize - k.place
decreasing_by exact Text.left_lt _

end SafePreview.Markup
