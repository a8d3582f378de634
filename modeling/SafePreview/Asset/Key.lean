import SafePreview.Text.Character

/-!
# Asset keys

A key names an asset: one or more segments between slashes, each made of ASCII letters, digits, `.`,
`_` and `-` and not starting with a dot. So a key is a path downwards in any reading of paths,
before anything is looked up. `KeyDefect` lists what can be wrong with a text, and `KeyDefect.find?`
gives the first defect in a fixed order: those of the text as a whole, then those of its segments
from the left.
-/

namespace SafePreview

/-- **What is wrong with a key.** -/
inductive KeyDefect where
  | empty
  | tooLong
  | controlCharacter
  | backslash
  | absolute
  | drivePrefix
  | emptySegment
  | relativeSegment
  | hiddenSegment
  | unsupportedCharacter
deriving DecidableEq, Repr

namespace KeyDefect

/-- The words for a defect. -/
def message : KeyDefect → String
  | .empty => "empty key"
  | .tooLong => "key too long"
  | .controlCharacter => "control character"
  | .backslash => "backslash"
  | .absolute => "absolute key"
  | .drivePrefix => "drive prefix"
  | .emptySegment => "empty segment"
  | .relativeSegment => "relative segment"
  | .hiddenSegment => "hidden segment"
  | .unsupportedCharacter => "unsupported character"

/-- A character of a key. -/
def isKeyChar (c : Char) : Bool :=
  Text.isLetter c || Text.isDigit c || c = '.' || c = '_' || c = '-'

/-- The defect of a segment. -/
def ofSegment? (segment : List Char) : Option KeyDefect :=
  if segment = [] then some .emptySegment
  else if segment = ['.'] ∨ segment = ['.', '.'] then some .relativeSegment
  else if segment.head? = some '.' then some .hiddenSegment
  else if !segment.all isKeyChar then some .unsupportedCharacter
  else none

/-- Whether a text starts with the letter of a drive. -/
def hasDrive : List Char → Bool
  | c :: ':' :: _ => Text.isLetter c
  | _ => false

/-- The most bytes a key may have. -/
def maxBytes : Nat := 512

/-- **The first defect of a text as a key.** -/
def find? (cs : List Char) : Option KeyDefect :=
  if cs = [] then some .empty
  else if maxBytes < Text.byteLength cs then some .tooLong
  else if cs.any Text.isControl then some .controlCharacter
  else if cs.contains '\\' then some .backslash
  else if cs.head? = some '/' then some .absolute
  else if hasDrive cs then some .drivePrefix
  else (cs.splitOn '/').findSome? ofSegment?

end KeyDefect

/-- **An asset key.** -/
structure AssetKey where
  chars : List Char
  sound : KeyDefect.find? chars = none

namespace AssetKey

/-- **A key from text**, or what is wrong with it. -/
def ofString (text : String) : Except KeyDefect AssetKey :=
  match h : KeyDefect.find? text.toList with
  | none => .ok ⟨text.toList, h⟩
  | some defect => .error defect

/-- The key as text. -/
def text (key : AssetKey) : String := String.ofList key.chars

/-- The segments of a key. -/
def segments (key : AssetKey) : List (List Char) := key.chars.splitOn '/'

/-- **The names that a key goes down through.** -/
def names (key : AssetKey) : List String := key.segments.map String.ofList

/-- The last segment of a key. -/
def fileName (key : AssetKey) : List Char := key.segments.getLastD []

/-- What stands behind the last dot of the last segment, in lower case. -/
def extension? (key : AssetKey) : Option String :=
  let parts := key.fileName.splitOn '.'
  let last := parts.getLastD []
  if parts.length ≤ 1 ∨ last = [] then none else some (String.ofList (last.map Char.toLower))

/-- Content types by extension. -/
def contentTypes : List (String × String) :=
  [("png", "image/png"), ("jpg", "image/jpeg"), ("jpeg", "image/jpeg"), ("gif", "image/gif"),
    ("webp", "image/webp"), ("svg", "image/svg+xml"), ("ico", "image/x-icon"),
    ("bmp", "image/bmp"), ("mp3", "audio/mpeg"), ("wav", "audio/wav"), ("ogg", "audio/ogg"),
    ("mp4", "video/mp4"), ("webm", "video/webm"), ("woff2", "font/woff2"), ("css", "text/css"),
    ("txt", "text/plain")]

/-- **The content type of a key**, by its extension alone. An unknown extension says nothing. -/
def contentType (key : AssetKey) : String :=
  (key.extension?.bind fun e => List.lookup e contentTypes).getD "application/octet-stream"

end AssetKey

end SafePreview
