import SafePreview.Markup.Token
import SafePreview.Markup.Policy

/-!
# Which tags and attributes are safe

A tag is written only if its name is a plain one and the policy permits it. An attribute has to
pass four tests in turn, and `Verdict` records which one it failed: names that start with `on`,
names that are not plain or not permitted, addresses with a scheme other than `http` and `https`,
and styles that could load or run something. Readers of markup ignore blanks and control characters
inside an address, so both tests of a value look at what is left without them.
-/

namespace SafePreview.Markup

/-- Attributes whose value is an address. -/
def addressAttributes : List String :=
  ["href", "src", "cite", "poster", "background", "longdesc", "xlink:href", "data"]

/-- Elements without content and without an end tag. -/
def voidTags : List String :=
  ["area", "base", "br", "col", "embed", "hr", "img", "input", "keygen", "link", "meta",
    "param", "source", "track", "wbr"]

/-- Whether an element has neither content nor an end tag. -/
def isVoid (name : List Char) : Bool := voidTags.contains (String.ofList name)

/-- Whether no policy lets a tag in. -/
def isStripped (name : List Char) : Bool := strippedTags.contains (String.ofList name)

/-- A character of the name of a tag. -/
def isTagNameChar (c : Char) : Bool := Text.isLowerLetter c || Text.isDigit c || c = '-'

/-- A character of the name of an attribute. -/
def isAttributeNameChar (c : Char) : Bool := isTagNameChar c || c = '_' || c = ':' || c = '.'

/-- A plain name of a tag: a letter, then letters, digits and hyphens. -/
def isTagName : List Char → Bool
  | [] => false
  | c :: cs => Text.isLowerLetter c && cs.all isTagNameChar

/-- A plain name of an attribute: a letter, then letters, digits and `-`, `_`, `:`, `.`. -/
def isAttributeName : List Char → Bool
  | [] => false
  | c :: cs => Text.isLowerLetter c && cs.all isAttributeNameChar

/-- **Whether a tag may be written.** -/
def Policy.writesTag (policy : Policy) (name : List Char) : Bool :=
  isTagName name && policy.permitsTag (String.ofList name)

/-! ## Values -/

/-- A text without blanks and control characters. -/
def condense (cs : List Char) : List Char :=
  cs.filter fun c => !Text.isBlank c && !Text.isControl c

/-- A character behind which an address has no scheme any more. -/
def endsScheme (c : Char) : Bool := c = '/' || c = '?' || c = '#'

/-- The scheme of an address without blanks, if it has one. -/
def scheme? (cs : List Char) : Option (List Char) :=
  let head := cs.takeWhile (!endsScheme ·)
  if head.contains ':' then some (head.takeWhile (· ≠ ':')) else none

/-- **Whether an address is safe**: it has no scheme, or one of two. -/
def isSafeAddress (value : List Char) : Bool :=
  match scheme? (condense value) with
  | none => true
  | some scheme =>
    lowerName scheme = ['h', 't', 't', 'p'] || lowerName scheme = ['h', 't', 't', 'p', 's']

/-- What a style must not contain, in lower case. -/
def unsafeStyles : List String :=
  ["url(", "expression(", "javascript:", "vbscript:", "@import", "behavior", "-moz-binding",
    "image(", "image-set(", "\\", "<", "/*"]

/-- **Whether a style is safe**: it contains nothing that could load or run something, in any case
of letters. -/
def isSafeStyle (value : List Char) : Bool :=
  let condensed := lowerName (condense value)
  !unsafeStyles.any fun part => Text.hasInfix part.toList condensed

/-! ## Attributes -/

/-- **What becomes of an attribute.** -/
inductive Verdict where
  | kept
  /-- It is the handler of an event. -/
  | handler
  /-- Its name is not plain or not permitted. -/
  | barred
  /-- Its value is an address that is not safe. -/
  | unsafeAddress
  /-- Its value is a style that is not safe. -/
  | unsafeStyle
deriving DecidableEq, Repr

/-- Whether the attribute was there to run something. -/
def Verdict.isScriptLike : Verdict → Bool
  | .handler => true
  | .unsafeAddress => true
  | .unsafeStyle => true
  | _ => false

/-- **What becomes of an attribute that is the first of its name.** -/
def Policy.judge (policy : Policy) (a : Attribute) : Verdict :=
  let name := String.ofList a.name
  if Policy.isHandler name then .handler
  else if !isAttributeName a.name || !policy.permitsAttribute name then .barred
  else if addressAttributes.contains name && !isSafeAddress a.value then .unsafeAddress
  else if name = "style" && !isSafeStyle a.value then .unsafeStyle
  else .kept

end SafePreview.Markup
