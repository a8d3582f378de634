/-!
# Character classes and case

Three readings of "a character that does not count" are in use, and they are different sets.
`isBlank` is the Unicode property White_Space, which trimming removes; `isControl` is the general
category of control characters; `isMarkupSpace` is the short list that separates the parts of a
tag. Case is folded in ASCII only, so a name keeps every other letter as written.
-/

namespace SafePreview.Text

/-- The ranges of the property White_Space, ascending. -/
def blankRanges : List (Nat × Nat) :=
  [(0x09, 0x0D), (0x20, 0x20), (0x85, 0x85), (0xA0, 0xA0), (0x1680, 0x1680), (0x2000, 0x200A),
    (0x2028, 0x2029), (0x202F, 0x202F), (0x205F, 0x205F), (0x3000, 0x3000)]

/-- **A blank**: a character with the property White_Space. -/
def isBlank (c : Char) : Bool :=
  blankRanges.any fun range => range.1 ≤ c.toNat && c.toNat ≤ range.2

/-- **A control character**: the codes below the space, and those from DEL to U+009F. -/
def isControl (c : Char) : Bool :=
  c.toNat < 0x20 || (0x7F ≤ c.toNat && c.toNat ≤ 0x9F)

/-- A character that can be seen is neither a blank nor a control character. -/
theorem not_isBlank_not_isControl {c : Char} (hlow : 0x21 ≤ c.toNat) (hhigh : c.toNat ≤ 0x7E) :
    isBlank c = false ∧ isControl c = false := by
  have houtside : ∀ range ∈ blankRanges, range.2 < 0x21 ∨ 0x7E < range.1 := by decide
  constructor
  · refine List.any_eq_false.2 fun range hrange hin => ?_
    have hout := houtside range hrange
    rw [Bool.and_eq_true, decide_eq_true_iff, decide_eq_true_iff] at hin
    omega
  · rw [isControl, Bool.or_eq_false_iff, Bool.and_eq_false_iff, decide_eq_false_iff_not,
      decide_eq_false_iff_not, decide_eq_false_iff_not]
    omega

/-- Space, tab, line feed, carriage return and form feed: what separates the parts of a tag. -/
def isMarkupSpace (c : Char) : Bool :=
  c = ' ' || c = '\t' || c = '\n' || c = '\r' || c = '\x0c'

/-- An ASCII lower-case letter. -/
def isLowerLetter (c : Char) : Bool := 'a' ≤ c && c ≤ 'z'

/-- An ASCII letter of either case. -/
def isLetter (c : Char) : Bool := isLowerLetter c || ('A' ≤ c && c ≤ 'Z')

theorem isLetter_iff {c : Char} :
    isLetter c = true ↔ ('a' ≤ c ∧ c ≤ 'z') ∨ ('A' ≤ c ∧ c ≤ 'Z') := by
  simp only [isLetter, isLowerLetter, Bool.or_eq_true, Bool.and_eq_true, decide_eq_true_iff]

/-- An ASCII digit. -/
def isDigit (c : Char) : Bool := '0' ≤ c && c ≤ '9'

/-- Letters and digits of ASCII. -/
theorem isLetter_or_isDigit (c : Char) : (isLetter c || isDigit c) = c.isAlphanum := by
  have hupper : (decide ('A' ≤ c) && decide (c ≤ 'Z')) = c.isUpper := (Bool.decide_and _ _).symm
  show (c.isLower || (decide ('A' ≤ c) && decide (c ≤ 'Z')) || c.isDigit)
    = (c.isUpper || c.isLower || c.isDigit)
  rw [hupper, Bool.or_comm c.isLower]

/-- They lie between the first digit and the last lower-case letter. -/
theorem toNat_of_isAlphanum {c : Char} (h : c.isAlphanum = true) :
    0x30 ≤ c.toNat ∧ c.toNat ≤ 0x7A := by
  rw [← isLetter_or_isDigit] at h
  simp only [isLetter, isLowerLetter, isDigit, Bool.or_eq_true, Bool.and_eq_true,
    decide_eq_true_eq] at h
  change ((97 ≤ c.toNat ∧ c.toNat ≤ 122) ∨ (65 ≤ c.toNat ∧ c.toNat ≤ 90))
    ∨ (48 ≤ c.toNat ∧ c.toNat ≤ 57) at h
  omega

/-- The value of a hexadecimal digit, in either case. -/
def hexValue? (c : Char) : Option Nat :=
  if '0' ≤ c ∧ c ≤ '9' then some (c.toNat - '0'.toNat)
  else if 'a' ≤ c ∧ c ≤ 'f' then some (c.toNat - 'a'.toNat + 10)
  else if 'A' ≤ c ∧ c ≤ 'F' then some (c.toNat - 'A'.toNat + 10)
  else none

/-- A hexadecimal digit, in either case. -/
def isHexDigit (c : Char) : Bool := (hexValue? c).isSome

theorem isHexDigit_iff {c : Char} :
    isHexDigit c = true ↔ ('0' ≤ c ∧ c ≤ '9') ∨ ('a' ≤ c ∧ c ≤ 'f') ∨ ('A' ≤ c ∧ c ≤ 'F') := by
  unfold isHexDigit hexValue?
  split
  · rename_i h
    exact iff_of_true rfl (.inl h)
  · rename_i hdigit
    rw [or_iff_right hdigit]
    split
    · rename_i h
      exact iff_of_true rfl (.inl h)
    · rename_i hlower
      rw [or_iff_right hlower]
      split
      · rename_i h
        exact iff_of_true rfl h
      · rename_i hupper
        exact iff_of_false nofun hupper

/-- The digit for a value below sixteen, in lower case. -/
def hexDigit (n : Nat) : Char :=
  if n < 10 then Char.ofNat (n + '0'.toNat) else Char.ofNat (n - 10 + 'a'.toNat)

/-- The lower-case hexadecimal digits of a number, with no leading zero. -/
def hexDigits (n : Nat) : List Char := Nat.toDigits 16 n

/-- The number that hexadecimal digits spell, or nothing if one of them is no digit. -/
def hexNumber? (cs : List Char) : Option Nat :=
  cs.foldl (fun sum c => do return (← sum) * 16 + (← hexValue? c)) (some 0)

/-- The number that decimal digits spell, or nothing if one of them is no digit. -/
def decimalNumber? (cs : List Char) : Option Nat :=
  cs.foldl
    (fun sum c => do if isDigit c then return (← sum) * 10 + (c.toNat - '0'.toNat) else none)
    (some 0)

/-- ASCII letters in lower case, all else as it is. -/
def lower (s : String) : String := s.map Char.toLower

/-- The text without the blanks at either end. -/
def trim (s : String) : String :=
  String.ofList ((s.toList.dropWhile isBlank).reverse.dropWhile isBlank).reverse

/-- Whether a text contains another. -/
def hasInfix (part : List Char) : List Char → Bool
  | [] => part.isEmpty
  | c :: cs => part.isPrefixOf (c :: cs) || hasInfix part cs

/-- How many line feeds the text holds. -/
def newlines (cs : List Char) : Nat := cs.count '\n'

/-- The number of bytes of the text in UTF-8. -/
def byteLength (cs : List Char) : Nat := cs.foldr (fun c n => c.utf8Size + n) 0

@[simp] theorem newlines_nil : newlines [] = 0 := rfl

@[simp] theorem newlines_append (a b : List Char) : newlines (a ++ b) = newlines a + newlines b :=
  List.count_append

@[simp] theorem toList_lower (s : String) : (lower s).toList = s.toList.map Char.toLower :=
  String.toList_map

end SafePreview.Text
