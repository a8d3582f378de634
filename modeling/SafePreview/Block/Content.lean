import SafePreview.Text.Character

/-!
# Checked values of a block

A heading level, a font size and a colour can be held only if they are within their bounds: each
type carries the proof. Whoever writes them into markup therefore needs no further check. A colour
in particular is letters and digits behind at most one number sign, so it can neither call a
function nor end the declaration it stands in.
-/

namespace SafePreview

/-- **The level of a heading**, from 1 to 6. -/
structure HeadingLevel where
  value : Nat
  one_le : 1 ≤ value
  le_six : value ≤ 6
deriving DecidableEq

/-- The level with a number, if it is one. -/
def HeadingLevel.ofNat? (n : Nat) : Option HeadingLevel :=
  if h : 1 ≤ n ∧ n ≤ 6 then some ⟨n, h.1, h.2⟩ else none

/-- The digit of the level. -/
def HeadingLevel.text (level : HeadingLevel) : String := toString level.value

theorem HeadingLevel.isSome_ofNat? (n : Nat) : (ofNat? n).isSome ↔ 1 ≤ n ∧ n ≤ 6 := by
  unfold ofNat?
  split <;> simp_all

/-- **A font size in pixels**, from 1 to 512. -/
structure FontSize where
  pixels : Nat
  one_le : 1 ≤ pixels
  le_limit : pixels ≤ 512
deriving DecidableEq

/-- The size with a number of pixels, if it is one. -/
def FontSize.ofNat? (n : Nat) : Option FontSize :=
  if h : 1 ≤ n ∧ n ≤ 512 then some ⟨n, h.1, h.2⟩ else none

/-- The size with its unit. -/
def FontSize.text (size : FontSize) : String := toString size.pixels ++ "px"

theorem FontSize.isSome_ofNat? (n : Nat) : (ofNat? n).isSome ↔ 1 ≤ n ∧ n ≤ 512 := by
  unfold ofNat?
  split <;> simp_all

namespace Colour

/-- A colour in hexadecimal: a number sign and three, four, six or eight digits. -/
def isHex : List Char → Bool
  | '#' :: digits => digits.all Text.isHexDigit && [3, 4, 6, 8].contains digits.length
  | _ => false

/-- A colour by name: one to thirty-two letters. -/
def isKeyword (cs : List Char) : Bool :=
  cs.all Text.isLetter && 1 ≤ cs.length && cs.length ≤ 32

/-- How a colour may be written. -/
def isWritten (cs : List Char) : Bool := isHex cs || isKeyword cs

end Colour

/-- **A colour** in hexadecimal or by name, in lower case. -/
structure Colour where
  text : String
  written : ∃ cs, Colour.isWritten cs = true ∧ text = String.ofList (cs.map Char.toLower)
deriving DecidableEq

/-- The colour that a text spells, blanks around it left out. -/
def Colour.ofString? (s : String) : Option Colour :=
  let cs := (Text.trim s).toList
  if h : isWritten cs = true then some ⟨String.ofList (cs.map Char.toLower), cs, h, rfl⟩ else none

end SafePreview
