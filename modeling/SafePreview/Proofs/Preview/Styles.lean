import Mathlib.Data.List.Basic
import SafePreview.Proofs.Preview.Fragment

/-!
# The styles of blocks are safe, but for one word

A style is safe if it contains none of twelve texts in lower case and without blanks. What a block
has in its style is put together from few characters, and most of the twelve have one that is not
among them: all of them for a size (`isSafeStyle_fontSize`), nine for a colour.

The three that are left are words. Two of these end in a colon, and the only colon in the style of a
colour is the one behind `color`, where they do not fit. The third is `behavior`. It cannot begin
inside `color:`, so the style contains it exactly if the colour by itself does
(`isSafeStyle_color`), and there is nothing to keep it from being the name of a colour.
-/

namespace SafePreview

open Markup

/-! ## Texts inside texts -/

/-- The test for a text inside another finds exactly that. -/
theorem Text.hasInfix_iff (part cs : List Char) : Text.hasInfix part cs = true ↔ part <:+: cs := by
  induction cs with
  | nil => rw [hasInfix, List.isEmpty_iff, List.infix_nil]
  | cons c cs ih =>
    rw [hasInfix, Bool.or_eq_true, List.isPrefixOf_iff_prefix, ih, List.infix_cons_iff]

/-- What cannot start in the first text is in the second. -/
theorem isInfix_append_iff {c : Char} {front : List Char} (h : c ∉ front) (part cs : List Char) :
    c :: part <:+: front ++ cs ↔ c :: part <:+: cs := by
  induction front with
  | nil => rfl
  | cons d front ih =>
    have hne : ¬ c :: part <+: d :: (front ++ cs) := fun hstart =>
      (List.ne_of_not_mem_cons h) (List.cons_prefix_cons.1 hstart).1
    rw [List.cons_append, List.infix_cons_iff, ih (List.not_mem_of_not_mem_cons h)]
    exact or_iff_right hne

/-- What ends in a mark stands in front of that mark, where there is only one. -/
theorem isSuffix_of_isInfix_mark {mark : Char} {front cs : List Char} (hfront : mark ∉ front)
    (hcs : mark ∉ cs) {part : List Char} (h : part ++ [mark] <:+: front ++ mark :: cs) :
    part <:+ front := by
  obtain ⟨before, behind, heq⟩ := h
  have hsplit : front ++ mark :: cs = (before ++ part) ++ mark :: behind := by
    rw [← heq]
    simp
  exact ⟨before, ((List.append_cons_inj_of_notMem hfront hcs).1 hsplit).1.symm⟩

/-! ## Styles -/

/-- All characters of a style but the space can be seen. -/
theorem IsStyleChar.toNat_bounds {c : Char} (h : IsStyleChar c) (hspace : c ≠ ' ') :
    0x21 ≤ c.toNat ∧ c.toNat ≤ 0x7E := by
  rcases h with hletter | hdigit | hmark
  · exact ⟨Nat.le_trans (by decide) (show 97 ≤ c.toNat from hletter.1),
      Nat.le_trans (show c.toNat ≤ 122 from hletter.2) (by decide)⟩
  · exact ⟨Nat.le_trans (by decide) (show 48 ≤ c.toNat from hdigit.1),
      Nat.le_trans (show c.toNat ≤ 57 from hdigit.2) (by decide)⟩
  · simp only [List.mem_cons, List.not_mem_nil, or_false] at hmark
    rcases hmark with rfl | rfl | rfl | rfl
    · decide
    · exact absurd rfl hspace
    · decide
    · decide

/-- There are no capital letters in a style. -/
theorem IsStyleChar.toLower_eq {c : Char} (h : IsStyleChar c) : c.toLower = c := by
  refine Text.toLower_of_not_upper fun hupper => ?_
  rcases h with hletter | hdigit | hmark
  · exact absurd (Char.le_trans hletter.1 hupper.2) (by decide)
  · exact absurd (Char.le_trans hupper.1 hdigit.2) (by decide)
  · simp only [List.mem_cons, List.not_mem_nil, or_false] at hmark
    rcases hmark with rfl | rfl | rfl | rfl <;> exact absurd hupper (by decide)

/-- **The form in which a style is tested** is the style without its spaces. -/
theorem lowerName_condense {cs : List Char} (h : ∀ c ∈ cs, IsStyleChar c) :
    lowerName (condense cs) = cs.filter (· ≠ ' ') := by
  have hcondense : condense cs = cs.filter (· ≠ ' ') := by
    refine List.filter_congr fun c hc => ?_
    by_cases hspace : c = ' '
    · subst hspace
      decide
    · obtain ⟨hlow, hhigh⟩ := (h c hc).toNat_bounds hspace
      obtain ⟨hblank, hcontrol⟩ := Text.not_isBlank_not_isControl hlow hhigh
      rw [hblank, hcontrol, decide_eq_true hspace]
      rfl
  have hself : ∀ c ∈ cs.filter (· ≠ ' '), c.toLower = id c := fun c hc =>
    (h c (List.mem_filter.1 hc).1).toLower_eq
  rw [hcondense, lowerName, List.map_congr_left hself, List.map_id]

/-- A style is safe if nothing unsafe is in it. -/
theorem isSafeStyle_iff {cs : List Char} (h : ∀ c ∈ cs, IsStyleChar c) :
    isSafeStyle cs = true ↔ ∀ part ∈ unsafeStyles, ¬ part.toList <:+: cs.filter (· ≠ ' ') := by
  rw [isSafeStyle, lowerName_condense h, Bool.not_eq_true', List.any_eq_false]
  exact forall₂_congr fun part _ => by rw [Text.hasInfix_iff]

/-- **The style of a size is safe**: nothing unsafe can be written in its characters. -/
theorem isSafeStyle_fontSize (size : FontSize) :
    isSafeStyle (styleOf "font-size: " size.text).value = true := by
  have hforeign : ∀ part ∈ unsafeStyles, part.toList.any (fun c =>
      c ∉ "font-size: ".toList ∧ ¬ (('0' ≤ c ∧ c ≤ '9') ∨ c ∈ ['p', 'x'])) = true := by decide
  rw [isSafeStyle_iff (isStyleChar_fontSize size)]
  intro part hpart hin
  obtain ⟨c, hc, hout⟩ := List.any_eq_true.1 (hforeign part hpart)
  obtain ⟨hproperty, hsize⟩ := of_decide_eq_true hout
  have hmem := (List.mem_filter.1 (hin.subset hc)).1
  rw [styleOf, String.toList_append] at hmem
  exact (List.mem_append.1 hmem).elim hproperty fun hmem => hsize (size.mem_text hmem)

/-- What is tested of the style of a colour. -/
theorem filter_styleOf_color (colour : Colour) :
    (styleOf "color: " colour.text).value.filter (· ≠ ' ')
      = "color".toList ++ ':' :: colour.text.toList := by
  have hself : colour.text.toList.filter (· ≠ ' ') = colour.text.toList := by
    refine List.filter_eq_self.2 fun c hc => decide_eq_true ?_
    rintro rfl
    rcases colour.mem_text hc with h | h | h <;> revert h <;> decide
  rw [styleOf, String.toList_append, List.filter_append, hself]
  rfl

/-- **The style of a colour is safe unless the colour contains one word.** -/
theorem isSafeStyle_color (colour : Colour) :
    isSafeStyle (styleOf "color: " colour.text).value = true
      ↔ ¬ "behavior".toList <:+: colour.text.toList := by
  have hforeign : ∀ part ∈ unsafeStyles, part ∈ ["javascript:", "vbscript:", "behavior"]
      ∨ part.toList.any (fun c => c ∉ "color:".toList
        ∧ ¬ (('a' ≤ c ∧ c ≤ 'z') ∨ ('0' ≤ c ∧ c ≤ '9') ∨ c = '#')) = true := by decide
  have hword : "behavior".toList <:+: "color".toList ++ ':' :: colour.text.toList
      ↔ "behavior".toList <:+: colour.text.toList :=
    isInfix_append_iff (show 'b' ∉ "color:".toList by decide) _ _
  have hcolon : ':' ∉ colour.text.toList := fun h => by
    rcases colour.mem_text h with h | h | h <;> revert h <;> decide
  rw [isSafeStyle_iff (isStyleChar_color colour), filter_styleOf_color]
  constructor
  · intro h
    rw [← hword]
    exact h "behavior" (by decide)
  · intro h part hpart hin
    rcases hforeign part hpart with hwords | hforeign
    · simp only [List.mem_cons, List.not_mem_nil, or_false] at hwords
      rcases hwords with rfl | rfl | rfl
      · have hsuffix : "javascript".toList <:+ "color".toList :=
          isSuffix_of_isInfix_mark (by decide) hcolon hin
        exact absurd hsuffix (by decide)
      · have hsuffix : "vbscript".toList <:+ "color".toList :=
          isSuffix_of_isInfix_mark (by decide) hcolon hin
        exact absurd hsuffix (by decide)
      · exact h (hword.1 hin)
    · obtain ⟨c, hc, hout⟩ := List.any_eq_true.1 hforeign
      obtain ⟨hproperty, hcolour⟩ := of_decide_eq_true hout
      have hmem : c ∈ "color:".toList ++ colour.text.toList := hin.subset hc
      exact (List.mem_append.1 hmem).elim hproperty fun hmem => hcolour (colour.mem_text hmem)

end SafePreview
