import Mathlib.Data.List.DropRight
import SafePreview.Text.Character

/-!
# Case and blanks

Putting letters in lower case moves the capital letters of ASCII onto its small letters and leaves
every other character where it is. So it is done once and for all (`lower_lower`), and it changes
nothing about which characters are blanks: blanks can be cut off before or after (`trim_lower`).
Cutting them off is done once and for all too (`trim_trim`), though it takes two steps, one at
either end.
-/

namespace SafePreview.Text

/-- A character outside the upper-case letters has no other case. -/
theorem toLower_of_not_upper {c : Char} (h : ¬ ('A' ≤ c ∧ c ≤ 'Z')) : c.toLower = c := by
  delta Char.toLower
  exact dif_neg (fun hupper => h ⟨hupper.1, hupper.2⟩)

/-- A capital letter in lower case is a small letter. -/
theorem toLower_of_upper {c : Char} (h : 'A' ≤ c ∧ c ≤ 'Z') :
    'a' ≤ c.toLower ∧ c.toLower ≤ 'z' := by
  have hlow : 65 ≤ c.val.toNat := h.1
  have hhigh : c.val.toNat ≤ 90 := h.2
  have hval : c.toLower.val.toNat = c.val.toNat + 32 := by
    delta Char.toLower
    rw [dif_pos ⟨h.1, h.2⟩]
    show (c.val + 32).toNat = _
    rw [UInt32.toNat_add]
    show (c.val.toNat + 32) % 4294967296 = _
    omega
  constructor
  · show 97 ≤ c.toLower.val.toNat
    omega
  · show c.toLower.val.toNat ≤ 122
    omega

/-- What is in lower case stays as it is. -/
theorem toLower_toLower (c : Char) : c.toLower.toLower = c.toLower := by
  refine toLower_of_not_upper fun hupper => ?_
  by_cases h : 'A' ≤ c ∧ c ≤ 'Z'
  · exact absurd (Char.le_trans (toLower_of_upper h).1 hupper.2) (by decide)
  · rw [toLower_of_not_upper h] at hupper
    exact h hupper

/-- A letter is a blank in neither case. -/
theorem isBlank_toLower (c : Char) : isBlank c.toLower = isBlank c := by
  have hletter {d : Char} (hd : isLetter d = true) : isBlank d = false := by
    obtain ⟨hlow, hhigh⟩ :=
      toNat_of_isAlphanum ((isLetter_or_isDigit d).symm.trans (by rw [hd, Bool.true_or]))
    exact (not_isBlank_not_isControl (by omega) (by omega)).1
  by_cases h : 'A' ≤ c ∧ c ≤ 'Z'
  · rw [hletter (isLetter_iff.2 (.inr h)), hletter (isLetter_iff.2 (.inl (toLower_of_upper h)))]
  · rw [toLower_of_not_upper h]

theorem lower_lower (s : String) : lower (lower s) = lower s := by
  rw [← String.toList_inj, toList_lower, toList_lower, List.map_map]
  exact List.map_congr_left fun c _ => toLower_toLower c

/-- **Blanks can be cut off before or after the letters are put in lower case.** -/
theorem trim_lower (s : String) : trim (lower s) = lower (trim s) := by
  have hblank : isBlank ∘ Char.toLower = isBlank := funext isBlank_toLower
  rw [← String.toList_inj, toList_lower, trim, trim, String.toList_ofList, String.toList_ofList,
    toList_lower]
  simp only [List.dropWhile_map, hblank, ← List.map_reverse]

/-- **A trimmed text has no blanks to cut off.** -/
theorem trim_trim (s : String) : trim (trim s) = trim s := by
  -- cutting off blanks behind leaves the start as it is, and that was no blank any more
  have hfront (cs : List Char) :
      List.dropWhile isBlank (List.rdropWhile isBlank (cs.dropWhile isBlank))
        = List.rdropWhile isBlank (cs.dropWhile isBlank) := by
    refine List.dropWhile_eq_self_iff.2 fun hlength => ?_
    have hfront := List.rdropWhile_prefix isBlank (l := cs.dropWhile isBlank)
    rw [hfront.getElem hlength]
    exact List.dropWhile_get_zero_not isBlank cs (Nat.lt_of_lt_of_le hlength hfront.length_le)
  unfold trim
  rw [String.toList_ofList]
  refine congrArg String.ofList ?_
  show List.rdropWhile isBlank
      (List.dropWhile isBlank (List.rdropWhile isBlank (s.toList.dropWhile isBlank))) = _
  rw [hfront, List.rdropWhile_idempotent]
  rfl

end SafePreview.Text
