import Mathlib.Data.List.Basic
import SafePreview.Asset.Key

/-!
# Which texts are keys

A text is looked at for ten defects in a fixed order. Six of them could be left out: a text with one
of these has a bad segment as well, so they only decide what a defect is called. What is left is a
short grammar (`AssetKey.IsWellFormed`), and a text is a key exactly if it follows it
(`KeyDefect.find?_eq_none_iff`).
-/

namespace SafePreview

/-- **A segment of a key**: it is not empty, does not start with a dot and has no strange
characters. -/
def AssetKey.IsSegment (segment : List Char) : Prop :=
  segment ≠ [] ∧ segment.head? ≠ some '.' ∧ ∀ c ∈ segment, KeyDefect.isKeyChar c = true

/-- **The grammar of keys**: segments between slashes, and not too many bytes in all. -/
def AssetKey.IsWellFormed (cs : List Char) : Prop :=
  Text.byteLength cs ≤ KeyDefect.maxBytes ∧ ∀ segment ∈ cs.splitOn '/', AssetKey.IsSegment segment

namespace KeyDefect

variable {cs segment : List Char} {c : Char}

/-- **A segment has no defect exactly if it is one.** -/
theorem ofSegment?_eq_none_iff : ofSegment? segment = none ↔ AssetKey.IsSegment segment := by
  unfold ofSegment?
  split
  · rename_i hempty
    exact ⟨nofun, fun h => absurd hempty h.1⟩
  rename_i hempty
  split
  · rename_i hrelative
    refine ⟨nofun, fun h => absurd ?_ h.2.1⟩
    rcases hrelative with rfl | rfl
    · rfl
    · rfl
  split
  · rename_i hhidden
    exact ⟨nofun, fun h => absurd hhidden h.2.1⟩
  rename_i hvisible
  split
  · rename_i hstrange
    rw [Bool.not_eq_true', List.all_eq_false] at hstrange
    obtain ⟨c, hc, hnot⟩ := hstrange
    exact ⟨nofun, fun h => absurd (h.2.2 c hc) hnot⟩
  · rename_i hplain
    rw [Bool.not_eq_true', Bool.not_eq_false, List.all_eq_true] at hplain
    exact ⟨fun _ => ⟨hempty, hvisible, hplain⟩, fun _ => rfl⟩

/-- The characters of keys lie between the hyphen and the last letter. -/
theorem toNat_bounds (h : isKeyChar c = true) : 0x2D ≤ c.toNat ∧ c.toNat ≤ 0x7A := by
  simp only [isKeyChar, Text.isLetter_or_isDigit, Bool.or_eq_true, decide_eq_true_eq] at h
  rcases h with ((hplain | rfl) | rfl) | rfl
  · obtain ⟨hlow, hhigh⟩ := Text.toNat_of_isAlphanum hplain
    exact ⟨Nat.le_trans (by decide) hlow, hhigh⟩
  · decide
  · decide
  · decide

theorem isControl_of_isKeyChar (h : isKeyChar c = true) : Text.isControl c = false := by
  obtain ⟨hlow, hhigh⟩ := toNat_bounds h
  rw [Text.isControl, Bool.or_eq_false_iff, Bool.and_eq_false_iff, decide_eq_false_iff_not,
    decide_eq_false_iff_not, decide_eq_false_iff_not]
  omega

/-- Every character of a text is a slash or in one of the parts between slashes. -/
theorem exists_part_of_mem (h : c ∈ cs) : c = '/' ∨ ∃ part ∈ cs.splitOn '/', c ∈ part := by
  induction cs with
  | nil => exact absurd h List.not_mem_nil
  | cons first cs ih =>
    rw [List.splitOn_cons_eq_if_modifyHead]
    obtain ⟨part, parts, hparts⟩ := List.exists_cons_of_ne_nil (List.splitOn_ne_nil '/' cs)
    rw [hparts] at ih ⊢
    split
    · rename_i hslash
      rcases List.mem_cons.1 h with rfl | hmem
      · exact .inl (beq_iff_eq.1 hslash)
      · exact (ih hmem).imp_right fun ⟨part, hpart, hc⟩ => ⟨part, List.mem_cons_of_mem _ hpart, hc⟩
    · rw [List.modifyHead_cons]
      rcases List.mem_cons.1 h with rfl | hmem
      · exact .inr ⟨_, List.mem_cons_self, List.mem_cons_self⟩
      · refine (ih hmem).imp_right fun ⟨other, hother, hc⟩ => ?_
        rcases List.mem_cons.1 hother with rfl | hother
        · exact ⟨_, List.mem_cons_self, List.mem_cons_of_mem _ hc⟩
        · exact ⟨other, List.mem_cons_of_mem _ hother, hc⟩

/-- In a text of good segments all characters are slashes or those of keys. -/
theorem isKeyChar_of_mem (hsegments : ∀ segment ∈ cs.splitOn '/', AssetKey.IsSegment segment)
    (h : c ∈ cs) : c = '/' ∨ isKeyChar c = true := by
  refine (exists_part_of_mem h).imp_right fun ⟨part, hpart, hc⟩ => ?_
  exact (hsegments part hpart).2.2 c hc

/-- **A text is a key exactly if it follows the grammar.** -/
theorem find?_eq_none_iff : find? cs = none ↔ AssetKey.IsWellFormed cs := by
  constructor
  · intro h
    unfold find? at h
    split at h
    · cases h
    split at h
    · cases h
    rename_i hshort
    -- the next four would be found in a segment
    split at h
    · cases h
    split at h
    · cases h
    split at h
    · cases h
    split at h
    · cases h
    rw [List.findSome?_eq_none_iff] at h
    exact ⟨Nat.le_of_not_lt hshort, fun segment hmem => ofSegment?_eq_none_iff.1 (h segment hmem)⟩
  · rintro ⟨hshort, hsegments⟩
    have hchars (c : Char) (hc : c ∈ cs) := isKeyChar_of_mem hsegments hc
    have hempty : cs ≠ [] := by
      rintro rfl
      exact (hsegments [] (List.mem_singleton_self _)).1 rfl
    have hcontrol : ¬ cs.any Text.isControl = true := by
      rw [List.any_eq_true]
      rintro ⟨c, hc, hcontrol⟩
      rcases hchars c hc with rfl | hkey
      · cases hcontrol
      · rw [isControl_of_isKeyChar hkey] at hcontrol
        cases hcontrol
    have hbackslash : ¬ cs.contains '\\' = true := by
      rw [List.contains_iff_mem]
      exact fun hmem => absurd (hchars _ hmem) (by decide)
    have habsolute : ¬ cs.head? = some '/' := by
      intro hhead
      obtain ⟨rest, rfl⟩ := List.head?_eq_some_iff.1 hhead
      refine (hsegments [] ?_).1 rfl
      rw [List.splitOn_cons_eq_if_modifyHead, if_pos (beq_self_eq_true '/')]
      exact List.mem_cons_self
    have hdrive : ¬ hasDrive cs = true := by
      intro hdrive
      unfold hasDrive at hdrive
      split at hdrive
      · exact absurd (hchars ':' (List.mem_cons_of_mem _ List.mem_cons_self)) (by decide)
      · cases hdrive
    rw [find?, if_neg hempty, if_neg (Nat.not_lt_of_le hshort), if_neg hcontrol, if_neg hbackslash,
      if_neg habsolute, if_neg hdrive, List.findSome?_eq_none_iff]
    exact fun segment hmem => ofSegment?_eq_none_iff.2 (hsegments segment hmem)

end KeyDefect

namespace AssetKey

variable {text : String} {key : AssetKey}

/-- **A text is read as the key that it spells.** -/
theorem ofString_eq_ok_iff : ofString text = .ok key ↔ key.text = text := by
  have hspells : key.text = text ↔ key.chars = text.toList := by
    rw [AssetKey.text, ← String.toList_inj, String.toList_ofList]
  rw [hspells, ofString]
  split
  · constructor
    · intro h
      cases h
      rfl
    · intro hchars
      obtain ⟨chars, sound⟩ := key
      cases hchars
      rfl
  · rename_i defect hdefect
    refine ⟨nofun, fun hchars => ?_⟩
    have hsound := key.sound
    rw [hchars, hdefect] at hsound
    cases hsound

/-- The text of a key follows the grammar, -/
theorem isWellFormed_of_text (h : key.text = text) : IsWellFormed text.toList := by
  rw [← h, AssetKey.text, String.toList_ofList]
  exact KeyDefect.find?_eq_none_iff.1 key.sound

/-- and no text that has a defect does. -/
theorem exists_defect_iff :
    (∃ defect, ofString text = .error defect) ↔ ¬ IsWellFormed text.toList := by
  constructor
  · rintro ⟨defect, hdefect⟩ hformed
    have hread : ofString text = .ok ⟨text.toList, KeyDefect.find?_eq_none_iff.2 hformed⟩ :=
      ofString_eq_ok_iff.2 String.ofList_toList
    rw [hread] at hdefect
    cases hdefect
  · intro hnot
    cases hread : ofString text with
    | error defect => exact ⟨defect, rfl⟩
    | ok key => exact absurd (isWellFormed_of_text (ofString_eq_ok_iff.1 hread)) hnot

/-- A key goes down through one name at least. -/
theorem names_ne_nil (key : AssetKey) : key.names ≠ [] := by
  rw [names, segments, Ne, List.map_eq_nil_iff]
  exact List.splitOn_ne_nil '/' key.chars

end AssetKey

end SafePreview
