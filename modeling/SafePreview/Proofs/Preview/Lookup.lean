import SafePreview.Proofs.Preview.Mapping
import SafePreview.Proofs.Preview.Partition

/-!
# Looking up lines

The block on a line is looked up by halving, not by going through the ranges. On ranges that ascend,
with or without gaps between them, this comes to the same (`LineMap.Ascends.blockAt?_eq`). Halving
finds the place in front of which all ranges end before the line (`LineMap.Ascends.last_lt_iff`),
and only the range at that place can hold it: those in front of it end too early, and those behind
it start after it ends.

Nothing is said about the line itself, so the lines that are looked up in vain are known: those of
the gaps, those behind the last range, and the line 0. A generated map covers its lines, so there it
is those that the markup does not have. A block of a forest has one range, and to look up its range
is to look up its lines.
-/

namespace SafePreview

namespace LineMap

variable {map : LineMap} {line : Nat}

/-! ## Halving -/

/-- **Halving finds where a condition ends** that holds up to some place: but for the place that is
found, it holds of what is in front and of nothing behind. -/
theorem halve_spec {before : Nat → Bool}
    (hdown : ∀ i j, i ≤ j → before j = true → before i = true) (base count : Nat)
    (hcount : 0 < count) :
    base ≤ halve before base count ∧ halve before base count < base + count ∧
      ∀ i, base ≤ i → i < base + count → i ≠ halve before base count →
        (before i = true ↔ i < halve before base count) := by
  fun_induction halve before base count with
  | case1 base count hsmall =>
    refine ⟨Nat.le_refl base, Nat.lt_add_of_pos_right hcount, fun i hi hlt hne => ?_⟩
    omega
  | case2 base count hlarge half ih =>
    have hhalf : 0 < half ∧ half + half ≤ count := by
      show 0 < count / 2 ∧ count / 2 + count / 2 ≤ count
      omega
    by_cases hmiddle : before (base + half) = true
    · -- what is in front of the middle is in front of what is found
      simp only [hmiddle, dite_eq_ite, if_true] at ih ⊢
      obtain ⟨hle, hlt, hsplit⟩ := ih (by omega)
      refine ⟨by omega, by omega, fun i hi hi' hne => ?_⟩
      by_cases hfront : i < base + half
      · exact iff_of_true (hdown i _ hfront.le hmiddle) (by omega)
      · exact hsplit i (by omega) (by omega) hne
    · -- what is behind the rest is behind the middle
      simp only [hmiddle, dite_eq_ite, if_false, Bool.false_eq_true] at ih ⊢
      obtain ⟨hle, hlt, hsplit⟩ := ih (by omega)
      refine ⟨hle, by omega, fun i hi hi' hne => ?_⟩
      by_cases hrest : i < base + (count - half)
      · exact hsplit i hi hrest hne
      · refine iff_of_false (fun hbefore => hmiddle ?_) (by omega)
        exact hdown _ i (by omega) hbefore

/-! ## Ranges that ascend -/

/-- **Ranges that ascend**: none is empty, and each starts behind the one before it. -/
structure Ascends (map : LineMap) : Prop where
  first_le_last : ∀ r ∈ map.ranges, r.first ≤ r.last
  next : map.ranges.IsChain fun r s => r.last < s.first

/-- Each range starts behind all before it. -/
theorem Ascends.pairwise (h : map.Ascends) :
    map.ranges.Pairwise fun r s => r.last < s.first := by
  let follows (r s : LineRange) : Prop := r.last < s.first ∧ s.first ≤ s.last
  have htrans : Trans follows follows follows :=
    ⟨fun h h' => ⟨Nat.lt_trans (Nat.lt_of_lt_of_le h.1 h.2) h'.1, h'.2⟩⟩
  have hchain : map.ranges.IsChain follows :=
    h.next.imp_of_mem_imp fun r s _ hs hlt => ⟨hlt, h.first_le_last s hs⟩
  exact hchain.pairwise.imp fun h => h.1

theorem Ascends.last_lt_first (h : map.Ascends) {i j : Nat} {r s : LineRange}
    (hr : map.ranges[i]? = some r) (hs : map.ranges[j]? = some s) (hij : i < j) :
    r.last < s.first := by
  obtain ⟨hi, rfl⟩ := List.getElem?_eq_some_iff.1 hr
  obtain ⟨hj, rfl⟩ := List.getElem?_eq_some_iff.1 hs
  exact List.pairwise_iff_getElem.1 h.pairwise i j hi hj hij

/-- Whether the range at a place ends before a line. -/
def endsBefore (map : LineMap) (line i : Nat) : Bool :=
  match map.ranges[i]? with
  | some range => range.last < line
  | none => false

theorem endsBefore_iff {i : Nat} {r : LineRange} (hr : map.ranges[i]? = some r) :
    map.endsBefore line i = true ↔ r.last < line := by
  rw [endsBefore, hr]
  exact decide_eq_true_iff

/-- In front of a range that ends before a line all do. -/
theorem Ascends.endsBefore_of_le (h : map.Ascends) {i j : Nat} (hij : i ≤ j)
    (hj : map.endsBefore line j = true) : map.endsBefore line i = true := by
  rcases Nat.eq_or_lt_of_le hij with rfl | hlt
  · exact hj
  cases hs : map.ranges[j]? with
  | none =>
    rw [endsBefore, hs] at hj
    cases hj
  | some s =>
    have hlength : j < map.ranges.length := (List.getElem?_eq_some_iff.1 hs).1
    have hr := List.getElem?_eq_getElem (Nat.lt_trans hlt hlength)
    have hfirst := h.last_lt_first hr hs hlt
    have hsecond := h.first_le_last s (List.mem_of_getElem? hs)
    have hlast := (endsBefore_iff hs).1 hj
    exact (endsBefore_iff hr).2 (by omega)

/-- The place that is looked up is the one that halving finds or the next. -/
theorem before_eq (h : map.ranges ≠ []) :
    map.before line = if map.endsBefore line (halve (map.endsBefore line) 0 map.ranges.length) then
        halve (map.endsBefore line) 0 map.ranges.length + 1
      else halve (map.endsBefore line) 0 map.ranges.length :=
  if_neg (mt List.isEmpty_iff.1 h)

/-- **The place that is looked up**: the ranges in front of it end before the line, and no
others. -/
theorem Ascends.last_lt_iff (h : map.Ascends) {i : Nat} {r : LineRange}
    (hr : map.ranges[i]? = some r) : r.last < line ↔ i < map.before line := by
  have hlength : i < map.ranges.length := (List.getElem?_eq_some_iff.1 hr).1
  have hdown : ∀ i j, i ≤ j → map.endsBefore line j = true → map.endsBefore line i = true :=
    fun _ _ => h.endsBefore_of_le
  have hsplit := (halve_spec hdown 0 map.ranges.length (Nat.zero_lt_of_lt hlength)).2.2 i
    (Nat.zero_le i) (by omega)
  rw [← endsBefore_iff hr, before_eq (List.ne_nil_of_length_pos (Nat.zero_lt_of_lt hlength))]
  by_cases hfound : i = halve (map.endsBefore line) 0 map.ranges.length
  · rw [← hfound]
    split
    · rename_i hends
      exact iff_of_true hends (Nat.lt_succ_self i)
    · rename_i hnot
      exact iff_of_false hnot (Nat.lt_irrefl i)
  · rw [hsplit hfound]
    split
    · omega
    · rfl

/-! ## The range that holds a line -/

theorem contains_iff {r : LineRange} :
    r.contains line = true ↔ r.first ≤ line ∧ line ≤ r.last := by
  rw [LineRange.contains, Bool.and_eq_true, decide_eq_true_iff, decide_eq_true_iff]

/-- **A range that holds the line is at the place that is looked up.** -/
theorem Ascends.getElem?_before (h : map.Ascends) {r : LineRange} (hr : r ∈ map.ranges)
    (hline : r.contains line = true) : map.ranges[map.before line]? = some r := by
  obtain ⟨hfirst, hlast⟩ := contains_iff.1 hline
  obtain ⟨i, hi⟩ := List.mem_iff_getElem?.1 hr
  have hle : map.before line ≤ i := Nat.le_of_not_lt fun hlt =>
    Nat.not_lt_of_le hlast ((h.last_lt_iff hi).2 hlt)
  rcases Nat.eq_or_lt_of_le hle with heq | hlt
  · rw [heq, hi]
  · -- a range in front of this one that does not end before the line would end behind its start
    have hlength : i < map.ranges.length := (List.getElem?_eq_some_iff.1 hi).1
    have hfound := List.getElem?_eq_getElem (Nat.lt_trans hlt hlength)
    have hends := h.last_lt_first hfound hi hlt
    exact absurd ((h.last_lt_iff hfound).1 (Nat.lt_of_lt_of_le hends hfirst)) (Nat.lt_irrefl _)

/-- No other range holds the line. -/
theorem Ascends.eq_of_contains (h : map.Ascends) {r s : LineRange} (hr : r ∈ map.ranges)
    (hs : s ∈ map.ranges) (hline : r.contains line = true) (hline' : s.contains line = true) :
    r = s :=
  Option.some_inj.1 ((h.getElem?_before hr hline).symm.trans (h.getElem?_before hs hline'))

/-- What is found on a line is the block of a range that holds it. -/
theorem exists_contains_of_blockAt? {b : BlockId} (h : map.blockAt? line = some b) :
    ∃ r ∈ map.ranges, r.contains line = true ∧ r.block = b := by
  unfold blockAt? at h
  split at h
  · rename_i r hr
    split at h
    · rename_i hline
      exact ⟨r, List.mem_of_getElem? hr, hline, Option.some_inj.1 h⟩
    · cases h
  · cases h

/-- **What is found on a line is the block of the range that holds it.** -/
theorem Ascends.blockAt?_eq_some_iff (h : map.Ascends) {b : BlockId} :
    map.blockAt? line = some b ↔ ∃ r ∈ map.ranges, r.contains line = true ∧ r.block = b := by
  refine ⟨exists_contains_of_blockAt?, ?_⟩
  rintro ⟨r, hr, hline, rfl⟩
  rw [blockAt?, h.getElem?_before hr hline]
  exact if_pos hline

/-- **Halving comes to the same as going through the ranges.** -/
theorem Ascends.blockAt?_eq (h : map.Ascends) (line : Nat) :
    map.blockAt? line = (map.ranges.find? (·.contains line)).map (·.block) := by
  cases hfound : map.ranges.find? (·.contains line) with
  | some r =>
    have hline := List.find?_some hfound
    exact h.blockAt?_eq_some_iff.2 ⟨r, List.mem_of_find?_eq_some hfound, hline, rfl⟩
  | none =>
    refine Option.eq_none_iff_forall_ne_some.2 fun b hb => ?_
    obtain ⟨r, hr, hline, -⟩ := exists_contains_of_blockAt? hb
    exact List.find?_eq_none.1 hfound r hr hline

/-! ## Maps that cover their lines -/

theorem Covers.ascends {count : Nat} (h : map.Covers count) : map.Ascends where
  first_le_last := h.first_le_last
  next := h.next.imp fun r s (hnext : s.first = r.last + 1) => hnext ▸ Nat.lt_succ_self r.last

/-- The ranges behind a line, one behind the other, hold all lines up to the end of the last. -/
theorem exists_contains_iff {ranges : List LineRange} {n : Nat}
    (hfirst : ∀ r ∈ ranges.head?, r.first = n + 1)
    (hnext : ranges.IsChain fun r s => s.first = r.last + 1)
    (hle : ∀ r ∈ ranges, r.first ≤ r.last) :
    n ≤ (ranges.getLast?.map (·.last)).getD n ∧
      ((∃ r ∈ ranges, r.contains line = true)
        ↔ n < line ∧ line ≤ (ranges.getLast?.map (·.last)).getD n) := by
  induction ranges generalizing n with
  | nil =>
    refine ⟨Nat.le_refl n, iff_of_false (fun ⟨r, hr, _⟩ => List.not_mem_nil hr) fun h => ?_⟩
    exact Nat.not_lt_of_le h.2 h.1
  | cons r ranges ih =>
    obtain ⟨hhead, hnext⟩ := List.isChain_cons.1 hnext
    obtain ⟨hr, hle⟩ := List.forall_mem_cons.1 hle
    obtain ⟨hlast, hholds⟩ := ih hhead hnext hle
    have hlastEq : ((r :: ranges).getLast?.map (·.last)).getD n
        = (ranges.getLast?.map (·.last)).getD r.last := by
      rw [List.getLast?_cons]
      cases ranges.getLast? with
      | none => rfl
      | some s => rfl
    have hstart := hfirst r rfl
    rw [hlastEq]
    refine ⟨by omega, ?_⟩
    rw [List.exists_mem_cons_iff, hholds, contains_iff]
    omega

/-- **On a map that covers its lines each of them is found**, and no other. -/
theorem Covers.isSome_blockAt?_iff {count : Nat} (h : map.Covers count) (line : Nat) :
    (map.blockAt? line).isSome = true ↔ 1 ≤ line ∧ line ≤ count := by
  have hcount : (map.ranges.getLast?.map (·.last)).getD 0 = count := h.last
  have hholds : (∃ r ∈ map.ranges, r.contains line = true) ↔ 0 < line ∧ line ≤ count := by
    rw [← hcount]
    exact (exists_contains_iff h.first h.next h.first_le_last).2
  rw [Option.isSome_iff_exists, Nat.succ_le_iff, ← hholds]
  simp only [h.ascends.blockAt?_eq_some_iff]
  exact ⟨fun ⟨b, r, hr, hline, _⟩ => ⟨r, hr, hline⟩, fun ⟨r, hr, hline⟩ => ⟨_, r, hr, hline, rfl⟩⟩

/-- What is found as the range of a block is one. -/
theorem mem_of_rangeOf? {b : BlockId} {r : LineRange} (h : map.rangeOf? b = some r) :
    r ∈ map.ranges ∧ r.block = b := by
  have hblock := List.find?_some h
  exact ⟨List.mem_of_find?_eq_some h, of_decide_eq_true hblock⟩

/-- Where no block has two ranges, the range of a block is found. -/
theorem rangeOf?_eq_some_iff (h : (map.ranges.map (·.block)).Nodup) {b : BlockId} {r : LineRange} :
    map.rangeOf? b = some r ↔ r ∈ map.ranges ∧ r.block = b := by
  refine ⟨mem_of_rangeOf?, ?_⟩
  rintro ⟨hr, rfl⟩
  cases hfound : map.rangeOf? r.block with
  | some s =>
    obtain ⟨hs, hblock⟩ := mem_of_rangeOf? hfound
    rw [List.inj_on_of_nodup_map h hs hr hblock]
  | none => exact absurd (decide_eq_true rfl) (List.find?_eq_none.1 hfound r hr)

/-- **And its lines are those on which the block is found.** -/
theorem Ascends.blockAt?_eq_some_iff_rangeOf? (h : map.Ascends)
    (hnodup : (map.ranges.map (·.block)).Nodup) {b : BlockId} :
    map.blockAt? line = some b ↔ ∃ r ∈ map.rangeOf? b, r.contains line = true := by
  rw [h.blockAt?_eq_some_iff]
  simp only [Option.mem_def, rangeOf?_eq_some_iff hnodup]
  exact ⟨fun ⟨r, hr, hline, hb⟩ => ⟨r, ⟨hr, hb⟩, hline⟩,
    fun ⟨r, ⟨hr, hb⟩, hline⟩ => ⟨r, hr, hline, hb⟩⟩

/-- **What is found on a line.** On ranges that ascend it is what is found by going through them:
the block of the range that holds the line, which is the only one, or nothing if there is none. On a
generated map something is found on the lines from 1 to the last, and on no other. On the map of a
forest a block is found on the lines of its range. -/
theorem blockAt?_is_on_line [ParentOrder] :
    (∀ (map : LineMap) (line : Nat), map.Ascends →
      map.blockAt? line = (map.ranges.find? (·.contains line)).map (·.block) ∧
      (∀ r ∈ map.ranges, r.contains line = true →
        map.blockAt? line = some r.block ∧ ∀ s ∈ map.ranges, s.contains line = true → s = r) ∧
      ((∀ r ∈ map.ranges, ¬ r.contains line = true) → map.blockAt? line = none)) ∧
    (∀ (blocks : List Block) (line : Nat),
      ((generate blocks).map.blockAt? line).isSome = true
        ↔ 1 ≤ line ∧ line ≤ (generate blocks).map.lineCount) ∧
    (∀ (project : Option ProjectId) (blocks : List Block) (forest : Forest),
      Forest.build project blocks = .ok forest → ∀ (line : Nat) (b : BlockId),
        forest.generate.map.blockAt? line = some b
          ↔ ∃ r ∈ forest.generate.map.rangeOf? b, r.contains line = true) := by
  refine ⟨fun map line h => ⟨h.blockAt?_eq line, fun r hr hline => ⟨?_, ?_⟩, fun hnone => ?_⟩,
    fun blocks line => ?_, fun project blocks forest h line b => ?_⟩
  · exact h.blockAt?_eq_some_iff.2 ⟨r, hr, hline, rfl⟩
  · exact fun s hs hline' => h.eq_of_contains hs hr hline' hline
  · rw [h.blockAt?_eq, List.find?_eq_none.2 hnone]
    rfl
  · have hcovers := covers_generate blocks
    rw [hcovers.isSome_blockAt?_iff, hcovers.last]
  · have hnodup : (forest.generate.map.ranges.map (·.block)).Nodup := by
      rw [Preview.block_ranges_generate]
      exact Forest.nodup_blocks h
    exact (covers_generate forest.blocks).ascends.blockAt?_eq_some_iff_rangeOf? hnodup

/-- Ranges with a gap between the lines 4 and 7. -/
def gapped : LineMap := ⟨[⟨⟨"a"⟩, 2, 2⟩, ⟨⟨"b"⟩, 3, 4⟩, ⟨⟨"c"⟩, 7, 9⟩]⟩

/-- What is found at the ends of these ranges and in the gap. -/
theorem blockAt?_gapped :
    gapped.Ascends ∧ gapped.blockAt? 4 = some ⟨"b"⟩ ∧ gapped.blockAt? 7 = some ⟨"c"⟩
      ∧ gapped.blockAt? 5 = none
      ∧ Forest.build none [Preview.soleLink] = .ok Preview.soleForest
      ∧ (Preview.soleForest.generate.map.blockAt? 1 = some ⟨"l"⟩
        ↔ ∃ r ∈ Preview.soleForest.generate.map.rangeOf? ⟨"l"⟩, r.contains 1 = true) := by
  have h : gapped.Ascends := ⟨by decide, by simp [gapped]⟩
  have hfound := blockAt?_is_on_line.1 gapped
  exact ⟨h, ((hfound 4 h).2.1 ⟨⟨"b"⟩, 3, 4⟩ (by decide) (by decide)).1,
    ((hfound 7 h).2.1 ⟨⟨"c"⟩, 7, 9⟩ (by decide) (by decide)).1, (hfound 5 h).2.2 (by decide),
    Preview.build_soleLink,
    blockAt?_is_on_line.2.2 _ _ _ Preview.build_soleLink 1 ⟨"l"⟩⟩

end LineMap

end SafePreview
