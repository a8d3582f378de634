import SafePreview.Proofs.Block.Walk
import SafePreview.Proofs.Preview.Lines

/-!
# When the map of a preview is kept

The map of a preview is the map of the generated markup if the safe markup has as many lines. No
line is ever lost, so that ought to be always – but a text without characters is taken to have no
lines, and a map has none only if there are no blocks. One block of which nothing is left is
therefore taken for a line that was lost (`Forest.Vanishes`), and its map is dropped. With two
blocks there is a line feed between them, and the map stays even if nothing else does.
-/

namespace SafePreview

open Markup (Policy)

/-! ## Counting lines -/

/-- The map has the lines of all fragments. -/
theorem LineMap.lineCount_ofBlocks (blocks : List Block) :
    (LineMap.ofBlocks blocks).lineCount
      = (blocks.map fun b => Text.newlines b.kind.fragment + 1).sum := by
  have hfrom (map : LineMap) : (blocks.foldl
      (fun map block => map.append block.id (Text.newlines block.kind.fragment + 1)) map).lineCount
      = map.lineCount + (blocks.map fun b => Text.newlines b.kind.fragment + 1).sum := by
    induction blocks generalizing map with
    | nil => rfl
    | cons block blocks ih =>
      rw [List.foldl_cons, ih, LineMap.lineCount_append, List.map_cons, List.sum_cons,
        Nat.add_assoc]
  exact (hfrom .empty).trans (Nat.zero_add _)

/-- **Safe markup has the lines of all fragments**, if there are any. -/
theorem newlines_sanitize_generate (policy : Policy) {blocks : List Block} (h : blocks ≠ []) :
    Text.newlines (Markup.sanitize policy (generate blocks).markup).text.toList + 1
      = (blocks.map fun b => Text.newlines b.kind.fragment + 1).sum := by
  rw [← length_linesOf, toList_sanitize_generate,
    linesOf_joinLines (mt List.map_eq_nil_iff.1 h), List.flatMap_map, List.length_flatMap]
  refine congrArg List.sum (List.map_congr_left fun b _ => ?_)
  rw [length_linesOf, b.kind.newlines_safe]

/-- The safe markup of one block is its safe form. -/
theorem sanitize_generate_singleton (policy : Policy) (b : Block) :
    (Markup.sanitize policy (generate [b]).markup).text = (b.kind.safe policy).text := by
  refine String.toList_injective ?_
  rw [toList_sanitize_generate]
  exact List.intercalate_singleton

/-! ## The map of a preview -/

/-- **Nothing is left of the only block.** -/
def Forest.Vanishes (policy : Policy) (forest : Forest) : Prop :=
  ∃ b, forest.blocks = [b] ∧ (b.kind.safe policy).text = ""

/-- Safe markup without characters has one line, and so has the block it comes of. -/
theorem Forest.vanishes_of_text_eq_empty {policy : Policy} {forest : Forest}
    (hblocks : forest.blocks ≠ [])
    (htext : (Markup.sanitize policy forest.generate.markup).text = "") :
    forest.Vanishes policy := by
  have hlines := newlines_sanitize_generate policy hblocks
  rw [Forest.generate] at htext
  rw [htext] at hlines
  match hb : forest.blocks, hblocks with
  | [b], _ =>
    rw [hb, sanitize_generate_singleton] at htext
    exact ⟨b, hb, htext⟩
  | b :: c :: rest, _ =>
    rw [hb, List.map_cons, List.map_cons, List.sum_cons, List.sum_cons] at hlines
    have hnone : Text.newlines "".toList = 0 := rfl
    omega

namespace Preview

/-- **Where the only block vanishes the map is dropped.** -/
theorem map_of_vanishes {policy : Policy} {forest : Forest} (h : forest.Vanishes policy) :
    (ofForest policy forest).map = .empty ∧ forest.generate.map ≠ .empty := by
  obtain ⟨b, hblocks, hsafe⟩ := h
  have hfragment : Text.newlines b.kind.fragment = 0 := by
    rw [← b.kind.newlines_safe policy, hsafe]
    rfl
  have hcount : forest.generate.map.lineCount = 1 := by
    show (LineMap.ofBlocks forest.blocks).lineCount = 1
    rw [LineMap.lineCount_ofBlocks, hblocks, List.map_singleton, List.sum_singleton, hfragment]
  constructor
  · refine if_neg ?_
    rw [hcount, Forest.generate, hblocks, sanitize_generate_singleton, hsafe]
    decide
  · intro hempty
    rw [hempty] at hcount
    exact absurd hcount (by decide)

/-- **Everywhere else the map is kept**, whatever was taken out. -/
theorem map_of_not_vanishes {policy : Policy} {forest : Forest} (h : ¬ forest.Vanishes policy) :
    (ofForest policy forest).map = forest.generate.map := by
  refine if_pos ?_
  show lineCount (Markup.sanitize policy forest.generate.markup).text
    = (LineMap.ofBlocks forest.blocks).lineCount
  rw [LineMap.lineCount_ofBlocks, lineCount]
  by_cases hblocks : forest.blocks = []
  · have hnone : (Markup.sanitize policy forest.generate.markup).text = "" := by
      refine String.toList_injective ?_
      rw [Forest.generate, toList_sanitize_generate, hblocks]
      rfl
    rw [hnone, hblocks]
    rfl
  · have hsome : (Markup.sanitize policy forest.generate.markup).text ≠ "" :=
      fun htext => h (Forest.vanishes_of_text_eq_empty hblocks htext)
    rw [if_neg (mt String.isEmpty_iff.1 hsome), ← newlines_sanitize_generate policy hblocks]
    rfl

/-- The map lists the blocks in reading order. -/
theorem block_ranges_generate (forest : Forest) :
    forest.generate.map.ranges.map (·.block) = forest.blocks.map (·.id) := by
  have hfrom (count : Nat) (blocks : List Block) :
      (rangesFrom count blocks).map (·.block) = blocks.map (·.id) := by
    induction blocks generalizing count with
    | nil => rfl
    | cons block blocks ih => exact congrArg (block.id :: ·) (ih _)
  show (LineMap.ofBlocks forest.blocks).ranges.map (·.block) = _
  rw [LineMap.ranges_ofBlocks, hfrom]

/-- **When the map of a preview is the generated map**: always, except where the only block
vanishes, and there it is dropped. The generated map has each block of the project once, in reading
order. -/
theorem map_ofForest_of_build [ParentOrder] {project : Option ProjectId} {blocks : List Block}
    {forest : Forest} (h : Forest.build project blocks = .ok forest) (policy : Policy) :
    ((ofForest policy forest).map = forest.generate.map ↔ ¬ forest.Vanishes policy)
      ∧ (forest.Vanishes policy → (ofForest policy forest).map = .empty)
      ∧ forest.generate.map.ranges.map (·.block) = forest.blocks.map (·.id)
      ∧ (forest.blocks.map (·.id)).Nodup
      ∧ forest.blocks.Perm (blocks.filter (·.belongsTo project)) := by
  refine ⟨⟨fun hkept hvanishes => ?_, map_of_not_vanishes⟩, fun hvanishes =>
    (map_of_vanishes hvanishes).1, block_ranges_generate forest, Forest.nodup_blocks h,
    Forest.blocks_perm h⟩
  obtain ⟨hdropped, hsome⟩ := map_of_vanishes hvanishes
  exact hsome (hkept ▸ hdropped)

/-! ### A link by itself

A policy without links takes the only block out, and its map with it. -/

/-- A link that stands alone. -/
def soleLink : Block := ⟨⟨"l"⟩, none, none, 0, .link "https://example.org" "go"⟩

/-- The forest of that link. -/
def soleForest : Forest := ⟨none, [⟨soleLink, 0⟩]⟩

theorem build_soleLink : Forest.build none [soleLink] = .ok soleForest :=
  Forest.build_root rfl

/-- Nothing is left of the link. -/
theorem soleForest_vanishes : soleForest.Vanishes .strict := by
  refine ⟨soleLink, rfl, String.toList_injective ?_⟩
  rw [Kind.toList_safe, Outline.sanitizeChars_written (Kind.isPlain_outline _)]
  decide +kernel

/-- The map of the link is dropped where there are no links. -/
theorem map_ofForest_soleForest :
    Forest.build none [soleLink] = .ok soleForest
      ∧ (ofForest .strict soleForest).map = .empty
      ∧ soleForest.generate.map.ranges.map (·.block) = [soleLink.id] := by
  have h := map_ofForest_of_build build_soleLink .strict
  exact ⟨build_soleLink, h.2.1 soleForest_vanishes, h.2.2.1⟩

/-- **Not every map is kept**, though no line is ever lost. -/
theorem not_forall_map_ofForest_eq :
    ¬ ∀ (policy : Policy) (project : Option ProjectId) (blocks : List Block) (forest : Forest),
      Forest.build project blocks = .ok forest →
        (ofForest policy forest).map = forest.generate.map := by
  intro hkept
  obtain ⟨hdropped, hsome⟩ := map_of_vanishes soleForest_vanishes
  exact hsome (hkept _ _ _ _ build_soleLink ▸ hdropped)

end Preview

end SafePreview
