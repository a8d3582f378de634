import SafePreview.Proofs.Block.Defects
import SafePreview.Proofs.Preview.Project

/-!
# Blocks in another order

A project is a set of blocks; in which order they are stored should not be seen in its preview. Each
of the steps does see it: blocks are read one after the other, the children of a parent are found in
the order given, and the walk takes its first blocks from there. What does not depend on the order
is whether the blocks are a forest (`AreForest.perm`), since that is said of all of them, and then
neither do the children of any parent: they are sorted, and no two have the same index
(`childrenOf_eq_of_perm`). The walk sees the blocks only through those children
(`Forest.rounds_congr`), so it is the same walk.

Where a preview fails, only the kind of the failure is kept. Which block is named does depend on the
order: of two blocks that are each the parent of the other, the first. The order in which parents
are looked at is never fixed, so it too may be another one each time.
-/

namespace SafePreview

open Markup (Policy)

namespace Block

variable {blocks other : List Block}

/-! ## What is said of all blocks -/

theorem HasParent.mono (hsub : blocks ⊆ other) {b : Block} (h : b.HasParent blocks) :
    b.HasParent other := by
  intro id hid
  obtain ⟨parent, hmem, hparent⟩ := h id hid
  exact ⟨parent, hsub hmem, hparent⟩

theorem IsRooted.mono (hsub : blocks ⊆ other) {b : Block} (h : b.IsRooted blocks) :
    b.IsRooted other := by
  induction h with
  | root hparent => exact .root hparent
  | child hmem hparent _ ih => exact .child (hsub hmem) hparent ih

theorem indicesUnder_perm (h : blocks.Perm other) (parent : Option BlockId) :
    (indicesUnder blocks parent).Perm (indicesUnder other parent) :=
  (h.filter _).map _

theorem nodup_ids_perm (h : blocks.Perm other) :
    (blocks.map (·.id)).Nodup ↔ (other.map (·.id)).Nodup :=
  (h.map _).nodup_iff

theorem forall_hasParent_perm (h : blocks.Perm other) :
    (∀ b ∈ blocks, b.HasParent blocks) ↔ ∀ b ∈ other, b.HasParent other :=
  ⟨fun hall b hb => (hall b (h.mem_iff.2 hb)).mono h.subset,
    fun hall b hb => (hall b (h.mem_iff.1 hb)).mono h.symm.subset⟩

theorem forall_nodup_indicesUnder_perm (h : blocks.Perm other) :
    (∀ parent, (indicesUnder blocks parent).Nodup) ↔ ∀ parent, (indicesUnder other parent).Nodup :=
  forall_congr' fun parent => (indicesUnder_perm h parent).nodup_iff

/-- **Whether blocks are a forest does not depend on their order.** -/
theorem AreForest.perm (h : blocks.Perm other) (hforest : AreForest blocks) : AreForest other where
  ids := (nodup_ids_perm h).1 hforest.ids
  parents := (forall_hasParent_perm h).1 hforest.parents
  indices := (forall_nodup_indicesUnder_perm h).1 hforest.indices
  rooted b hb := (hforest.rooted b (h.mem_iff.2 hb)).mono h.subset

/-- **The kind of the first defect does not depend on the order of the blocks.** -/
theorem FirstDefect.kind_perm (h : blocks.Perm other) {defect defect' : TreeDefect}
    (hfirst : FirstDefect blocks defect) (hfirst' : FirstDefect other defect') :
    defect.kind = defect'.kind ∧ defect.kind ≠ .unknownBlock := by
  have hcases := hfirst.kind_cases
  have hcases' := hfirst'.kind_cases
  rw [nodup_ids_perm h, forall_hasParent_perm h, forall_nodup_indicesUnder_perm h] at hcases
  -- both are now told from the other list, where no two of the four conditions can be met
  grind

/-- **The children of a parent stand in one order**, if no two of them have the same index. -/
theorem childrenOf_eq_of_perm (h : blocks.Perm other) {parent : Option BlockId}
    (hindices : (indicesUnder blocks parent).Nodup) :
    childrenOf blocks parent = childrenOf other parent := by
  have hperm : (childrenOf blocks parent).Perm (childrenOf other parent) :=
    (childrenOf_perm blocks parent).trans
      ((h.filter _).trans (childrenOf_perm other parent).symm)
  have hchildren : ((childrenOf blocks parent).map (·.sortIndex)).Nodup :=
    (map_childrenOf_perm blocks parent).nodup_iff.2 hindices
  refine hperm.eq_of_pairwise (fun a b ha hb hab hba => ?_) (pairwise_childrenOf blocks parent)
    (pairwise_childrenOf other parent)
  exact List.inj_on_of_nodup_map hchildren ha (hperm.mem_iff.2 hb) (Int.le_antisymm hab hba)

/-! ## Reading -/

/-- All blocks can be read exactly if each of them can. -/
theorem firstUnreadable?_eq_none_iff {wires : List WireBlock} :
    firstUnreadable? wires = none ↔ ∀ wire ∈ wires, ∃ block, ofWire wire = .ok block := by
  induction wires with
  | nil => simp [firstUnreadable?]
  | cons wire wires ih =>
    rw [firstUnreadable?, List.forall_mem_cons, ← ih]
    cases ofWire wire with
    | error e => simp
    | ok block => simp

theorem readable_perm {wires others : List WireBlock} (h : wires.Perm others) :
    (readable wires).Perm (readable others) :=
  h.filterMap _

end Block

namespace Forest

open Block

variable {blocks other : List Block}

/-! ## The same walk -/

/-- **The walk sees the blocks only through the children of each parent.** -/
theorem rounds_congr (h : ∀ parent, childrenOf blocks parent = childrenOf other parent) (n : Nat) :
    rounds blocks n = rounds other n := by
  have hround : round blocks = round other := by
    funext s
    unfold round
    split
    · rfl
    · rw [h]
  rw [rounds, rounds, hround, start, start, h]

/-- **A forest does not depend on the order in which its blocks are given**, nor on the order in
which parents are looked at, and neither does the kind of the defect if there is none. -/
theorem arrange_perm (first second : ParentOrder) (h : blocks.Perm other) :
    (∃ order, @arrange first blocks = .ok order ∧ @arrange second other = .ok order)
      ∨ ∃ defect defect', @arrange first blocks = .error defect
        ∧ @arrange second other = .error defect'
        ∧ defect.kind = defect'.kind ∧ defect.kind ≠ .unknownBlock := by
  rcases @arrange_cases first blocks with ⟨hforest, horder⟩ | ⟨defect, hfirst, hdefect⟩
  · rcases @arrange_cases second other with ⟨-, horder'⟩ | ⟨defect', hfirst', -⟩
    · have hsame := rounds_congr fun parent =>
        childrenOf_eq_of_perm h (hforest.indices parent)
      rw [← h.length_eq, ← hsame] at horder'
      exact .inl ⟨_, horder, horder'⟩
    · exact absurd (hforest.perm h) hfirst'.not_areForest
  · rcases @arrange_cases second other with ⟨hforest', -⟩ | ⟨defect', hfirst', hdefect'⟩
    · exact absurd (hforest'.perm h.symm) hfirst.not_areForest
    · exact .inr ⟨defect, defect', hdefect, hdefect', hfirst.kind_perm h hfirst'⟩

/-- The same of the blocks of a project. -/
theorem build_perm (first second : ParentOrder) (h : blocks.Perm other)
    (project : Option ProjectId) :
    (∃ forest, @build first project blocks = .ok forest ∧ @build second project other = .ok forest)
      ∨ ∃ defect defect', @build first project blocks = .error defect
        ∧ @build second project other = .error defect'
        ∧ defect.kind = defect'.kind ∧ defect.kind ≠ .unknownBlock := by
  unfold build
  rcases arrange_perm first second (h.filter (·.belongsTo project)) with
    ⟨order, horder, horder'⟩ | ⟨defect, defect', hdefect, hdefect', hkind⟩
  · rw [horder, horder']
    exact .inl ⟨_, rfl, rfl⟩
  · rw [hdefect, hdefect']
    exact .inr ⟨defect, defect', rfl, rfl, hkind⟩

end Forest

namespace Preview

/-! ## The same preview -/

/-- **A preview does not depend on the order in which the blocks are stored**, nor on the orders in
which their parents are looked at one time and the other. In any two orders it is the same preview
or it fails; and if all blocks can be read, it fails for defects of one kind. -/
theorem render_perm (first second : ParentOrder) (policy : Policy) (project : Option ProjectId)
    {wires others : List WireBlock} (h : wires.Perm others) :
    (∃ preview, @render first policy project wires = .ok preview
        ∧ @render second policy project others = .ok preview)
      ∨ ∃ e e', @render first policy project wires = .error e
        ∧ @render second policy project others = .error e'
        ∧ ((∀ wire ∈ wires, ∃ block, Block.ofWire wire = .ok block) →
          ∃ defect defect', e = .malformedTree defect ∧ e' = .malformedTree defect'
            ∧ defect.kind = defect'.kind ∧ defect.kind ≠ .unknownBlock) := by
  have hread : Block.firstUnreadable? wires = none ↔ Block.firstUnreadable? others = none := by
    rw [Block.firstUnreadable?_eq_none_iff, Block.firstUnreadable?_eq_none_iff]
    exact ⟨fun hall wire hmem => hall wire (h.mem_iff.2 hmem),
      fun hall wire hmem => hall wire (h.mem_iff.1 hmem)⟩
  rw [@render_eq_build first, @render_eq_build second, ← Block.firstUnreadable?_eq_none_iff]
  cases hfound : Block.firstUnreadable? wires with
  | some found =>
    cases hfound' : Block.firstUnreadable? others with
    | some found' => exact .inr ⟨found.2, found'.2, rfl, rfl, fun hnone => nomatch hnone⟩
    | none =>
      rw [hread.2 hfound'] at hfound
      cases hfound
  | none =>
    rw [hread.1 hfound]
    simp only
    rcases Forest.build_perm first second (Block.readable_perm h) project with
      ⟨forest, hforest, hforest'⟩ | ⟨defect, defect', hdefect, hdefect', hkind⟩
    · rw [hforest, hforest']
      exact .inl ⟨_, rfl, rfl⟩
    · rw [hdefect, hdefect']
      exact .inr ⟨_, _, rfl, rfl, fun _ => ⟨defect, defect', rfl, rfl, hkind⟩⟩

/-! ### Two texts, the second stored first -/

/-- A text with the index 1. -/
def upperText : WireBlock := ⟨⟨"a"⟩, none, none, 1, "text", [("content", .string "one\ntwo")]⟩

/-- A text with the index 2. -/
def lowerText : WireBlock := ⟨⟨"b"⟩, none, none, 2, "text", [("content", .string "three")]⟩

/-- The two are a forest, as they are stored. -/
theorem areForest_lowerText_upperText :
    Block.AreForest (Block.readable [lowerText, upperText]) := by
  have hread : Block.readable [lowerText, upperText]
      = [⟨⟨"b"⟩, none, none, 2, .text "three"⟩, ⟨⟨"a"⟩, none, none, 1, .text "one\ntwo"⟩] := rfl
  rw [hread]
  constructor
  case ids => decide
  case parents => simp [Block.HasParent]
  case indices =>
    intro parent
    cases parent with
    | none => decide
    | some id => simp [Block.indicesUnder]
  case rooted => simp [Block.IsRooted.root]

/-- Both orders have one preview. -/
theorem render_lowerText_upperText :
    [lowerText, upperText].Perm [upperText, lowerText]
      ∧ ∃ preview, render .preview none [lowerText, upperText] = .ok preview
        ∧ render .preview none [upperText, lowerText] = .ok preview := by
  have hperm : [lowerText, upperText].Perm [upperText, lowerText] := .swap ..
  refine ⟨hperm, (render_perm inferInstance inferInstance .preview none hperm).resolve_right ?_⟩
  rintro ⟨e, e', hfailed, -⟩
  have hkept : (Block.readable [lowerText, upperText]).filter (·.belongsTo none)
      = Block.readable [lowerText, upperText] := rfl
  have hread : Block.firstUnreadable? [lowerText, upperText] = none := rfl
  rw [render_eq_build, hread] at hfailed
  rcases Forest.build_cases none (Block.readable [lowerText, upperText]) with
    ⟨-, hforest⟩ | ⟨defect, hfirst, -⟩
  · rw [hforest] at hfailed
    cases hfailed
  · rw [hkept] at hfirst
    exact hfirst.not_areForest areForest_lowerText_upperText

end Preview

end SafePreview
