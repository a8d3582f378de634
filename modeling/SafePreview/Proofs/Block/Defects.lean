import SafePreview.Proofs.Block.Rounds
import Mathlib.Data.List.Duplicate

/-!
# Which defect is reported

Blocks are a forest if no id is there twice, every parent that is named is there, no two blocks
under one parent have the same index, and every chain of parents ends at a root (`AreForest`). Each
of the four can fail by itself, and `FirstDefect` says which failure is reported, and of which
block: the four are asked for in this order, and where a block is named it is the first in the order
given.

Only one choice is left open. Several parents may have children of one index, and any of them may be
named; what is fixed is the index, the smallest that is found twice under that parent, in whichever
order the parents are looked at (`Block.duplicate_of_clashAmong?`).

Nothing looks for cycles. Whether every chain of parents ends is read off what the walk has reached,
and that is right because the walk reaches exactly the blocks whose chain ends
(`Forest.mem_walked_iff`).
-/

namespace SafePreview

/-! ## Kinds of defects -/

/-- What is wrong with blocks, whichever blocks they are. -/
inductive DefectKind where
  | missingParent
  | cycle
  | duplicateSortIndex
  | duplicateId
  | unknownBlock
deriving DecidableEq, Repr

/-- The kind of a defect. -/
def TreeDefect.kind : TreeDefect → DefectKind
  | .missingParent _ _ => .missingParent
  | .cycle _ => .cycle
  | .duplicateSortIndex _ _ => .duplicateSortIndex
  | .duplicateId _ => .duplicateId
  | .unknownBlock _ => .unknownBlock

namespace Block

/-! ## Blocks that are a forest -/

/-- A block whose parent, if it names one, is there. -/
def HasParent (blocks : List Block) (b : Block) : Prop :=
  ∀ id ∈ b.parent, ∃ parent ∈ blocks, parent.id = id

/-- The indices of the blocks under one parent, or of the roots. -/
def indicesUnder (blocks : List Block) (parent : Option BlockId) : List Int :=
  (blocks.filter (·.parent = parent)).map (·.sortIndex)

/-- **Blocks that are a forest.** -/
structure AreForest (blocks : List Block) : Prop where
  ids : (blocks.map (·.id)).Nodup
  parents : ∀ b ∈ blocks, b.HasParent blocks
  indices : ∀ parent, (indicesUnder blocks parent).Nodup
  rooted : ∀ b ∈ blocks, b.IsRooted blocks

/-- The first block of which something is true. -/
def IsFirst (P : Block → Prop) (blocks : List Block) (b : Block) : Prop :=
  ∃ before behind, blocks = before ++ b :: behind ∧ (∀ c ∈ before, ¬ P c) ∧ P b

/-- **The defect that is reported**: the first that applies, of the first block that has it. -/
inductive FirstDefect (blocks : List Block) : TreeDefect → Prop
  /-- An earlier block has the id of this one, and up to here there was none such. -/
  | duplicateId {before behind : List Block} {b : Block} (hsplit : blocks = before ++ b :: behind)
      (hbefore : (before.map (·.id)).Nodup) (hagain : b.id ∈ before.map (·.id)) :
      FirstDefect blocks (.duplicateId b.id)
  | missingParent {b : Block} {id : BlockId} (hids : (blocks.map (·.id)).Nodup)
      (hfirst : IsFirst (¬ ·.HasParent blocks) blocks b) (hparent : b.parent = some id) :
      FirstDefect blocks (.missingParent b.id id)
  /-- The index is found twice under the parent, and no smaller one is. -/
  | duplicateSortIndex {parent : Option BlockId} {index : Int} (hids : (blocks.map (·.id)).Nodup)
      (hparents : ∀ b ∈ blocks, b.HasParent blocks)
      (hagain : (indicesUnder blocks parent).Duplicate index)
      (hleast : ∀ i < index, ¬ (indicesUnder blocks parent).Duplicate i) :
      FirstDefect blocks (.duplicateSortIndex parent index)
  | cycle {b : Block} (hids : (blocks.map (·.id)).Nodup)
      (hparents : ∀ b ∈ blocks, b.HasParent blocks)
      (hindices : ∀ parent, (indicesUnder blocks parent).Nodup)
      (hfirst : IsFirst (¬ ·.IsRooted blocks) blocks b) : FirstDefect blocks (.cycle b.id)

variable {blocks : List Block}

/-- The first block of which something is true is one of the blocks. -/
theorem IsFirst.not_forall {P : Block → Prop} {b : Block} (h : IsFirst (¬ P ·) blocks b) :
    ¬ ∀ c ∈ blocks, P c := by
  obtain ⟨before, behind, hsplit, -, hnot⟩ := h
  exact fun hall => hnot (hall b (hsplit ▸ List.mem_append_right _ List.mem_cons_self))

/-- **The kind of the first defect says how far the blocks are a forest.** -/
theorem FirstDefect.kind_cases {defect : TreeDefect} (h : FirstDefect blocks defect) :
    (defect.kind = .duplicateId ∧ ¬ (blocks.map (·.id)).Nodup)
      ∨ (defect.kind = .missingParent ∧ (blocks.map (·.id)).Nodup
        ∧ ¬ ∀ b ∈ blocks, b.HasParent blocks)
      ∨ (defect.kind = .duplicateSortIndex ∧ (blocks.map (·.id)).Nodup
        ∧ (∀ b ∈ blocks, b.HasParent blocks) ∧ ¬ ∀ parent, (indicesUnder blocks parent).Nodup)
      ∨ (defect.kind = .cycle ∧ (blocks.map (·.id)).Nodup
        ∧ (∀ b ∈ blocks, b.HasParent blocks) ∧ (∀ parent, (indicesUnder blocks parent).Nodup)
        ∧ ¬ ∀ b ∈ blocks, b.IsRooted blocks) := by
  cases h with
  | duplicateId hsplit hbefore hagain =>
    refine .inl ⟨rfl, fun hids => ?_⟩
    rw [hsplit, List.map_append, List.map_cons, List.nodup_append] at hids
    exact hids.2.2 _ hagain _ List.mem_cons_self rfl
  | missingParent hids hfirst hparent => exact .inr (.inl ⟨rfl, hids, hfirst.not_forall⟩)
  | duplicateSortIndex hids hparents hagain hleast =>
    exact .inr (.inr (.inl ⟨rfl, hids, hparents, fun hindices => hagain.not_nodup (hindices _)⟩))
  | cycle hids hparents hindices hfirst =>
    exact .inr (.inr (.inr ⟨rfl, hids, hparents, hindices, hfirst.not_forall⟩))

/-- Blocks with a defect are no forest. -/
theorem FirstDefect.not_areForest {defect : TreeDefect} (h : FirstDefect blocks defect) :
    ¬ AreForest blocks := by
  intro hforest
  rcases h.kind_cases with hids | hparents | hindices | hrooted
  · exact hids.2 hforest.ids
  · exact hparents.2.2 hforest.parents
  · exact hindices.2.2.2 hforest.indices
  · exact hrooted.2.2.2.2 hforest.rooted

/-! ## Ids and parents -/

/-- Where no id is found twice, each is there once. -/
theorem nodup_of_firstRepeated? {seen : List BlockId} {blocks : List Block}
    (h : firstRepeated? seen blocks = none) :
    (blocks.map (·.id)).Nodup ∧ ∀ b ∈ blocks, b.id ∉ seen := by
  induction blocks generalizing seen with
  | nil => exact ⟨List.nodup_nil, List.forall_mem_nil _⟩
  | cons block rest ih =>
    rw [firstRepeated?] at h
    split at h
    · cases h
    · rename_i hnew
      obtain ⟨hnodup, hseen⟩ := ih h
      refine ⟨List.nodup_cons.2 ⟨fun hmem => ?_, hnodup⟩, fun b hb => ?_⟩
      · obtain ⟨b, hb, hid⟩ := List.mem_map.1 hmem
        exact hseen b hb (hid ▸ List.mem_cons_self)
      · rcases List.mem_cons.1 hb with rfl | hb
        · exact hnew
        · exact fun hmem => hseen b hb (List.mem_cons_of_mem _ hmem)

/-- **A block that repeats an id** is the first to do so. -/
theorem split_of_firstRepeated? {seen : List BlockId} {b : Block}
    (h : firstRepeated? seen blocks = some b) :
    ∃ before behind, blocks = before ++ b :: behind ∧ (before.map (·.id)).Nodup
      ∧ (∀ c ∈ before, c.id ∉ seen) ∧ (b.id ∈ seen ∨ b.id ∈ before.map (·.id)) := by
  induction blocks generalizing seen with
  | nil => cases h
  | cons block rest ih =>
    rw [firstRepeated?] at h
    split at h
    · rename_i hseen
      cases h
      exact ⟨[], rest, rfl, List.nodup_nil, List.forall_mem_nil _, .inl hseen⟩
    · rename_i hnew
      obtain ⟨before, behind, hsplit, hnodup, hbefore, hagain⟩ := ih h
      have hunseen : ∀ c ∈ before, c.id ∉ seen := fun c hc hmem =>
        hbefore c hc (List.mem_cons_of_mem block.id hmem)
      have hfresh : block.id ∉ before.map (·.id) := by
        intro hmem
        obtain ⟨c, hc, hid⟩ := List.mem_map.1 hmem
        exact hbefore c hc (hid ▸ List.mem_cons_self)
      refine ⟨block :: before, behind, congrArg (block :: ·) hsplit,
        List.nodup_cons.2 ⟨hfresh, hnodup⟩, List.forall_mem_cons.2 ⟨hnew, hunseen⟩, ?_⟩
      rcases hagain with hagain | hagain
      · rcases List.mem_cons.1 hagain with hid | hseen
        · exact .inr (hid ▸ List.mem_cons_self)
        · exact .inl hseen
      · exact .inr (List.mem_cons_of_mem _ hagain)

/-- What the search for a missing parent asks of one block. -/
def orphan? (blocks : List Block) (b : Block) : Option (Block × BlockId) :=
  b.parent.bind fun id => if blocks.any (·.id = id) then none else some (b, id)

theorem firstOrphan?_eq (blocks : List Block) :
    firstOrphan? blocks = blocks.findSome? (orphan? blocks) := rfl

theorem orphan?_eq_none_iff {b : Block} : orphan? blocks b = none ↔ b.HasParent blocks := by
  unfold orphan? HasParent
  cases b.parent with
  | none => exact ⟨fun _ id hid => (nomatch hid), fun _ => rfl⟩
  | some id =>
    have hthere : (blocks.any (·.id = id)) = true ↔ ∃ c ∈ blocks, c.id = id := by
      simp only [List.any_eq_true, decide_eq_true_iff]
    rw [Option.bind_some, ite_eq_left_iff, hthere]
    constructor
    · intro h other hother
      cases hother
      by_contra hmissing
      cases h hmissing
    · exact fun h hmissing => absurd (h id rfl) hmissing

theorem orphan?_eq_some {b : Block} {found : Block × BlockId}
    (h : orphan? blocks b = some found) : found.1 = b ∧ b.parent = some found.2 := by
  obtain ⟨id, hid, hfound⟩ := Option.bind_eq_some_iff.1 h
  split at hfound
  · cases hfound
  · cases hfound
    exact ⟨rfl, hid⟩

/-- Where no orphan is found, every block has its parent. -/
theorem hasParent_of_firstOrphan? (h : firstOrphan? blocks = none) :
    ∀ b ∈ blocks, b.HasParent blocks := by
  rw [firstOrphan?_eq, List.findSome?_eq_none_iff] at h
  exact fun b hb => orphan?_eq_none_iff.1 (h b hb)

/-- **A block that is found to have no parent** is the first such. -/
theorem isFirst_of_firstOrphan? {b : Block} {id : BlockId}
    (h : firstOrphan? blocks = some (b, id)) :
    IsFirst (¬ ·.HasParent blocks) blocks b ∧ b.parent = some id := by
  rw [firstOrphan?_eq, List.findSome?_eq_some_iff] at h
  obtain ⟨before, c, behind, hsplit, hfound, hbefore⟩ := h
  obtain ⟨rfl, hparent⟩ := orphan?_eq_some hfound
  refine ⟨⟨before, behind, hsplit, fun d hd => ?_, fun hhas => ?_⟩, hparent⟩
  · exact not_not_intro (orphan?_eq_none_iff.1 (hbefore d hd))
  · rw [orphan?_eq_none_iff.2 hhas] at hfound
    cases hfound

/-! ## Indices -/

/-- Being found twice does not depend on the order. -/
theorem duplicate_congr {is js : List Int} (h : is.Perm js) (i : Int) :
    is.Duplicate i ↔ js.Duplicate i := by
  rw [List.duplicate_iff_two_le_count, List.duplicate_iff_two_le_count, h.count_eq]

/-- The children of a parent have the indices that are found under it. -/
theorem map_childrenOf_perm (blocks : List Block) (parent : Option BlockId) :
    ((childrenOf blocks parent).map (·.sortIndex)).Perm (indicesUnder blocks parent) :=
  (childrenOf_perm blocks parent).map _

/-- The children of a parent stand in the order of their indices. -/
theorem pairwise_childrenOf (blocks : List Block) (parent : Option BlockId) :
    (childrenOf blocks parent).Pairwise (·.sortIndex ≤ ·.sortIndex) := by
  refine (List.pairwise_mergeSort (fun a b c hab hbc => ?_) (fun a b => ?_) _).imp
    fun h => of_decide_eq_true h
  · exact decide_eq_true (Int.le_trans (of_decide_eq_true hab) (of_decide_eq_true hbc))
  · rw [Bool.or_eq_true, decide_eq_true_iff, decide_eq_true_iff]
    exact Int.le_total _ _

/-- Behind a first block with an index of its own all indices are larger. -/
theorem lt_index_of_ne {a b : Block} {rest : List Block}
    (hsorted : (a :: b :: rest).Pairwise (·.sortIndex ≤ ·.sortIndex))
    (hne : a.sortIndex ≠ b.sortIndex) : ∀ i ∈ (b :: rest).map (·.sortIndex), a.sortIndex < i := by
  obtain ⟨hfirst, hrest⟩ := List.pairwise_cons.1 hsorted
  have hlt : a.sortIndex < b.sortIndex :=
    Int.lt_iff_le_and_ne.2 ⟨hfirst b List.mem_cons_self, hne⟩
  intro i hi
  obtain ⟨c, hc, rfl⟩ := List.mem_map.1 hi
  rcases List.mem_cons.1 hc with rfl | hc
  · exact hlt
  · exact Int.lt_of_lt_of_le hlt ((List.pairwise_cons.1 hrest).1 c hc)

/-- **Where no two neighbours share an index**, no two blocks do. -/
theorem nodup_of_firstSharedIndex? {bs : List Block}
    (hsorted : bs.Pairwise (·.sortIndex ≤ ·.sortIndex)) (h : firstSharedIndex? bs = none) :
    (bs.map (·.sortIndex)).Nodup := by
  fun_induction firstSharedIndex? bs with
  | case1 a b rest hshared => cases h
  | case2 a b rest hne ih =>
    refine List.nodup_cons.2 ⟨fun hmem => ?_, ih (List.pairwise_cons.1 hsorted).2 h⟩
    exact absurd (lt_index_of_ne hsorted hne _ hmem) (Int.lt_irrefl _)
  | case3 bs hshort =>
    cases bs with
    | nil => exact List.nodup_nil
    | cons a rest =>
      cases rest with
      | nil => exact List.nodup_singleton _
      | cons b rest => exact (hshort a b rest rfl).elim

/-- **The first index that two neighbours share** is the smallest that two blocks share. -/
theorem duplicate_of_firstSharedIndex? {bs : List Block} {index : Int}
    (hsorted : bs.Pairwise (·.sortIndex ≤ ·.sortIndex)) (h : firstSharedIndex? bs = some index) :
    (bs.map (·.sortIndex)).Duplicate index
      ∧ ∀ i < index, ¬ (bs.map (·.sortIndex)).Duplicate i := by
  fun_induction firstSharedIndex? bs with
  | case1 a b rest hshared =>
    cases h
    refine ⟨.cons_mem (hshared ▸ List.mem_cons_self), fun i hi hagain => ?_⟩
    obtain ⟨c, hc, rfl⟩ := List.mem_map.1 hagain.mem
    rcases List.mem_cons.1 hc with rfl | hc
    · exact Int.lt_irrefl _ hi
    · exact absurd hi (Int.not_lt_of_ge ((List.pairwise_cons.1 hsorted).1 c hc))
  | case2 a b rest hne ih =>
    obtain ⟨hagain, hleast⟩ := ih (List.pairwise_cons.1 hsorted).2 h
    refine ⟨hagain.duplicate_cons _, fun i hi hdup => ?_⟩
    rcases List.duplicate_cons_iff.1 hdup with ⟨rfl, hmem⟩ | hdup
    · exact absurd (lt_index_of_ne hsorted hne _ hmem) (Int.lt_irrefl _)
    · exact hleast i hi hdup
  | case3 bs hshort => cases h

/-- No parent is left out when they are looked at. -/
theorem mem_arranged_parents [ParentOrder] {b : Block} (hb : b ∈ blocks) :
    b.parent ∈ ParentOrder.arranged (parents blocks) := by
  rw [(ParentOrder.perm _).mem_iff, parents, List.mem_eraseDups]
  exact List.mem_map_of_mem hb

/-- **Whichever order the parents are looked at in**, as long as it has all of them: where nothing
is found, no two blocks under one parent share an index. -/
theorem nodup_of_clashAmong? {parents : List (Option BlockId)}
    (hall : ∀ b ∈ blocks, b.parent ∈ parents) (h : clashAmong? blocks parents = none)
    (parent : Option BlockId) : (indicesUnder blocks parent).Nodup := by
  rw [clashAmong?, List.findSome?_eq_none_iff] at h
  by_cases hparent : parent ∈ parents
  · have hnone := Option.map_eq_none_iff.1 (h parent hparent)
    exact (map_childrenOf_perm blocks parent).nodup_iff.1
      (nodup_of_firstSharedIndex? (pairwise_childrenOf blocks parent) hnone)
  · have hempty : blocks.filter (·.parent = parent) = [] := by
      refine List.filter_eq_nil_iff.2 fun b hb hsame => hparent ?_
      exact of_decide_eq_true hsame ▸ hall b hb
    rw [indicesUnder, hempty]
    exact List.nodup_nil

/-- **Whichever order the parents are looked at in**: what is found is the smallest index that two
blocks under that parent share. -/
theorem duplicate_of_clashAmong? {parents : List (Option BlockId)} {parent : Option BlockId}
    {index : Int} (h : clashAmong? blocks parents = some (parent, index)) :
    (indicesUnder blocks parent).Duplicate index
      ∧ ∀ i < index, ¬ (indicesUnder blocks parent).Duplicate i := by
  obtain ⟨other, -, hfound⟩ := List.exists_of_findSome?_eq_some h
  obtain ⟨i, hshared, hpair⟩ := Option.map_eq_some_iff.1 hfound
  cases hpair
  have hperm := map_childrenOf_perm blocks parent
  obtain ⟨hagain, hleast⟩ :=
    duplicate_of_firstSharedIndex? (pairwise_childrenOf blocks parent) hshared
  exact ⟨(duplicate_congr hperm index).1 hagain,
    fun i hi hdup => hleast i hi ((duplicate_congr hperm i).2 hdup)⟩

end Block

namespace Forest

open Block

variable {blocks : List Block}

/-! ## The whole of it -/

/-- The first block that a test finds. -/
theorem isFirst_of_find? {P : Block → Prop} {p : Block → Bool}
    (hp : ∀ b ∈ blocks, p b = true ↔ P b) {b : Block} (h : blocks.find? p = some b) :
    IsFirst P blocks b := by
  obtain ⟨hfound, before, behind, hsplit, hbefore⟩ := List.find?_eq_some_iff_append.1 h
  have hmem : ∀ c ∈ before, c ∈ blocks := fun c hc => hsplit ▸ List.mem_append_left _ hc
  refine ⟨before, behind, hsplit, fun c hc hP => ?_,
    (hp b (hsplit ▸ List.mem_append_right _ List.mem_cons_self)).1 hfound⟩
  have hnot := hbefore c hc
  rw [(hp c (hmem c hc)).2 hP] at hnot
  cases hnot

/-- The order of a walk has the blocks whose chain of parents ends. -/
theorem any_walked_iff (hids : (blocks.map (·.id)).Nodup) {n : Nat} (hn : blocks.length ≤ n)
    {b : Block} (hb : b ∈ blocks) :
    ((rounds blocks n).walked.reverse.any (·.block.id = b.id)) = true ↔ b.IsRooted blocks := by
  rw [← mem_walked_iff hids hn hb, List.any_reverse, List.any_eq_true]
  refine exists_congr fun p => and_congr_right fun hp => ?_
  rw [decide_eq_true_iff]
  have hmem := (isSound_rounds hids n).part.mem p (List.mem_append_right _ hp)
  exact ⟨List.inj_on_of_nodup_map hids hmem hb, congrArg Block.id⟩

/-- **Blocks are put in order, or they have a first defect.** The order is that of the walk. -/
theorem arrange_cases [ParentOrder] (blocks : List Block) :
    (AreForest blocks
        ∧ arrange blocks = .ok (rounds blocks (blocks.length + 1)).walked.reverse)
      ∨ ∃ defect, FirstDefect blocks defect ∧ arrange blocks = .error defect := by
  unfold arrange
  split
  · rename_i b hrepeated
    obtain ⟨before, behind, hsplit, hbefore, -, hagain⟩ := split_of_firstRepeated? hrepeated
    exact .inr ⟨_, .duplicateId hsplit hbefore (hagain.resolve_left List.not_mem_nil), rfl⟩
  · rename_i hrepeated
    have hids := (nodup_of_firstRepeated? hrepeated).1
    split
    · rename_i b id horphan
      obtain ⟨hfirst, hparent⟩ := isFirst_of_firstOrphan? horphan
      exact .inr ⟨_, .missingParent hids hfirst hparent, rfl⟩
    · rename_i horphan
      have hparents := hasParent_of_firstOrphan? horphan
      split
      · rename_i parent index hclash
        obtain ⟨hagain, hleast⟩ := duplicate_of_clashAmong? hclash
        exact .inr ⟨_, .duplicateSortIndex hids hparents hagain hleast, rfl⟩
      · rename_i hclash
        have hindices := nodup_of_clashAmong? (fun b => mem_arranged_parents) hclash
        rw [walk_eq_rounds hids]
        simp only [bind, Except.bind]
        have hwalked : ∀ b ∈ blocks,
            (!(rounds blocks (blocks.length + 1)).walked.reverse.any (·.block.id = b.id)) = true
              ↔ ¬ b.IsRooted blocks := fun b hb => by
          rw [← any_walked_iff hids (Nat.le_succ _) hb, Bool.not_eq_true', Bool.not_eq_true]
        split
        · rename_i b hstranded
          have hfirst := isFirst_of_find? hwalked hstranded
          exact .inr ⟨_, .cycle hids hparents hindices hfirst, rfl⟩
        · rename_i hstranded
          refine .inl ⟨⟨hids, hparents, hindices, fun b hb => ?_⟩, rfl⟩
          exact not_not.1 (mt (hwalked b hb).2 (List.find?_eq_none.1 hstranded b hb))

/-- A forest is built of the blocks of its project, or their first defect is reported. -/
theorem build_cases [ParentOrder] (project : Option ProjectId) (blocks : List Block) :
    let kept := blocks.filter (·.belongsTo project)
    (AreForest kept
        ∧ build project blocks = .ok ⟨project, (rounds kept (kept.length + 1)).walked.reverse⟩)
      ∨ ∃ defect, FirstDefect kept defect ∧ build project blocks = .error defect := by
  intro kept
  unfold build
  rcases arrange_cases kept with ⟨hforest, horder⟩ | ⟨defect, hfirst, horder⟩
  · rw [horder]
    exact .inl ⟨hforest, rfl⟩
  · rw [horder]
    exact .inr ⟨defect, hfirst, rfl⟩

/-- **What is decided when a forest is built.** It is built exactly if the blocks of the project are
a forest, and else their first defect is reported. Behind the checks, no block that waits in the
walk was walked before; so the walk is a repetition of rounds and reports nothing, and after as many
rounds as there are blocks none waits, whether or not there is a cycle. -/
theorem build_decides_areForest [ParentOrder] (project : Option ProjectId) (blocks : List Block) :
    let kept := blocks.filter (·.belongsTo project)
    ((∃ forest, build project blocks = .ok forest) ↔ AreForest kept)
      ∧ (∀ defect, build project blocks = .error defect → FirstDefect kept defect)
      ∧ ((kept.map (·.id)).Nodup →
        (∀ n, ∀ next ∈ (rounds kept n).waiting, ∀ q ∈ (rounds kept n).walked,
          q.block.id ≠ next.block.id)
        ∧ (∀ steps, walk kept steps (place 0 (childrenOf kept none)) []
          = .ok (rounds kept steps).walked.reverse)
        ∧ ∀ n ≥ kept.length, (rounds kept n).waiting = []) := by
  intro kept
  refine ⟨?_, fun defect hbuild => ?_, fun hids => ⟨fun n next hnext q hq => ?_,
    walk_eq_rounds hids, fun n hn => waiting_rounds hids hn⟩⟩
  · rcases build_cases project blocks with ⟨hforest, hbuild⟩ | ⟨defect, hfirst, hbuild⟩
    · exact ⟨fun _ => hforest, fun _ => ⟨_, hbuild⟩⟩
    · rw [hbuild]
      exact ⟨fun ⟨_, h⟩ => (nomatch h), fun hforest => absurd hforest hfirst.not_areForest⟩
  · rcases build_cases project blocks with ⟨-, hforest⟩ | ⟨first, hfirst, hbuild'⟩
    · rw [hforest] at hbuild
      cases hbuild
    · rw [hbuild'] at hbuild
      exact Except.error.inj hbuild ▸ hfirst
  · exact (isSound_rounds hids n).id_ne hnext hq

end Forest

end SafePreview
