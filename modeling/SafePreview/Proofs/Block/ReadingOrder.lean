import Mathlib.Data.List.Permutation
import Mathlib.Data.Set.Card
import Mathlib.Logic.Relation
import SafePreview.Proofs.Block.Walk

/-!
# The order of the walk is reading order

The walk has a stack and looks at one block at a time; reading order is a recursion over a forest.
What connects them is a relation between what waits and what is still to come (`Reads`): the first
block that waits, then all that comes of its children, then all that comes of the others. A round
takes the first block off the stack and puts its children there, and that is just how what is still
to come begins (`reads_of_waiting`). So the statement about the walk is made from its end, where
nothing waits, and none is needed about how far it has come.

What waits may be of any shape for this. The forest comes in afterwards: where no chain of parents
runs in a circle, the depth of a block is the number of blocks above it (`Reads.depth_eq`), and the
entries behind a block that are deeper than it are those below it (`Reads.exists_split`).
-/

namespace SafePreview

namespace Block

/-! ## Blocks above one another -/

/-- A block and one that names it as its parent, both of them there. -/
def IsParentOf (blocks : List Block) (a b : Block) : Prop :=
  a ∈ blocks ∧ b ∈ blocks ∧ b.parent = some a.id

/-- **A block above another**: its parent, the parent of that one, and so on. -/
def IsAbove (blocks : List Block) : Block → Block → Prop :=
  Relation.TransGen (IsParentOf blocks)

variable {blocks : List Block}

theorem isParentOf_iff_mem_childrenOf {a b : Block} (ha : a ∈ blocks) :
    IsParentOf blocks a b ↔ b ∈ childrenOf blocks (some a.id) := by
  rw [mem_childrenOf]
  exact and_iff_right ha

/-- **A block has one parent.** -/
theorem IsParentOf.unique (hids : (blocks.map (·.id)).Nodup) {a a' b : Block}
    (h : IsParentOf blocks a b) (h' : IsParentOf blocks a' b) : a = a' := by
  refine List.inj_on_of_nodup_map hids h.1 h'.1 (Option.some_inj.1 ?_)
  rw [← h.2.2, h'.2.2]

/-- **Above a child are its parent and what is above that.** -/
theorem isAbove_child_iff (hids : (blocks.map (·.id)).Nodup) {a parent b : Block}
    (hparent : IsParentOf blocks parent b) :
    a.IsAbove blocks b ↔ a = parent ∨ a.IsAbove blocks parent := by
  rw [IsAbove, Relation.TransGen.tail'_iff]
  constructor
  · rintro ⟨c, hac, hcb⟩
    rw [hcb.unique hids hparent, Relation.reflTransGen_iff_eq_or_transGen] at hac
    exact hac.imp_left Eq.symm
  · intro h
    refine ⟨parent, ?_, hparent⟩
    rw [Relation.reflTransGen_iff_eq_or_transGen]
    exact h.imp_left Eq.symm

/-- Nothing is above a root. -/
theorem not_isAbove_root {a b : Block} (hparent : b.parent = none) : ¬ a.IsAbove blocks b := by
  intro h
  obtain ⟨c, -, -, -, hother⟩ := Relation.TransGen.tail'_iff.1 h
  rw [hparent] at hother
  cases hother

/-- **No block whose chain of parents ends is above itself.** -/
theorem IsRooted.not_isAbove_self (hids : (blocks.map (·.id)).Nodup) {b : Block}
    (h : b.IsRooted blocks) : ¬ b.IsAbove blocks b := by
  induction h with
  | root hparent => exact not_isAbove_root hparent
  | @child b parent hmem hparent _ ih =>
    -- a circle through the block is one through its parent
    intro habove
    obtain ⟨c, hbc, hcb⟩ := Relation.TransGen.tail'_iff.1 habove
    have hown : IsParentOf blocks parent b := ⟨hmem, hcb.2.1, hparent⟩
    rw [hcb.unique hids hown] at hbc
    exact ih (Relation.TransGen.head' hown hbc)

theorem finite_above (blocks : List Block) (b : Block) :
    {a : Block | a.IsAbove blocks b}.Finite := by
  refine (List.finite_toSet blocks).subset fun a ha => ?_
  obtain ⟨c, hac, -⟩ := Relation.TransGen.head'_iff.1 ha
  exact hac.1

/-- **One block more is above a child than above its parent.** -/
theorem ncard_above_child (hids : (blocks.map (·.id)).Nodup) {parent b : Block}
    (hparent : IsParentOf blocks parent b) (hrooted : parent.IsRooted blocks) :
    {a : Block | a.IsAbove blocks b}.ncard = {a : Block | a.IsAbove blocks parent}.ncard + 1 := by
  have hinsert : {a : Block | a.IsAbove blocks b}
      = insert parent {a : Block | a.IsAbove blocks parent} :=
    Set.ext fun a => isAbove_child_iff hids hparent
  have hnew : parent ∉ {a : Block | a.IsAbove blocks parent} := hrooted.not_isAbove_self hids
  rw [hinsert, Set.ncard_insert_of_notMem hnew (finite_above blocks parent)]

end Block

namespace Forest

open Block

variable {blocks : List Block}

/-! ## What comes of what waits -/

/-- **What comes of blocks that wait**: the first of them, what comes of its children, and what
comes of the others. -/
inductive Reads (blocks : List Block) : List Placed → List Placed → Prop
  | nil : Reads blocks [] []
  | cons {p : Placed} {waiting below more : List Placed}
      (hbelow : Reads blocks (place (p.depth + 1) (childrenOf blocks (some p.block.id))) below)
      (hmore : Reads blocks waiting more) : Reads blocks (p :: waiting) (p :: (below ++ more))

/-- What comes of two lists comes of the one and then of the other. -/
theorem Reads.of_append {a b order : List Placed} (h : Reads blocks (a ++ b) order) :
    ∃ first second, order = first ++ second ∧ Reads blocks a first ∧ Reads blocks b second := by
  induction a generalizing order with
  | nil => exact ⟨[], order, rfl, .nil, h⟩
  | cons p a ih =>
    cases h with
    | @cons _ _ below more hbelow hmore =>
      obtain ⟨first, second, rfl, hfirst, hsecond⟩ := ih hmore
      exact ⟨p :: (below ++ first), second, by rw [List.cons_append, List.append_assoc],
        .cons hbelow hfirst, hsecond⟩

/-- **A walk that comes to its end adds what comes of the blocks that wait.** -/
theorem reads_of_waiting {s : Progress} {n : Nat} (h : ((round blocks)^[n] s).waiting = []) :
    ∃ order, Reads blocks s.waiting order
      ∧ ((round blocks)^[n] s).walked.reverse = s.walked.reverse ++ order := by
  induction n generalizing s with
  | zero =>
    have hnone : s.waiting = [] := h
    rw [hnone]
    exact ⟨[], .nil, (List.append_nil _).symm⟩
  | succ n ih =>
    rw [Function.iterate_succ_apply] at h ⊢
    obtain ⟨order, hreads, hwalked⟩ := ih h
    obtain ⟨waiting, walked⟩ := s
    cases waiting with
    | nil => exact ⟨order, hreads, hwalked⟩
    | cons next waiting =>
      obtain ⟨below, more, rfl, hbelow, hmore⟩ := Reads.of_append hreads
      refine ⟨next :: (below ++ more), .cons hbelow hmore, hwalked.trans ?_⟩
      show (next :: walked).reverse ++ _ = _
      rw [List.reverse_cons, List.append_assoc]
      rfl

/-- **The order of a forest is what comes of its roots.** -/
theorem reads_order [ParentOrder] {project : Option ProjectId} {forest : Forest}
    (h : build project blocks = .ok forest) :
    let kept := blocks.filter (·.belongsTo project)
    AreForest kept ∧ Reads kept (place 0 (childrenOf kept none)) forest.order := by
  intro kept
  rcases build_cases project blocks with ⟨hforest, hbuild⟩ | ⟨defect, -, hbuild⟩
  · rw [hbuild] at h
    cases h
    obtain ⟨order, hreads, hwalked⟩ := reads_of_waiting
      (waiting_rounds hforest.ids (Nat.le_succ kept.length))
    have horder : (rounds kept (kept.length + 1)).walked.reverse = order := hwalked
    exact ⟨hforest, horder ▸ hreads⟩
  · rw [hbuild] at h
    cases h

/-! ## The recursion -/

/-- Blocks with their own below them, to a number of levels. -/
theorem preorder_succ (blocks : List Block) (levels depth : Nat) (parent : Option BlockId) :
    preorder blocks (levels + 1) depth parent
      = (place depth (childrenOf blocks parent)).flatMap fun p =>
          p :: preorder blocks levels (p.depth + 1) (some p.block.id) := by
  rw [preorder, place, List.flatMap_map]

/-- **What comes of blocks is their reading order**, if that has a level for each block but the
first. -/
theorem Reads.eq_flatMap_preorder {waiting order : List Placed} (h : Reads blocks waiting order)
    {levels : Nat} (hlevels : order.length ≤ levels + 1) :
    order = waiting.flatMap fun p =>
      p :: preorder blocks levels (p.depth + 1) (some p.block.id) := by
  induction h generalizing levels with
  | nil => rfl
  | @cons p waiting below more _ _ ihbelow ihmore =>
    rw [List.length_cons, List.length_append] at hlevels
    have hbelow : below = preorder blocks levels (p.depth + 1) (some p.block.id) := by
      cases levels with
      | zero => exact List.eq_nil_of_length_eq_zero (by omega)
      | succ levels =>
        rw [preorder_succ]
        exact ihbelow (by omega)
    rw [List.flatMap_cons, ← @ihmore levels (by omega), ← hbelow]
    rfl

/-- **What comes of the blocks under a parent is their reading order**, if that has a level for each
block. -/
theorem Reads.eq_preorder {depth : Nat} {parent : Option BlockId} {order : List Placed}
    (h : Reads blocks (place depth (childrenOf blocks parent)) order) {levels : Nat}
    (hlevels : order.length ≤ levels) : order = preorder blocks levels depth parent := by
  cases levels with
  | zero => exact List.eq_nil_of_length_eq_zero (Nat.le_zero.1 hlevels)
  | succ levels =>
    rw [preorder_succ]
    exact h.eq_flatMap_preorder hlevels

/-! ## What stands behind a block -/

/-- A block is above what can be reached from its children. -/
theorem isAbove_iff_mem_place {a b : Block} (ha : a ∈ blocks) (depth : Nat) :
    a.IsAbove blocks b ↔ ∃ w ∈ place depth (childrenOf blocks (some a.id)),
      Relation.ReflTransGen (IsParentOf blocks) w.block b := by
  rw [IsAbove, Relation.TransGen.head'_iff]
  constructor
  · rintro ⟨c, hc, hb⟩
    obtain ⟨w, hw, rfl⟩ := exists_mem_place ((isParentOf_iff_mem_childrenOf ha).1 hc) depth
    exact ⟨w, hw, hb⟩
  · rintro ⟨w, hw, hb⟩
    exact ⟨w.block, (isParentOf_iff_mem_childrenOf ha).2 (block_mem_of_mem_place hw), hb⟩

/-- Blocks that are put in their place are at its depth. -/
theorem depth_of_mem_place {children : List Block} {depth : Nat} {w : Placed}
    (hw : w ∈ place depth children) : w.depth = depth := by
  obtain ⟨b, -, rfl⟩ := List.mem_map.1 hw
  rfl

/-- The children of a block are there. -/
theorem mem_of_mem_place {depth : Nat} {parent : Option BlockId} :
    ∀ w ∈ place depth (childrenOf blocks parent), w.block ∈ blocks :=
  fun _ hw => (mem_childrenOf.1 (block_mem_of_mem_place hw)).1

/-- **What comes of blocks are these and all below them.** -/
theorem Reads.mem_iff {waiting order : List Placed} (h : Reads blocks waiting order)
    (hthere : ∀ w ∈ waiting, w.block ∈ blocks) (b : Block) :
    (∃ q ∈ order, q.block = b)
      ↔ ∃ w ∈ waiting, Relation.ReflTransGen (IsParentOf blocks) w.block b := by
  induction h with
  | nil => exact ⟨fun ⟨q, hq, _⟩ => (nomatch hq), fun ⟨w, hw, _⟩ => (nomatch hw)⟩
  | @cons p waiting below more _ _ ihbelow ihmore =>
    obtain ⟨hp, hthere⟩ := List.forall_mem_cons.1 hthere
    have hbelow : (∃ q ∈ below, q.block = b) ↔ p.block.IsAbove blocks b := by
      rw [ihbelow mem_of_mem_place, isAbove_iff_mem_place hp]
    rw [List.exists_mem_cons_iff, List.exists_mem_cons_iff,
      Relation.reflTransGen_iff_eq_or_transGen, eq_comm, ← IsAbove, ← hbelow, ← ihmore hthere,
      or_assoc]
    simp only [List.mem_append, or_and_right, exists_or]

/-- **What comes of the children of a block is all below it.** -/
theorem Reads.mem_below_iff {p : Placed} {below : List Placed} (hp : p.block ∈ blocks)
    (h : Reads blocks (place (p.depth + 1) (childrenOf blocks (some p.block.id))) below)
    (b : Block) : (∃ q ∈ below, q.block = b) ↔ p.block.IsAbove blocks b := by
  rw [h.mem_iff mem_of_mem_place, isAbove_iff_mem_place hp]

/-- The first of what comes of blocks is the first of these. -/
theorem Reads.head?_eq {waiting order : List Placed} (h : Reads blocks waiting order) :
    order.head? = waiting.head? := by
  cases h with
  | nil => rfl
  | cons hbelow hmore => rfl

/-- What comes of blocks is at their depth or deeper. -/
theorem Reads.le_depth {waiting order : List Placed} (h : Reads blocks waiting order) {depth : Nat}
    (hdepth : ∀ w ∈ waiting, depth ≤ w.depth) : ∀ q ∈ order, depth ≤ q.depth := by
  induction h with
  | nil => exact hdepth
  | @cons p waiting below more _ _ ihbelow ihmore =>
    obtain ⟨hp, hdepth⟩ := List.forall_mem_cons.1 hdepth
    refine List.forall_mem_cons.2 ⟨hp, List.forall_mem_append.2 ⟨ihbelow fun w hw => ?_,
      ihmore hdepth⟩⟩
    rw [depth_of_mem_place hw]
    exact Nat.le_succ_of_le hp

/-- **Behind a block stands what comes of its children**, and behind that nothing or a block that is
no deeper than it. -/
theorem Reads.exists_split {waiting order : List Placed} (h : Reads blocks waiting order)
    {depth : Nat} (hdepth : ∀ w ∈ waiting, w.depth = depth) {p : Placed} (hp : p ∈ order) :
    ∃ before below behind, order = before ++ p :: (below ++ behind)
      ∧ Reads blocks (place (p.depth + 1) (childrenOf blocks (some p.block.id))) below
      ∧ ∀ q ∈ behind.head?, q.depth ≤ p.depth := by
  induction h generalizing depth with
  | nil => cases hp
  | @cons first waiting below more hbelow hmore ihbelow ihmore =>
    obtain ⟨hfirst, hdepth⟩ := List.forall_mem_cons.1 hdepth
    -- what stands behind all that is below the first block is at its depth
    have hnext : ∀ q ∈ more.head?, q.depth = depth := by
      rw [hmore.head?_eq]
      exact fun q hq => hdepth q (List.mem_of_head? hq)
    have hchildren : ∀ w ∈ place (first.depth + 1) (childrenOf blocks (some first.block.id)),
        w.depth = first.depth + 1 := fun w hw => depth_of_mem_place hw
    rcases List.mem_cons.1 hp with rfl | hp
    · refine ⟨[], below, more, rfl, hbelow, fun q hq => ?_⟩
      rw [hnext q hq, hfirst]
    rcases List.mem_append.1 hp with hp | hp
    · obtain ⟨before, inner, behind, rfl, hinner, hbehind⟩ := ihbelow hchildren hp
      refine ⟨first :: before, inner, behind ++ more, by simp, hinner, fun q hq => ?_⟩
      have hdeeper : first.depth + 1 ≤ p.depth :=
        hbelow.le_depth (fun w hw => Nat.le_of_eq (hchildren w hw).symm) p hp
      rw [List.head?_append] at hq
      rcases Option.or_eq_some_iff.1 hq with hq | ⟨-, hq⟩
      · exact hbehind q hq
      · have := hnext q hq
        omega
    · obtain ⟨before, inner, behind, rfl, hinner, hbehind⟩ := ihmore hdepth hp
      exact ⟨first :: (below ++ before), inner, behind, by simp, hinner, hbehind⟩

/-- **The depth of a block is the number of blocks above it.** -/
theorem Reads.depth_eq {waiting order : List Placed} (h : Reads blocks waiting order)
    (hforest : AreForest blocks)
    (hdepth : ∀ w ∈ waiting,
      w.block ∈ blocks ∧ w.depth = {a : Block | a.IsAbove blocks w.block}.ncard) :
    ∀ q ∈ order, q.depth = {a : Block | a.IsAbove blocks q.block}.ncard := by
  induction h with
  | nil => exact fun q hq => (nomatch hq)
  | @cons p waiting below more _ _ ihbelow ihmore =>
    obtain ⟨⟨hmem, hp⟩, hdepth⟩ := List.forall_mem_cons.1 hdepth
    refine List.forall_mem_cons.2 ⟨hp, List.forall_mem_append.2 ⟨ihbelow fun w hw => ?_,
      ihmore hdepth⟩⟩
    obtain ⟨b, hb, rfl⟩ := List.mem_map.1 hw
    have hparent := (isParentOf_iff_mem_childrenOf hmem).2 hb
    rw [ncard_above_child hforest.ids hparent (hforest.rooted p.block hmem), ← hp]
    exact ⟨hparent.2.1, rfl⟩

/-! ## The order of a forest -/

section Built

variable {project : Option ProjectId} {forest : Forest}

/-- Where no two siblings share an index, the children of a block stand in strictly ascending
order. -/
theorem pairwise_lt_childrenOf (hforest : AreForest blocks) (parent : Option BlockId) :
    (childrenOf blocks parent).Pairwise (·.sortIndex < ·.sortIndex) := by
  have hnodup : ((childrenOf blocks parent).map (·.sortIndex)).Nodup :=
    (map_childrenOf_perm blocks parent).nodup_iff.2 (hforest.indices parent)
  exact (pairwise_childrenOf blocks parent).imp₂
    (fun _ _ hle hne => Int.lt_iff_le_and_ne.2 ⟨hle, hne⟩) (List.pairwise_map.1 hnodup)

/-- A forest has a place for each block. -/
theorem length_order [ParentOrder] (h : build project blocks = .ok forest) :
    forest.order.length = (blocks.filter (·.belongsTo project)).length := by
  rw [← (blocks_perm h).length_eq, Forest.blocks, List.length_map]

/-- No two places have the same id. -/
theorem nodup_order [ParentOrder] (h : build project blocks = .ok forest) :
    (forest.order.map (·.block.id)).Nodup := by
  have hnodup := nodup_blocks h
  rw [Forest.blocks, List.map_map] at hnodup
  exact hnodup

/-- **A block has one place in a forest.** -/
theorem eq_of_mem_order [ParentOrder] (h : build project blocks = .ok forest) {p q : Placed}
    (hp : p ∈ forest.order) (hq : q ∈ forest.order) (hid : p.block.id = q.block.id) : p = q :=
  List.inj_on_of_nodup_map (nodup_order h) hp hq hid

/-- **A block stands in front of all below it.** -/
theorem sublist_of_isAbove [ParentOrder] (h : build project blocks = .ok forest) {p q : Placed}
    (hp : p ∈ forest.order) (hq : q ∈ forest.order)
    (habove : p.block.IsAbove (blocks.filter (·.belongsTo project)) q.block) :
    [p, q].Sublist forest.order := by
  obtain ⟨-, hreads⟩ := reads_order h
  obtain ⟨before, below, behind, horder, hbelow, -⟩ :=
    hreads.exists_split (fun w hw => depth_of_mem_place hw) hp
  obtain ⟨c, hchild, -⟩ := Relation.TransGen.head'_iff.1 habove
  obtain ⟨q', hq', hblock⟩ := (hbelow.mem_below_iff hchild.1 q.block).2 habove
  have hmem : q' ∈ forest.order := by
    rw [horder]
    exact List.mem_append_right _ (List.mem_cons_of_mem _ (List.mem_append_left _ hq'))
  have hsame : q = q' := eq_of_mem_order h hq hmem (congrArg Block.id hblock.symm)
  have hbehind : [q].Sublist (below ++ behind) :=
    List.singleton_sublist.2 (List.mem_append_left _ (hsame ▸ hq'))
  rw [horder]
  exact List.sublist_append_of_sublist_right (hbehind.cons_cons p)

/-- **A forest is looked up by the ids of its blocks.** -/
theorem get?_eq_some_iff [ParentOrder] (h : build project blocks = .ok forest) (id : BlockId)
    (b : Block) :
    forest.get? id = some b ↔ b ∈ forest.blocks ∧ b.id = id := by
  rw [get?, Option.map_eq_some_iff]
  constructor
  · rintro ⟨p, hfound, rfl⟩
    have hid := List.find?_some hfound
    exact ⟨List.mem_map_of_mem (List.mem_of_find?_eq_some hfound), of_decide_eq_true hid⟩
  · rintro ⟨hb, rfl⟩
    obtain ⟨p, hp, rfl⟩ := List.mem_map.1 hb
    obtain ⟨q, hfound⟩ : ∃ q, forest.order.find? (·.block.id = p.block.id) = some q :=
      Option.isSome_iff_exists.1 (List.find?_isSome.2 ⟨p, hp, decide_eq_true rfl⟩)
    have hid := List.find?_some hfound
    exact ⟨q, hfound, congrArg Placed.block
      (eq_of_mem_order h (List.mem_of_find?_eq_some hfound) hp (of_decide_eq_true hid))⟩

/-- **A forest is in reading order**: its order is that of the recursion from the roots, with
however many levels as long as there are as many as blocks, and siblings stand in strictly
ascending order there. So each block of the project has one place, in front of all blocks below it
and as deep as there are blocks above it, and is found by its id. -/
theorem order_eq_preorder [ParentOrder] (h : build project blocks = .ok forest) :
    let kept := blocks.filter (·.belongsTo project)
    (∀ levels ≥ kept.length, forest.order = preorder kept levels 0 none)
      ∧ (∀ parent, (childrenOf kept parent).Pairwise (·.sortIndex < ·.sortIndex)
        ∧ ∀ b, b ∈ childrenOf kept parent ↔ b ∈ kept ∧ b.parent = parent)
      ∧ forest.blocks.Perm kept
      ∧ (forest.blocks.map (·.id)).Nodup
      ∧ (∀ p ∈ forest.order, ∀ q ∈ forest.order, p.block.IsAbove kept q.block →
        [p, q].Sublist forest.order)
      ∧ (∀ p ∈ forest.order, p.depth = {a : Block | a.IsAbove kept p.block}.ncard)
      ∧ ∀ id b, forest.get? id = some b ↔ b ∈ kept ∧ b.id = id := by
  intro kept
  obtain ⟨hforest, hreads⟩ := reads_order h
  have hperm := blocks_perm h
  refine ⟨fun levels hlevels => hreads.eq_preorder ((length_order h).trans_le hlevels),
    fun parent => ⟨pairwise_lt_childrenOf hforest parent, fun b => mem_childrenOf⟩, hperm,
    nodup_blocks h, fun p hp q hq => sublist_of_isAbove h hp hq,
    hreads.depth_eq hforest fun w hw => ?_, fun id b => ?_⟩
  · obtain ⟨b, hb, rfl⟩ := List.mem_map.1 hw
    obtain ⟨hmem, hroot⟩ := mem_childrenOf.1 hb
    have hnone : {a : Block | a.IsAbove kept b} = ∅ :=
      Set.eq_empty_of_forall_notMem fun a => not_isAbove_root hroot
    rw [hnone, Set.ncard_empty]
    exact ⟨hmem, rfl⟩
  · rw [get?_eq_some_iff h, hperm.mem_iff]

end Built

/-! ### A book

Its chapters are stored in another order, and with one of another project. -/

/-- A chapter of the book. -/
def chapter (id : String) (parent : Option BlockId) (index : Int) : Block :=
  ⟨⟨id⟩, some ⟨"book"⟩, parent, index, .text id⟩

/-- The chapters as they are stored. -/
def chapters : List Block :=
  [chapter "b" none 2, chapter "a2" (some ⟨"a"⟩) 5,
    { chapter "c" none 2 with project := some ⟨"diary"⟩ }, chapter "a" none 1,
    chapter "a1" (some ⟨"a"⟩) (-1), chapter "a1x" (some ⟨"a1"⟩) 0]

/-- The book. -/
def book : Forest :=
  ⟨some ⟨"book"⟩, [⟨chapter "a" none 1, 0⟩, ⟨chapter "a1" (some ⟨"a"⟩) (-1), 1⟩,
    ⟨chapter "a1x" (some ⟨"a1"⟩) 0, 2⟩, ⟨chapter "a2" (some ⟨"a"⟩) 5, 1⟩, ⟨chapter "b" none 2, 0⟩]⟩

theorem build_chapters : build (some ⟨"book"⟩) chapters = .ok book := by cbv

/-- The book is in reading order, and the chapter in the innermost place has two above it. -/
theorem order_book :
    build (some ⟨"book"⟩) chapters = .ok book
      ∧ book.order = preorder (chapters.filter (·.belongsTo (some ⟨"book"⟩))) 5 0 none
      ∧ {a : Block | a.IsAbove (chapters.filter (·.belongsTo (some ⟨"book"⟩)))
          (chapter "a1x" (some ⟨"a1"⟩) 0)}.ncard = 2 := by
  obtain ⟨horder, -, -, -, -, hdepth, -⟩ := order_eq_preorder build_chapters
  refine ⟨build_chapters, horder 5 (by decide), ?_⟩
  exact (hdepth ⟨chapter "a1x" (some ⟨"a1"⟩) 0, 2⟩ (by decide)).symm

end Forest

end SafePreview
