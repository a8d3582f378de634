import SafePreview.Block.Forest
import Mathlib.Data.List.Nodup
import Mathlib.Data.List.Perm.Subperm
import Mathlib.Logic.Function.Iterate

/-!
# What the walk reaches

The walk asks of every block whether it was walked before, and it has a number of steps after which
it stops whatever still waits. Where no id is given twice, both are precautions: a block comes to
wait only when its parent is walked, and has one parent at most, so none comes up a second time –
not on a cycle either, since a cycle is never entered. The walk is then a plain repetition of
rounds (`walk_eq_rounds`), each of which takes another block, and as many rounds as there are blocks
leave none waiting (`waiting_rounds`).

What is walked by then are the blocks whose chain of parents ends at a root, and no others
(`mem_walked_iff`). This is what makes it enough to look for blocks that were not walked: those are
the ones on a cycle or below one.
-/

namespace SafePreview

namespace Block

/-- **A block whose chain of parents ends at a root.** -/
inductive IsRooted (blocks : List Block) : Block → Prop
  | root {b : Block} (hparent : b.parent = none) : IsRooted blocks b
  | child {b parent : Block} (hmem : parent ∈ blocks) (hparent : b.parent = some parent.id)
      (h : IsRooted blocks parent) : IsRooted blocks b

theorem childrenOf_perm (blocks : List Block) (parent : Option BlockId) :
    (childrenOf blocks parent).Perm (blocks.filter (·.parent = parent)) :=
  List.mergeSort_perm _ _

theorem mem_childrenOf {blocks : List Block} {parent : Option BlockId} {b : Block} :
    b ∈ childrenOf blocks parent ↔ b ∈ blocks ∧ b.parent = parent := by
  rw [(childrenOf_perm blocks parent).mem_iff, List.mem_filter, decide_eq_true_iff]

/-- The children of a block are different blocks. -/
theorem nodup_childrenOf {blocks : List Block} (hids : (blocks.map (·.id)).Nodup)
    (parent : Option BlockId) : ((childrenOf blocks parent).map (·.id)).Nodup :=
  ((childrenOf_perm blocks parent).map _).nodup_iff.2 (hids.sublist (List.filter_sublist.map _))

end Block

namespace Forest

/-! ## Parts of the blocks -/

/-- **Blocks that are there, none of them twice.** -/
structure IsPart (blocks : List Block) (placed : List Placed) : Prop where
  mem : ∀ p ∈ placed, p.block ∈ blocks
  nodup : (placed.map (·.block.id)).Nodup

theorem IsPart.perm {blocks : List Block} {placed other : List Placed} (h : IsPart blocks placed)
    (hperm : other.Perm placed) : IsPart blocks other where
  mem p hp := h.mem p (hperm.mem_iff.1 hp)
  nodup := (hperm.map _).nodup_iff.2 h.nodup

/-- Two parts without a common id are one. -/
theorem IsPart.append {blocks : List Block} {placed other : List Placed}
    (h : IsPart blocks placed) (hother : IsPart blocks other)
    (hne : ∀ p ∈ placed, ∀ q ∈ other, p.block.id ≠ q.block.id) :
    IsPart blocks (placed ++ other) where
  mem p hp := (List.mem_append.1 hp).elim (h.mem p) (hother.mem p)
  nodup := by
    rw [List.map_append]
    refine List.nodup_append.2 ⟨h.nodup, hother.nodup, fun i hi j hj => ?_⟩
    obtain ⟨p, hp, rfl⟩ := List.mem_map.1 hi
    obtain ⟨q, hq, rfl⟩ := List.mem_map.1 hj
    exact hne p hp q hq

/-- A part has no more blocks than there are. -/
theorem IsPart.length_le {blocks : List Block} {placed : List Placed} (h : IsPart blocks placed) :
    placed.length ≤ blocks.length := by
  have hsub : placed.map (·.block.id) ⊆ blocks.map (·.id) := by
    intro i hi
    obtain ⟨p, hp, rfl⟩ := List.mem_map.1 hi
    exact List.mem_map_of_mem (h.mem p hp)
  have hlength := (List.subperm_of_subset h.nodup hsub).length_le
  rwa [List.length_map, List.length_map] at hlength

/-- What was put in its place. -/
theorem block_mem_of_mem_place {children : List Block} {depth : Nat} {p : Placed}
    (h : p ∈ place depth children) : p.block ∈ children := by
  obtain ⟨b, hb, rfl⟩ := List.mem_map.1 h
  exact hb

/-- The children of a block, put in their place. -/
theorem isPart_place {blocks : List Block} (hids : (blocks.map (·.id)).Nodup) (depth : Nat)
    (parent : Option BlockId) : IsPart blocks (place depth (Block.childrenOf blocks parent)) where
  mem p hp := (Block.mem_childrenOf.1 (block_mem_of_mem_place hp)).1
  nodup := by
    rw [place, List.map_map]
    exact Block.nodup_childrenOf hids parent

/-! ## Rounds -/

/-- **How far a walk has come.** -/
structure Progress where
  waiting : List Placed
  /-- In reverse. -/
  walked : List Placed

/-- All blocks that a walk has met. -/
def Progress.met (s : Progress) : List Placed := s.waiting ++ s.walked

/-- **One round**: the first block that waits is walked, and its children come to wait in front of
the others. Where none waits nothing happens. -/
def round (blocks : List Block) (s : Progress) : Progress :=
  match s.waiting with
  | [] => s
  | next :: waiting =>
    { waiting := place (next.depth + 1) (Block.childrenOf blocks (some next.block.id)) ++ waiting
      walked := next :: s.walked }

/-- Where a walk starts: the roots wait. -/
def start (blocks : List Block) : Progress := ⟨place 0 (Block.childrenOf blocks none), []⟩

/-- The walk after a number of rounds. -/
def rounds (blocks : List Block) (n : Nat) : Progress := (round blocks)^[n] (start blocks)

/-- **What is true of a walk at any time.** -/
structure Progress.IsSound (blocks : List Block) (s : Progress) : Prop where
  part : IsPart blocks s.met
  rooted : ∀ p ∈ s.met, p.block.IsRooted blocks
  /-- A block is met only after its parent was walked. -/
  parents : ∀ p ∈ s.met, ∀ id ∈ p.block.parent, ∃ q ∈ s.walked, q.block.id = id
  roots : ∀ b ∈ blocks, b.parent = none → ∃ p ∈ s.met, p.block = b
  /-- With a block all its children are met. -/
  children : ∀ q ∈ s.walked, ∀ b ∈ blocks, b.parent = some q.block.id → ∃ p ∈ s.met, p.block = b

variable {blocks : List Block}

/-- Blocks that are put in their place are there. -/
theorem exists_mem_place {b : Block} {children : List Block} (h : b ∈ children) (depth : Nat) :
    ∃ p ∈ place depth children, p.block = b :=
  ⟨⟨b, depth⟩, List.mem_map_of_mem h, rfl⟩

theorem isSound_start (hids : (blocks.map (·.id)).Nodup) : (start blocks).IsSound blocks where
  part := by
    rw [Progress.met, start, List.append_nil]
    exact isPart_place hids 0 none
  rooted p hp := by
    rw [Progress.met, start, List.append_nil] at hp
    exact .root (Block.mem_childrenOf.1 (block_mem_of_mem_place hp)).2
  parents p hp id hid := by
    rw [Progress.met, start, List.append_nil] at hp
    rw [(Block.mem_childrenOf.1 (block_mem_of_mem_place hp)).2] at hid
    cases hid
  roots b hb hroot := by
    obtain ⟨p, hp, hpb⟩ := exists_mem_place (Block.mem_childrenOf.2 ⟨hb, hroot⟩) 0
    exact ⟨p, List.mem_append_left _ hp, hpb⟩
  children q hq := absurd hq List.not_mem_nil

/-- **No block waits that was walked.** -/
theorem Progress.IsSound.id_ne {s : Progress} (h : s.IsSound blocks) {p q : Placed}
    (hp : p ∈ s.waiting) (hq : q ∈ s.walked) : q.block.id ≠ p.block.id := by
  have hnodup := h.part.nodup
  rw [Progress.met, List.map_append] at hnodup
  exact fun hid => (List.nodup_append.1 hnodup).2.2 _ (List.mem_map_of_mem hp) _
    (List.mem_map_of_mem hq) hid.symm

/-- **No child of a block that waits has been met.** It would have been met behind its parent, and
then the parent would not wait any more. -/
theorem Progress.IsSound.child_not_met {s : Progress} (h : s.IsSound blocks)
    (hids : (blocks.map (·.id)).Nodup) {next : Placed} (hnext : next ∈ s.waiting) {b : Block}
    (hb : b ∈ Block.childrenOf blocks (some next.block.id)) {p : Placed} (hp : p ∈ s.met) :
    b.id ≠ p.block.id := by
  intro hid
  obtain ⟨hmem, hparent⟩ := Block.mem_childrenOf.1 hb
  have hsame : b = p.block := List.inj_on_of_nodup_map hids hmem (h.part.mem p hp) hid
  obtain ⟨q, hq, hqid⟩ := h.parents p hp next.block.id (hsame ▸ hparent)
  exact h.id_ne hnext hq hqid

/-- A round meets the children of the block that it takes. -/
theorem met_round_perm (blocks : List Block) (next : Placed) (waiting walked : List Placed) :
    (round blocks ⟨next :: waiting, walked⟩).met.Perm
      (place (next.depth + 1) (Block.childrenOf blocks (some next.block.id))
        ++ Progress.met ⟨next :: waiting, walked⟩) := by
  show ((place _ _ ++ waiting) ++ next :: walked).Perm (place _ _ ++ (next :: (waiting ++ walked)))
  rw [List.append_assoc]
  exact List.perm_middle.append_left _

/-- **A round keeps what is true of a walk.** -/
theorem Progress.IsSound.round {s : Progress} (h : s.IsSound blocks)
    (hids : (blocks.map (·.id)).Nodup) : (round blocks s).IsSound blocks := by
  obtain ⟨waiting, walked⟩ := s
  cases waiting with
  | nil => exact h
  | cons next waiting =>
    have hnext : next ∈ Progress.met ⟨next :: waiting, walked⟩ := List.mem_cons_self
    have hmet := met_round_perm blocks next waiting walked
    -- what is met after the round is a child of the block that was taken, or was met before
    have hcases : ∀ p ∈ (Forest.round blocks ⟨next :: waiting, walked⟩).met,
        (p.block ∈ blocks ∧ p.block.parent = some next.block.id)
          ∨ p ∈ Progress.met ⟨next :: waiting, walked⟩ := fun p hp =>
      (List.mem_append.1 (hmet.mem_iff.1 hp)).imp_left fun hp =>
        Block.mem_childrenOf.1 (block_mem_of_mem_place hp)
    have hkept : ∀ b, (∃ p ∈ Progress.met ⟨next :: waiting, walked⟩, p.block = b) →
        ∃ p ∈ (Forest.round blocks ⟨next :: waiting, walked⟩).met, p.block = b :=
      fun b ⟨p, hp, hpb⟩ => ⟨p, hmet.mem_iff.2 (List.mem_append_right _ hp), hpb⟩
    constructor
    case part =>
      refine ((isPart_place hids _ _).append h.part fun p hp q hq => ?_).perm hmet
      exact h.child_not_met hids List.mem_cons_self (block_mem_of_mem_place hp) hq
    case rooted =>
      intro p hp
      rcases hcases p hp with ⟨-, hparent⟩ | hp
      · exact .child (h.part.mem next hnext) hparent (h.rooted next hnext)
      · exact h.rooted p hp
    case parents =>
      intro p hp id hid
      rcases hcases p hp with ⟨-, hparent⟩ | hp
      · rw [hparent] at hid
        exact ⟨next, List.mem_cons_self, Option.some_inj.1 hid⟩
      · obtain ⟨q, hq, hqid⟩ := h.parents p hp id hid
        exact ⟨q, List.mem_cons_of_mem next hq, hqid⟩
    case roots => exact fun b hb hroot => hkept b (h.roots b hb hroot)
    case children =>
      intro q hq b hb hparent
      rcases List.mem_cons.1 hq with rfl | hq
      · obtain ⟨p, hp, hpb⟩ :=
          exists_mem_place (Block.mem_childrenOf.2 ⟨hb, hparent⟩) (q.depth + 1)
        exact ⟨p, hmet.mem_iff.2 (List.mem_append_left _ hp), hpb⟩
      · exact hkept b (h.children q hq b hb hparent)

theorem Progress.IsSound.iterate {s : Progress} (h : s.IsSound blocks)
    (hids : (blocks.map (·.id)).Nodup) (n : Nat) :
    ((Forest.round blocks)^[n] s).IsSound blocks := by
  induction n generalizing s with
  | zero => exact h
  | succ n ih => exact ih (h.round hids)

theorem isSound_rounds (hids : (blocks.map (·.id)).Nodup) (n : Nat) :
    (rounds blocks n).IsSound blocks :=
  (isSound_start hids).iterate hids n

/-! ## The end of the walk -/

theorem Progress.IsSound.walk_eq {s : Progress} (h : s.IsSound blocks)
    (hids : (blocks.map (·.id)).Nodup) (steps : Nat) :
    walk blocks steps s.waiting s.walked
      = .ok ((Forest.round blocks)^[steps] s).walked.reverse := by
  induction steps generalizing s with
  | zero =>
    obtain ⟨waiting, walked⟩ := s
    cases waiting with
    | nil => rfl
    | cons next waiting => rfl
  | succ steps ih =>
    rw [Function.iterate_succ_apply, ← ih (h.round hids)]
    obtain ⟨waiting, walked⟩ := s
    cases waiting with
    | nil =>
      show walk blocks (steps + 1) [] walked = walk blocks steps [] walked
      rw [walk, walk]
    | cons next waiting =>
      have hnew : ¬ walked.any (·.block.id = next.block.id) = true := by
        intro hany
        obtain ⟨q, hq, hid⟩ := List.any_eq_true.1 hany
        exact h.id_ne List.mem_cons_self hq (of_decide_eq_true hid)
      rw [walk, if_neg hnew]
      rfl

/-- **The walk is a repetition of rounds**, of as many as it has steps. In particular it never comes
to a block that was walked before. -/
theorem walk_eq_rounds (hids : (blocks.map (·.id)).Nodup) (steps : Nat) :
    walk blocks steps (place 0 (Block.childrenOf blocks none)) []
      = .ok (rounds blocks steps).walked.reverse :=
  (isSound_start hids).walk_eq hids steps

/-- Each round walks one block more, as long as one waits. -/
theorem waiting_or_length_walked (blocks : List Block) (n : Nat) :
    (rounds blocks n).waiting = [] ∨ (rounds blocks n).walked.length = n := by
  induction n with
  | zero => exact .inr rfl
  | succ n ih =>
    rw [rounds, Function.iterate_succ_apply']
    rw [rounds] at ih
    generalize (round blocks)^[n] (start blocks) = s at ih
    obtain ⟨waiting, walked⟩ := s
    cases waiting with
    | nil => exact .inl rfl
    | cons next waiting =>
      exact .inr (congrArg (· + 1) (ih.resolve_left (List.cons_ne_nil next waiting)))

/-- **The walk ends**: after as many rounds as there are blocks, no block waits. -/
theorem waiting_rounds (hids : (blocks.map (·.id)).Nodup) {n : Nat} (hn : blocks.length ≤ n) :
    (rounds blocks n).waiting = [] := by
  refine (waiting_or_length_walked blocks n).elim id fun hlength => ?_
  have hmet := (isSound_rounds hids n).part.length_le
  rw [Progress.met, List.length_append, hlength] at hmet
  exact List.eq_nil_of_length_eq_zero (by omega)

/-- At its end all blocks that the walk has met were walked. -/
theorem met_rounds (hids : (blocks.map (·.id)).Nodup) {n : Nat} (hn : blocks.length ≤ n) :
    (rounds blocks n).met = (rounds blocks n).walked := by
  rw [Progress.met, waiting_rounds hids hn, List.nil_append]

/-- **The walk reaches the blocks whose chain of parents ends at a root**, and no others. -/
theorem mem_walked_iff (hids : (blocks.map (·.id)).Nodup) {n : Nat} (hn : blocks.length ≤ n)
    {b : Block} (hb : b ∈ blocks) :
    (∃ p ∈ (rounds blocks n).walked, p.block = b) ↔ b.IsRooted blocks := by
  have hsound := isSound_rounds hids n
  have hmet := met_rounds hids hn
  constructor
  · rintro ⟨p, hp, rfl⟩
    exact hsound.rooted p (hmet ▸ hp)
  · intro hrooted
    -- from the root down: whoever is walked has met its children, and nobody waits any more
    induction hrooted with
    | root hparent => exact hmet ▸ hsound.roots _ hb hparent
    | child hmem hparent _ ih =>
      obtain ⟨q, hq, rfl⟩ := ih hmem
      exact hmet ▸ hsound.children q hq _ hb hparent

end Forest

end SafePreview
