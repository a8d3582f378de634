import Mathlib.Data.List.TakeWhile
import SafePreview.Proofs.Block.ReadingOrder

/-!
# A subtree is a run of the order

`Forest.subtree` never looks at a parent. It takes a block and the run of deeper entries behind it,
and that this is the block with all blocks below it is a fact about reading order: behind a block
stands what comes of its children, each of them deeper, and behind that nothing or a block that is
no deeper (`Reads.exists_split`). Which of the blocks further up the next one belongs to makes no
difference.
-/

namespace SafePreview

namespace Forest

open Block

variable {project : Option ProjectId} {blocks : List Block} {forest : Forest}

/-- A run ends in front of what does not belong to it. -/
theorem takeWhile_append_of_head? {α : Type} {p : α → Bool} {run behind : List α}
    (hrun : ∀ a ∈ run, p a = true) (hbehind : ∀ a ∈ behind.head?, p a = false) :
    (run ++ behind).takeWhile p = run := by
  rw [List.takeWhile_append_of_pos hrun]
  cases behind with
  | nil => exact List.append_nil run
  | cons a behind =>
    rw [List.takeWhile_cons_of_neg (by rw [hbehind a rfl]; decide), List.append_nil]

/-- **The subtree of a block that has a place**: that place and what comes of its children. -/
theorem subtree_of_mem_order [ParentOrder] (h : build project blocks = .ok forest) {p : Placed}
    (hp : p ∈ forest.order) :
    let kept := blocks.filter (·.belongsTo project)
    ∃ before below behind, forest.order = before ++ p :: (below ++ behind)
      ∧ forest.subtree p.block.id = .ok (p :: below)
      ∧ Reads kept (place (p.depth + 1) (childrenOf kept (some p.block.id))) below := by
  intro kept
  obtain ⟨-, hreads⟩ := reads_order h
  obtain ⟨before, below, behind, horder, hbelow, hbehind⟩ :=
    hreads.exists_split (fun w hw => depth_of_mem_place hw) hp
  refine ⟨before, below, behind, horder, ?_, hbelow⟩
  have hnodup := nodup_order h
  rw [horder, List.map_append, List.map_cons] at hnodup
  have hbefore : ∀ q ∈ before, decide (q.block.id ≠ p.block.id) = true := fun q hq =>
    decide_eq_true ((List.nodup_append.1 hnodup).2.2 _ (List.mem_map_of_mem hq) _
      List.mem_cons_self)
  have hdeeper : ∀ q ∈ below, decide (p.depth < q.depth) = true := fun q hq =>
    decide_eq_true (hbelow.le_depth (fun w hw => Nat.le_of_eq (depth_of_mem_place hw).symm) q hq)
  have hrest : ∀ q ∈ behind.head?, decide (p.depth < q.depth) = false := fun q hq =>
    decide_eq_false (Nat.not_lt.2 (hbehind q hq))
  rw [subtree, horder, List.dropWhile_append_of_pos hbefore,
    List.dropWhile_cons_of_neg (by simp)]
  simp only [takeWhile_append_of_head? hdeeper hrest]

/-- **Only an id that no block has is unknown.** -/
theorem subtree_eq_error_iff [ParentOrder] (h : build project blocks = .ok forest) (id : BlockId)
    (defect : TreeDefect) :
    forest.subtree id = .error defect
      ↔ defect = .unknownBlock id ∧ ∀ b ∈ forest.blocks, b.id ≠ id := by
  constructor
  · intro hfailed
    have hunknown : ∀ b ∈ forest.blocks, b.id ≠ id := by
      rintro b hb rfl
      obtain ⟨p, hp, rfl⟩ := List.mem_map.1 hb
      obtain ⟨_, below, _, -, hsubtree, -⟩ := subtree_of_mem_order h hp
      rw [hsubtree] at hfailed
      cases hfailed
    refine ⟨?_, hunknown⟩
    rw [subtree] at hfailed
    split at hfailed
    · exact (Except.error.inj hfailed).symm
    · cases hfailed
  · rintro ⟨rfl, hunknown⟩
    have hnone : forest.order.dropWhile (·.block.id ≠ id) = [] :=
      List.dropWhile_eq_nil_iff.2 fun p hp => decide_eq_true (hunknown _ (List.mem_map_of_mem hp))
    rw [subtree, hnone]

/-- **A subtree is a block with all blocks below it.** It is asked for in vain exactly if no block
of the project has the id. Otherwise it is a run of the order of the forest, with the places of the
forest, and has the block and every block below it, each once. -/
theorem subtree_isRun [ParentOrder] (h : build project blocks = .ok forest) (id : BlockId) :
    let kept := blocks.filter (·.belongsTo project)
    (∀ defect, forest.subtree id = .error defect
        ↔ defect = .unknownBlock id ∧ ∀ b ∈ kept, b.id ≠ id)
      ∧ ∀ root ∈ kept, root.id = id → ∃ placed, forest.subtree id = .ok placed
        ∧ placed <:+: forest.order
        ∧ (placed.map (·.block.id)).Nodup
        ∧ ∀ b, (∃ p ∈ placed, p.block = b) ↔ b = root ∨ root.IsAbove kept b := by
  intro kept
  have hperm := blocks_perm h
  refine ⟨fun defect => ?_, ?_⟩
  · rw [subtree_eq_error_iff h]
    exact and_congr_right fun _ => forall_congr' fun b => by rw [hperm.mem_iff]
  · rintro root hroot rfl
    obtain ⟨p, hp, rfl⟩ := List.mem_map.1 (hperm.mem_iff.2 hroot)
    obtain ⟨before, below, behind, horder, hsubtree, hbelow⟩ := subtree_of_mem_order h hp
    have hrun : p :: below <:+: forest.order := ⟨before, behind, by rw [horder]; simp⟩
    refine ⟨p :: below, hsubtree, hrun, (nodup_order h).sublist (hrun.sublist.map _), fun b => ?_⟩
    rw [List.exists_mem_cons_iff, hbelow.mem_below_iff hroot, eq_comm]

/-- In the book, a subtree ends in front of a block further up. -/
theorem subtree_book :
    build (some ⟨"book"⟩) chapters = .ok book
      ∧ book.subtree ⟨"a1"⟩
        = .ok [⟨chapter "a1" (some ⟨"a"⟩) (-1), 1⟩, ⟨chapter "a1x" (some ⟨"a1"⟩) 0, 2⟩]
      ∧ book.subtree ⟨"c"⟩ = .error (.unknownBlock ⟨"c"⟩)
      ∧ ∀ b, (b = chapter "a1" (some ⟨"a"⟩) (-1) ∨ b = chapter "a1x" (some ⟨"a1"⟩) 0)
        ↔ b = chapter "a1" (some ⟨"a"⟩) (-1)
          ∨ (chapter "a1" (some ⟨"a"⟩) (-1)).IsAbove
            (chapters.filter (·.belongsTo (some ⟨"book"⟩))) b := by
  obtain ⟨-, hfound⟩ := subtree_isRun build_chapters ⟨"a1"⟩
  obtain ⟨hunknown, -⟩ := subtree_isRun build_chapters ⟨"c"⟩
  have hrun : book.subtree ⟨"a1"⟩
      = .ok [⟨chapter "a1" (some ⟨"a"⟩) (-1), 1⟩, ⟨chapter "a1x" (some ⟨"a1"⟩) 0, 2⟩] := by decide
  obtain ⟨placed, hplaced, -, -, hmem⟩ := hfound (chapter "a1" (some ⟨"a"⟩) (-1)) (by decide) rfl
  rw [hrun] at hplaced
  cases hplaced
  refine ⟨build_chapters, hrun, (hunknown _).2 ⟨rfl, by decide⟩, fun b => ?_⟩
  rw [← hmem b]
  simp [eq_comm]

end Forest

end SafePreview
