import SafePreview.Proofs.Block.Defects

/-!
# A forest has each block of its project once

The walk takes no block twice, and it takes all of them if every chain of parents ends
(`walked_perm`). Whenever a forest is built that is so, and its reading order is that of the walk
(`build_cases`). So the forest is the blocks of the project in another order (`blocks_perm`), and it
can be looked up by their ids.
-/

namespace SafePreview

namespace Forest

variable {project : Option ProjectId} {blocks : List Block} {forest : Forest}

/-- **Where every chain of parents ends, the walk takes each block once.** -/
theorem walked_perm (hids : (blocks.map (·.id)).Nodup) {n : Nat} (hn : blocks.length ≤ n)
    (hrooted : ∀ b ∈ blocks, b.IsRooted blocks) :
    ((rounds blocks n).walked.map (·.block)).Perm blocks := by
  have hpart : IsPart blocks (rounds blocks n).walked :=
    met_rounds hids hn ▸ (isSound_rounds hids n).part
  have hwalked : (((rounds blocks n).walked.map (·.block)).map (·.id)).Nodup := by
    rw [List.map_map]
    exact hpart.nodup
  refine (List.perm_ext_iff_of_nodup (List.Nodup.of_map _ hwalked) (List.Nodup.of_map _ hids)).2
    fun b => ⟨fun hb => ?_, fun hb => ?_⟩
  · obtain ⟨p, hp, rfl⟩ := List.mem_map.1 hb
    exact hpart.mem p hp
  · exact List.mem_map.2 ((mem_walked_iff hids hn hb).2 (hrooted b hb))

/-- **A forest is the blocks of its project**, in another order. -/
theorem blocks_perm [ParentOrder] (h : build project blocks = .ok forest) :
    forest.blocks.Perm (blocks.filter (·.belongsTo project)) := by
  rcases build_cases project blocks with ⟨hforest, hbuild⟩ | ⟨defect, -, hbuild⟩
  · rw [hbuild] at h
    cases h
    exact ((List.reverse_perm _).map _).trans
      (walked_perm hforest.ids (Nat.le_succ _) hforest.rooted)
  · rw [hbuild] at h
    cases h

/-- **No block of a forest has the id of another.** -/
theorem nodup_blocks [ParentOrder] (h : build project blocks = .ok forest) :
    (forest.blocks.map (·.id)).Nodup := by
  rcases build_cases project blocks with ⟨hforest, -⟩ | ⟨defect, -, hbuild⟩
  · exact ((blocks_perm h).map _).nodup_iff.2 hforest.ids
  · rw [hbuild] at h
    cases h

/-- A block without a parent is a forest by itself. -/
theorem build_root [ParentOrder] {b : Block} (h : b.parent = none) :
    build none [b] = .ok ⟨none, [⟨b, 0⟩]⟩ := by
  have hroots : Block.childrenOf [b] none = [b] := by simp [Block.childrenOf, h]
  have hbelow : Block.childrenOf [b] (some b.id) = [] := by simp [Block.childrenOf, h]
  have hclash : Block.firstClash? [b] = none := by
    have hparents : ParentOrder.arranged (Block.parents [b]) = [none] := by
      rw [← List.perm_singleton, Block.parents, List.map_singleton, h]
      exact ParentOrder.perm _
    simp [Block.firstClash?, Block.clashAmong?, Block.firstSharedIndex?, hparents, hroots]
  have hwalk : walk [b] 2 (place 0 [b]) [] = .ok [⟨b, 0⟩] := by simp [walk, place, hbelow]
  have horder : arrange [b] = .ok [⟨b, 0⟩] := by
    simp [arrange, Block.firstRepeated?, Block.firstOrphan?, h, hclash, hroots, hwalk, bind,
      Except.bind]
  have hbelongs : [b].filter (·.belongsTo none) = [b] := by simp [Block.belongsTo]
  rw [build, hbelongs, horder]
  rfl

end Forest

end SafePreview
