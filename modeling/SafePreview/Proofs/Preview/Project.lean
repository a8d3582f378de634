import SafePreview.Preview.Render

/-!
# Blocks of other projects

A preview for one project is made of the blocks that belong to it. Reading comes first, though, and
reads all of them: a block of another project that can be read is left out afterwards, and then
nothing of it is left; one that cannot be read fails the preview before anybody asks whose it is.

So a preview depends on blocks of other projects in one point only (`spoiler?`): whether the first
block that cannot be read is one of theirs. Where it is not, the preview is that of the project's
own blocks, as a result or as an error (`render_eq_of_own`).
-/

namespace SafePreview

open Markup (Policy)

/-! ## Reading all blocks -/

/-- Whether a stored block belongs to the wanted project. One that names no project belongs to
any. -/
def WireBlock.belongsTo (project : Option ProjectId) (wire : WireBlock) : Bool :=
  match project, wire.project with
  | some wanted, some own => wanted = own
  | _, _ => true

namespace Block

/-- **The first block that cannot be read**, with the error. -/
def firstUnreadable? : List WireBlock → Option (WireBlock × BlockError)
  | [] => none
  | wire :: wires =>
    match ofWire wire with
    | .error e => some (wire, e)
    | .ok _ => firstUnreadable? wires

/-- The blocks that can be read. -/
def readable (wires : List WireBlock) : List Block :=
  wires.filterMap fun wire => (ofWire wire).toOption

/-- **Reading gives all blocks, or the error of the first that cannot be read.** -/
theorem ofWires_eq (wires : List WireBlock) :
    ofWires wires = match firstUnreadable? wires with
      | some (_, e) => .error e
      | none => .ok (readable wires) := by
  induction wires with
  | nil => rfl
  | cons wire wires ih =>
    rw [ofWires] at ih
    rw [ofWires, List.mapM_cons, ih, firstUnreadable?]
    cases hwire : ofWire wire with
    | error e => rfl
    | ok block =>
      have hreadable : readable (wire :: wires) = block :: readable wires := by
        rw [readable, List.filterMap_cons, hwire]
        rfl
      rw [hreadable]
      cases firstUnreadable? wires with
      | none => rfl
      | some found => rfl

/-- A block belongs to the project of the stored block that it is. -/
theorem belongsTo_of_ofWire {wire : WireBlock} {block : Block} (h : ofWire wire = .ok block)
    (project : Option ProjectId) : block.belongsTo project = wire.belongsTo project := by
  have hproject : block.project = wire.project := by
    unfold ofWire at h
    split at h
    · cases h
    · cases h
    · cases h
      rfl
  unfold belongsTo WireBlock.belongsTo
  exact hproject ▸ rfl

/-- **Leaving out and reading can be swapped.** -/
theorem readable_filter (project : Option ProjectId) (wires : List WireBlock) :
    readable (wires.filter (·.belongsTo project))
      = (readable wires).filter (·.belongsTo project) := by
  rw [readable, readable, List.filterMap_filter, List.filter_filterMap]
  refine congrArg (List.filterMap · wires) (funext fun wire => ?_)
  cases hwire : ofWire wire with
  | error e => exact ite_self _
  | ok block =>
    show (if wire.belongsTo project = true then some block else none)
      = Option.filter (·.belongsTo project) (some block)
    rw [Option.filter_some, belongsTo_of_ofWire hwire]

/-- Where all blocks can be read, so can those that are kept. -/
theorem firstUnreadable?_filter_of_none {wires : List WireBlock}
    (h : firstUnreadable? wires = none) (keep : WireBlock → Bool) :
    firstUnreadable? (wires.filter keep) = none := by
  induction wires with
  | nil => rfl
  | cons wire wires ih =>
    rw [firstUnreadable?] at h
    split at h
    · cases h
    · rename_i block hwire
      rw [List.filter_cons]
      split
      · rw [firstUnreadable?, hwire]
        exact ih h
      · exact ih h

/-- Where the first block that cannot be read is kept, it is the first of those that are. -/
theorem firstUnreadable?_filter_of_some {wires : List WireBlock} {found : WireBlock × BlockError}
    (h : firstUnreadable? wires = some found) {keep : WireBlock → Bool}
    (hkeep : keep found.1 = true) : firstUnreadable? (wires.filter keep) = some found := by
  induction wires with
  | nil => cases h
  | cons wire wires ih =>
    rw [firstUnreadable?] at h
    rw [List.filter_cons]
    split at h
    · rename_i e hwire
      cases h
      rw [if_pos hkeep, firstUnreadable?, hwire]
    · rename_i block hwire
      split
      · rw [firstUnreadable?, hwire]
        exact ih h
      · exact ih h

/-- The first block that cannot be read is one of the blocks, and cannot be read. -/
theorem ofWire_of_firstUnreadable? {wires : List WireBlock} {found : WireBlock × BlockError}
    (h : firstUnreadable? wires = some found) :
    found.1 ∈ wires ∧ ofWire found.1 = .error found.2 := by
  induction wires with
  | nil => cases h
  | cons wire wires ih =>
    rw [firstUnreadable?] at h
    split at h
    · rename_i e hwire
      cases h
      exact ⟨List.mem_cons_self, hwire⟩
    · exact ⟨List.mem_cons_of_mem _ (ih h).1, (ih h).2⟩

end Block

/-! ## The blocks that count -/

/-- A forest is built of the project's own blocks. -/
theorem Forest.build_filter [ParentOrder] (project : Option ProjectId) (blocks : List Block) :
    build project (blocks.filter (·.belongsTo project)) = build project blocks := by
  rw [build, build, List.filter_filter]
  simp only [Bool.and_self]

namespace Preview

/-- **The error of a block of another project**, if that is the first block that cannot be read. -/
def spoiler? (project : Option ProjectId) (wires : List WireBlock) : Option BlockError :=
  match Block.firstUnreadable? wires with
  | some (wire, e) => if wire.belongsTo project then none else some e
  | none => none

/-- A preview is the forest of the blocks that were read, if all were. -/
theorem render_eq_build [ParentOrder] (policy : Policy) (project : Option ProjectId)
    (wires : List WireBlock) :
    render policy project wires = match Block.firstUnreadable? wires with
      | some (_, e) => .error e
      | none => match Forest.build project (Block.readable wires) with
        | .ok forest => .ok (ofForest policy forest)
        | .error defect => .error (.malformedTree defect) := by
  rw [render, Block.ofWires_eq]
  cases Block.firstUnreadable? wires with
  | some found => rfl
  | none => rfl

/-- A block of another project that cannot be read fails the preview, if it is the first. -/
theorem render_of_spoiler [ParentOrder] {project : Option ProjectId} {wires : List WireBlock}
    {e : BlockError} (h : spoiler? project wires = some e) (policy : Policy) :
    render policy project wires = .error e := by
  rw [render_eq_build]
  unfold spoiler? at h
  cases hfound : Block.firstUnreadable? wires with
  | none =>
    rw [hfound] at h
    cases h
  | some found =>
    rw [hfound] at h
    simp only at h
    split at h
    · cases h
    · cases h
      rfl

/-- **Otherwise the preview is that of the project's own blocks.** -/
theorem render_of_no_spoiler [ParentOrder] {project : Option ProjectId} {wires : List WireBlock}
    (h : spoiler? project wires = none) (policy : Policy) :
    render policy project wires
      = render policy project (wires.filter (·.belongsTo project)) := by
  rw [render_eq_build, render_eq_build]
  unfold spoiler? at h
  cases hfound : Block.firstUnreadable? wires with
  | none =>
    rw [Block.firstUnreadable?_filter_of_none hfound, Block.readable_filter, Forest.build_filter]
  | some found =>
    rw [hfound] at h
    simp only at h
    split at h
    · rename_i hown
      rw [Block.firstUnreadable?_filter_of_some hfound hown]
    · cases h

/-- Where all blocks of other projects can be read, none of them is in the way. -/
theorem spoiler?_eq_none {project : Option ProjectId} {wires : List WireBlock}
    (h : ∀ wire ∈ wires, wire.belongsTo project = false → ∃ block, Block.ofWire wire = .ok block) :
    spoiler? project wires = none := by
  unfold spoiler?
  cases hfound : Block.firstUnreadable? wires with
  | none => rfl
  | some found =>
    obtain ⟨hmem, herror⟩ := Block.ofWire_of_firstUnreadable? hfound
    refine if_pos (Bool.not_eq_false _ ▸ fun hother => ?_)
    obtain ⟨block, hblock⟩ := h found.1 hmem hother
    rw [herror] at hblock
    cases hblock

/-- **What blocks of other projects can do to a preview.** Either the first block that cannot be
read is one of theirs, and then its error is all there is; or the preview is that of the project's
own blocks, as a result or as an error. So they do nothing exactly if there is no such block, or if
the project's own blocks fail with the same error, and certainly if all of them can be read. -/
theorem render_own_blocks [ParentOrder] (policy : Policy) (project : Option ProjectId)
    (wires : List WireBlock) :
    (render policy project wires = match spoiler? project wires with
        | some e => .error e
        | none => render policy project (wires.filter (·.belongsTo project)))
      ∧ (render policy project wires
            = render policy project (wires.filter (·.belongsTo project))
          ↔ ∀ e ∈ spoiler? project wires,
            render policy project (wires.filter (·.belongsTo project)) = .error e)
      ∧ ((∀ wire ∈ wires, wire.belongsTo project = false →
            ∃ block, Block.ofWire wire = .ok block) →
          render policy project wires
            = render policy project (wires.filter (·.belongsTo project))) := by
  refine ⟨?_, ?_, fun h => render_of_no_spoiler (spoiler?_eq_none h) policy⟩
  · cases hspoiler : spoiler? project wires with
    | some e => exact render_of_spoiler hspoiler policy
    | none => exact render_of_no_spoiler hspoiler policy
  · cases hspoiler : spoiler? project wires with
    | some e =>
      rw [render_of_spoiler hspoiler]
      constructor
      · intro hsame other hother
        rw [← Option.some_inj.1 hother, ← hsame]
      · exact fun h => (h e rfl).symm
    | none => exact ⟨fun _ e he => (nomatch he), fun _ => render_of_no_spoiler hspoiler policy⟩

/-! ### Two projects in one list -/

/-- A text of one project. -/
def ownText : WireBlock := ⟨⟨"a"⟩, some ⟨"p1"⟩, none, 0, "text", [("content", .string "mine")]⟩

/-- A text of another project, with the same id. -/
def namesake : WireBlock := { ownText with project := some ⟨"p2"⟩ }

/-- A block of that other project, of a type that there is not. -/
def strangeBlock : WireBlock := ⟨⟨"b"⟩, some ⟨"p2"⟩, none, 0, "video", []⟩

theorem ofWire_ownText : Block.ofWire ownText
    = .ok ⟨⟨"a"⟩, some ⟨"p1"⟩, none, 0, .text "mine"⟩ := rfl

theorem ofWire_namesake : Block.ofWire namesake
    = .ok ⟨⟨"a"⟩, some ⟨"p2"⟩, none, 0, .text "mine"⟩ := rfl

/-- A text of another project does nothing, though with its id the two are no forest. -/
theorem render_namesake (policy : Policy) :
    render policy (some ⟨"p1"⟩) [ownText, namesake] = render policy (some ⟨"p1"⟩) [ownText] := by
  refine (render_own_blocks policy (some ⟨"p1"⟩) [ownText, namesake]).2.2 ?_
  exact List.forall_mem_cons.2 ⟨fun _ => ⟨_, ofWire_ownText⟩,
    List.forall_mem_singleton.2 fun _ => ⟨_, ofWire_namesake⟩⟩

/-- **A block of another project can fail a preview.** -/
theorem not_forall_render_eq_own :
    ¬ ∀ (policy : Policy) (p : ProjectId) (wires : List WireBlock),
      render policy (some p) wires
        = render policy (some p) (wires.filter (·.belongsTo (some p))) := by
  intro h
  have hown : [ownText, strangeBlock].filter (·.belongsTo (some ⟨"p1"⟩)) = [ownText] := rfl
  have hspoiler : spoiler? (some ⟨"p1"⟩) [ownText, strangeBlock]
      = some (.unsupportedType ⟨"b"⟩ "video") := rfl
  have hsame := h .preview ⟨"p1"⟩ [ownText, strangeBlock]
  rw [hown, render_of_spoiler hspoiler, render_eq_build] at hsame
  -- the text can be read, so what is left to go wrong is the forest
  rw [show Block.firstUnreadable? [ownText] = none from rfl] at hsame
  simp only at hsame
  split at hsame
  · cases hsame
  · cases hsame

end Preview

end SafePreview
