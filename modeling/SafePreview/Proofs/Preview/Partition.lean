import SafePreview.Proofs.Preview.Lines
import Mathlib.Data.List.Chain

/-!
# The map covers the markup

A generated map gives every line of the generated markup to one block. Markup and map are written
block by block (`generate_concat`): a fragment goes on a line of its own, which takes a line feed in
front of it if anything is there already, and the block gets the lines right behind those of the
others. A block therefore adds the same number of lines to both, those of its fragment, and that is
never none; so the map ends where the markup does (`covers_generate`).

That the lines of a block are the lines of its fragment is a matter of the same counts
(`lines_of_pieces`), as no line feed of a fragment is lost or added when the fragments are joined.
-/

namespace SafePreview

/-! ## Ranges without a gap -/

/-- **Ranges that cover the lines from 1 to a number**, one behind the other. -/
structure LineMap.Covers (map : LineMap) (count : Nat) : Prop where
  first : ∀ r ∈ map.ranges.head?, r.first = 1
  next : map.ranges.IsChain fun r s => s.first = r.last + 1
  first_le_last : ∀ r ∈ map.ranges, r.first ≤ r.last
  last : map.lineCount = count

theorem LineMap.covers_empty : LineMap.empty.Covers 0 where
  first _ hr := nomatch hr
  next := .nil
  first_le_last := List.forall_mem_nil _
  last := rfl

/-- **A block with at least one line goes behind the others.** -/
theorem LineMap.Covers.append {map : LineMap} {count : Nat} (h : map.Covers count)
    (block : BlockId) {more : Nat} (hmore : 0 < more) :
    (map.append block more).Covers (count + more) where
  first r hr := by
    cases hranges : map.ranges with
    | nil =>
      have hcount : map.lineCount = 0 := by rw [LineMap.lineCount, hranges]; rfl
      rw [LineMap.append, hranges, hcount] at hr
      cases hr
      rfl
    | cons s ranges =>
      rw [LineMap.append, hranges] at hr
      exact h.first r (hranges ▸ hr)
  next := by
    refine List.isChain_append.2 ⟨h.next, .singleton _, fun r hr s hs => ?_⟩
    have hcount : map.lineCount = r.last := by rw [LineMap.lineCount, hr]; rfl
    cases hs
    exact congrArg (· + 1) hcount
  first_le_last r hr := by
    rcases List.mem_append.1 hr with hr | hr
    · exact h.first_le_last r hr
    · rw [List.mem_singleton.1 hr]
      show map.lineCount + 1 ≤ map.lineCount + more
      omega
  last := by rw [map.lineCount_append, h.last]

/-! ## Writing block by block -/

/-- **Markup with one more block**: its fragment, on a line of its own, and its lines. -/
def Generated.add (generated : Generated) (block : Block) : Generated where
  markup :=
    (if generated.markup.isEmpty then generated.markup else generated.markup ++ "\n")
      ++ String.ofList block.kind.fragment
  map := generated.map.append block.id (Text.newlines block.kind.fragment + 1)

/-- One piece more stands behind a line feed, if there are others. -/
theorem joinLines_concat {pieces : List (List Char)} (h : pieces ≠ []) (piece : List Char) :
    joinLines (pieces ++ [piece]) = joinLines pieces ++ '\n' :: piece := by
  cases pieces with
  | nil => exact absurd rfl h
  | cons first pieces =>
    rw [List.cons_append, joinLines, joinLines, intercalate_cons, intercalate_cons,
      List.flatMap_append, List.flatMap_singleton, List.append_assoc]
    rfl

/-- A fragment starts with a tag. -/
theorem Kind.fragment_ne_nil (kind : Kind) : kind.fragment ≠ [] := by
  rw [kind.fragment_eq, Outline.written, Markup.startTagText]
  exact List.cons_ne_nil _ _

/-- Only what has no blocks has no characters. -/
theorem markup_generate_ne_empty {blocks : List Block} (h : blocks ≠ []) :
    (generate blocks).markup ≠ "" := by
  intro hempty
  have hchars : joinLines (blocks.map (·.kind.fragment)) = [] := by
    rw [← String.toList_ofList (l := joinLines _)]
    exact congrArg String.toList hempty
  cases blocks with
  | nil => exact h rfl
  | cons block blocks =>
    rw [joinLines, List.map_cons, intercalate_cons] at hchars
    exact block.kind.fragment_ne_nil (List.append_eq_nil_iff.1 hchars).1

/-- **Markup and map are written block by block.** -/
theorem generate_concat (blocks : List Block) (block : Block) :
    generate (blocks ++ [block]) = (generate blocks).add block := by
  have hmap : LineMap.ofBlocks (blocks ++ [block])
      = (LineMap.ofBlocks blocks).append block.id (Text.newlines block.kind.fragment + 1) :=
    List.foldl_concat ..
  have hmarkup : (generate (blocks ++ [block])).markup = ((generate blocks).add block).markup := by
    refine String.toList_injective ?_
    show (String.ofList _).toList = (_ ++ _ : String).toList
    rw [String.toList_ofList, String.toList_append, String.toList_ofList, List.map_append,
      List.map_singleton]
    by_cases hblocks : blocks = []
    · rw [hblocks]
      exact List.intercalate_singleton
    · have hpieces : blocks.map (·.kind.fragment) ≠ [] := mt List.map_eq_nil_iff.1 hblocks
      rw [if_neg (mt String.isEmpty_iff.1 (markup_generate_ne_empty hblocks)),
        joinLines_concat hpieces, String.toList_append, List.append_assoc]
      show _ = (String.ofList _).toList ++ _
      rw [String.toList_ofList]
      rfl
  exact congrArg₂ Generated.mk hmarkup hmap

/-! ## The lines of the markup -/

/-- A text with characters has one line more than line feeds. -/
theorem Preview.lineCount_eq {text : String} (h : text ≠ "") :
    lineCount text = Text.newlines text.toList + 1 :=
  if_neg (mt String.isEmpty_iff.1 h)

/-- A block adds the lines of its fragment to the markup. -/
theorem Generated.lineCount_add (generated : Generated) (block : Block) :
    Preview.lineCount (generated.add block).markup
      = Preview.lineCount generated.markup + (Text.newlines block.kind.fragment + 1) := by
  have hsome : (generated.add block).markup ≠ "" := by
    intro hempty
    have hchars := congrArg String.toList hempty
    rw [add, String.toList_append, String.toList_ofList] at hchars
    exact block.kind.fragment_ne_nil (List.append_eq_nil_iff.1 hchars).2
  rw [Preview.lineCount_eq hsome, add, String.toList_append, String.toList_ofList,
    Text.newlines_append]
  by_cases hfirst : generated.markup = ""
  · rw [hfirst]
    exact (Nat.add_assoc ..).trans (congrArg (· + _) rfl)
  · have hfeed : Text.newlines "\n".toList = 1 := rfl
    rw [if_neg (mt String.isEmpty_iff.1 hfirst), Preview.lineCount_eq hfirst, String.toList_append,
      Text.newlines_append, hfeed]
    omega

/-- **The map of a markup covers its lines.** -/
theorem covers_generate (blocks : List Block) :
    (generate blocks).map.Covers (Preview.lineCount (generate blocks).markup) := by
  induction blocks using List.reverseRecOn with
  | nil => exact LineMap.covers_empty
  | append_singleton blocks block ih =>
    rw [generate_concat, Generated.lineCount_add]
    exact ih.append block.id (Nat.succ_pos _)

/-- The lines of the markup, counted and told apart. -/
theorem lineCount_generate (blocks : List Block) :
    Preview.lineCount (generate blocks).markup
      = if blocks = [] then 0 else (linesOf (generate blocks).markup.toList).length := by
  by_cases hblocks : blocks = []
  · rw [hblocks]
    rfl
  · rw [if_neg hblocks, length_linesOf, Preview.lineCount_eq (markup_generate_ne_empty hblocks)]

/-- All lines of a range, if the text has them. -/
def LineRange.linesIn? (range : LineRange) (lines : List (List Char)) : Option (List (List Char)) :=
  range.numbers.mapM (lineAt? lines)

/-- Lines that are found one by one are found together. -/
theorem LineRange.linesIn?_eq (range : LineRange) (lines : List (List Char)) :
    range.linesIn? lines = (range.numbers.map (lineAt? lines)).mapM id := by
  rw [linesIn?, List.mapM_map]
  rfl

/-- **The lines of a block are those of its fragment.** -/
theorem lines_generate (blocks : List Block) :
    (generate blocks).map.ranges.map
        (fun r => (r.block, r.numbers.map (lineAt? (linesOf (generate blocks).markup.toList))))
      = blocks.map fun b => (b.id, (linesOf b.kind.fragment).map some) := by
  show (LineMap.ofBlocks blocks).ranges.map _ = _
  rw [LineMap.ranges_ofBlocks, generate, String.toList_ofList]
  cases blocks with
  | nil => rfl
  | cons block blocks =>
    rw [linesOf_joinLines (mt List.map_eq_nil_iff.1 (List.cons_ne_nil block blocks)),
      List.flatMap_map]
    exact lines_of_pieces (·.kind.fragment) (block :: blocks) (fun _ _ => rfl) []

/-- **The map gives each block the lines of its fragment, and gives away every line once.** The
ranges are those of the blocks, in their order; they cover the lines of the markup, of which there
are none without blocks; and the lines of a range are all there and make up the fragment of its
block. -/
theorem generate_partitions_lines (blocks : List Block) :
    (generate blocks).map.ranges.map (·.block) = blocks.map (·.id)
      ∧ (generate blocks).map.Covers
        (if blocks = [] then 0 else (linesOf (generate blocks).markup.toList).length)
      ∧ (generate blocks).map.ranges.map
          (fun r => (r.linesIn? (linesOf (generate blocks).markup.toList)).map joinLines)
        = blocks.map fun b => some b.kind.fragment := by
  have hlines := lines_generate blocks
  refine ⟨?_, lineCount_generate blocks ▸ covers_generate blocks, ?_⟩
  · have hnames := congrArg (List.map Prod.fst) hlines
    rwa [List.map_map, List.map_map] at hnames
  · have htexts := congrArg (List.map fun found => (found.2.mapM id).map joinLines) hlines
    rw [List.map_map, List.map_map] at htexts
    refine (List.map_congr_left fun r _ => ?_).trans
      (htexts.trans (List.map_congr_left fun b _ => ?_))
    · rw [LineRange.linesIn?_eq]
      rfl
    · have hall : ((linesOf b.kind.fragment).map some).mapM id
          = some (linesOf b.kind.fragment) := by
        rw [List.mapM_map]
        exact List.mapM_pure.trans (congrArg some (List.map_id _))
      show Option.map joinLines (((linesOf b.kind.fragment).map some).mapM id) = _
      rw [hall]
      exact congrArg some (List.intercalate_splitOn '\n')

end SafePreview
