import SafePreview.Preview.Render
import SafePreview.Proofs.Preview.Fragment

/-!
# The lines of a block stay its lines

The map of a generated markup is made of line counts alone: each block takes as many lines as its
fragment has, right behind the block before it (`LineMap.ranges_ofBlocks`). The same counts tell
where the pieces of any joined text stand, so the map fits every text whose pieces have the line
feeds of the fragments (`lines_of_pieces`). The safe markup is such a text: it is the safe forms of
the fragments on lines of their own, and no safe form has lost or gained a line.
-/

namespace SafePreview

open Markup (Policy SafeMarkup sanitize)

/-! ## Lines of a text -/

/-- **The lines of a text.** A text without line feeds is one line. -/
def linesOf (cs : List Char) : List (List Char) := cs.splitOn '\n'

/-- The line with a number. Lines count from 1. -/
def lineAt? (lines : List (List Char)) : Nat → Option (List Char)
  | 0 => none
  | n + 1 => lines[n]?

/-- The numbers of the lines in a range. -/
def LineRange.numbers (range : LineRange) : List Nat :=
  List.range' range.first (range.last + 1 - range.first)

/-- A text has one line more than line feeds. -/
theorem length_linesOf (cs : List Char) : (linesOf cs).length = Text.newlines cs + 1 := by
  induction cs with
  | nil => rfl
  | cons c cs ih =>
    rw [linesOf] at ih
    rw [linesOf, List.splitOn_cons_eq_if_modifyHead]
    by_cases hc : c = '\n'
    · rw [if_pos (beq_iff_eq.2 hc), List.length_cons, ih, hc]
      exact congrArg (· + 1) List.count_cons_self.symm
    · rw [if_neg (mt beq_iff_eq.1 hc), List.length_modifyHead, ih, Markup.newlines_cons_of_ne cs hc]

/-- **Pieces on lines of their own** are their lines, one piece behind the other. -/
theorem linesOf_joinLines {pieces : List (List Char)} (h : pieces ≠ []) :
    linesOf (joinLines pieces) = pieces.flatMap linesOf := by
  induction pieces with
  | nil => exact absurd rfl h
  | cons piece pieces ih =>
    cases pieces with
    | nil => rw [joinLines, List.intercalate_singleton, List.flatMap_singleton]
    | cons next pieces =>
      have hjoin : joinLines (piece :: next :: pieces)
          = piece ++ '\n' :: joinLines (next :: pieces) := by
        rw [joinLines, List.intercalate_cons_cons, List.append_assoc]
        rfl
      rw [hjoin, linesOf, List.splitOn_append_cons_self, List.flatMap_cons,
        ← ih (List.cons_ne_nil _ _)]
      rfl

/-- The lines behind others have the numbers behind theirs. -/
theorem map_lineAt?_range' (before piece behind : List (List Char)) :
    (List.range' (before.length + 1) piece.length).map (lineAt? (before ++ piece ++ behind))
      = piece.map some := by
  refine List.ext_getElem (by simp) fun i hi hi' => ?_
  have hpiece : i < piece.length := by simpa using hi'
  rw [List.getElem_map, List.getElem_map, List.getElem_range', Nat.one_mul, Nat.add_right_comm,
    lineAt?, List.append_assoc, List.getElem?_append_right (Nat.le_add_right _ _),
    Nat.add_sub_cancel_left, List.getElem?_append_left hpiece, List.getElem?_eq_getElem hpiece]

/-! ## Where the map puts the blocks -/

/-- The lines of blocks behind `count` others. -/
def rangesFrom (count : Nat) : List Block → List LineRange
  | [] => []
  | block :: blocks =>
    let last := count + (Text.newlines block.kind.fragment + 1)
    ⟨block.id, count + 1, last⟩ :: rangesFrom last blocks

/-- A block more is its lines more. -/
theorem LineMap.lineCount_append (map : LineMap) (block : BlockId) (count : Nat) :
    (map.append block count).lineCount = map.lineCount + count := by
  rw [LineMap.append, LineMap.lineCount, List.getLast?_concat]
  rfl

theorem LineMap.ranges_foldl_append (map : LineMap) (blocks : List Block) :
    (blocks.foldl
        (fun map block => map.append block.id (Text.newlines block.kind.fragment + 1)) map).ranges
      = map.ranges ++ rangesFrom map.lineCount blocks := by
  induction blocks generalizing map with
  | nil => exact (List.append_nil _).symm
  | cons block blocks ih =>
    rw [List.foldl_cons, ih, LineMap.lineCount_append, LineMap.append, List.append_assoc]
    rfl

/-- **The map puts each block behind the one before it.** -/
theorem LineMap.ranges_ofBlocks (blocks : List Block) :
    (LineMap.ofBlocks blocks).ranges = rangesFrom 0 blocks :=
  LineMap.ranges_foldl_append .empty blocks

/-- **The map fits every text whose pieces have the line feeds of the fragments**: the lines of a
block are those of its piece. -/
theorem lines_of_pieces (piece : Block → List Char) (blocks : List Block)
    (h : ∀ b ∈ blocks, Text.newlines (piece b) = Text.newlines b.kind.fragment)
    (before : List (List Char)) :
    (rangesFrom before.length blocks).map
        (fun r => (r.block, r.numbers.map
          (lineAt? (before ++ blocks.flatMap fun b => linesOf (piece b)))))
      = blocks.map fun b => (b.id, (linesOf (piece b)).map some) := by
  induction blocks generalizing before with
  | nil => rfl
  | cons block blocks ih =>
    have hlength : Text.newlines block.kind.fragment + 1 = (linesOf (piece block)).length := by
      rw [length_linesOf, h block List.mem_cons_self]
    have hmore := ih (fun b hb => h b (List.mem_cons_of_mem block hb))
      (before ++ linesOf (piece block))
    rw [List.length_append, List.append_assoc] at hmore
    rw [rangesFrom, hlength, List.map_cons, List.map_cons, List.flatMap_cons, hmore,
      LineRange.numbers]
    have hcount : before.length + (linesOf (piece block)).length + 1 - (before.length + 1)
        = (linesOf (piece block)).length := by omega
    simp only
    rw [hcount, ← List.append_assoc, map_lineAt?_range']

/-! ## The safe markup -/

/-- **The safe form of a block's markup**, made of that markup alone. -/
def Kind.safe (policy : Policy) (kind : Kind) : SafeMarkup :=
  sanitize policy (String.ofList kind.fragment)

/-- The characters of the safe form. -/
theorem Kind.toList_safe (policy : Policy) (kind : Kind) :
    (kind.safe policy).text.toList = (Markup.sanitizeChars policy kind.outline.written).1 := by
  rw [← kind.fragment_eq]
  show (String.ofList (Markup.sanitizeChars policy (String.ofList kind.fragment).toList).1).toList
    = _
  rw [String.toList_ofList, String.toList_ofList]

/-- **The safe form of a block has as many lines as its markup**, whatever is taken out. -/
theorem Kind.newlines_safe (policy : Policy) (kind : Kind) :
    Text.newlines (kind.safe policy).text.toList = Text.newlines kind.fragment := by
  rw [kind.toList_safe, Outline.sanitizeChars_written kind.isPlain_outline,
    Outline.newlines_safe kind.isPlain_outline, kind.fragment_eq]

/-- **Blocks are sanitised one by one**: their outlines are on lines of their own. -/
theorem sanitizeChars_generate (policy : Policy) (blocks : List Block) :
    Markup.sanitizeChars policy (generate blocks).markup.toList
      = (joinLines (blocks.map fun b => (b.kind.safe policy).text.toList),
        (blocks.map (·.kind.outline)).foldl (Outline.account policy) .clean) := by
  have hmarkup : joinLines (blocks.map (·.kind.fragment))
      = joinLines ((blocks.map (·.kind.outline)).map Outline.written) := by
    rw [List.map_map]
    exact congrArg joinLines (List.map_congr_left fun b _ => b.kind.fragment_eq)
  have hplain : ∀ o ∈ blocks.map (·.kind.outline), o.IsPlain := by
    intro o ho
    obtain ⟨b, -, rfl⟩ := List.mem_map.1 ho
    exact b.kind.isPlain_outline
  show Markup.sanitizeChars policy (String.ofList (joinLines (blocks.map (·.kind.fragment)))).toList
    = _
  rw [String.toList_ofList, hmarkup, Outline.sanitizeChars_joinLines hplain, List.map_map]
  exact congrArg (joinLines ·, _)
    (List.map_congr_left fun b _ => (b.kind.toList_safe policy).symm)

/-- **Safe markup is made block by block.** -/
theorem toList_sanitize_generate (policy : Policy) (blocks : List Block) :
    (sanitize policy (generate blocks).markup).text.toList
      = joinLines (blocks.map fun b => (b.kind.safe policy).text.toList) := by
  show (String.ofList (Markup.sanitizeChars policy (generate blocks).markup.toList).1).toList = _
  rw [String.toList_ofList, sanitizeChars_generate]

/-- **Each block keeps its lines.** Safe markup is the safe forms of the blocks on lines of their
own; none of them has lost or gained a line; and the lines that the map has for a block are those of
its safe form. -/
theorem sanitize_generate_keeps_lines (policy : Policy) (blocks : List Block) :
    (sanitize policy (generate blocks).markup).text
        = "\n".intercalate (blocks.map fun b => (b.kind.safe policy).text)
      ∧ (∀ b ∈ blocks,
          Text.newlines (b.kind.safe policy).text.toList = Text.newlines b.kind.fragment)
      ∧ (generate blocks).map.ranges.map
          (fun r => (r.block, r.numbers.map
            (lineAt? (linesOf (sanitize policy (generate blocks).markup).text.toList))))
        = blocks.map fun b =>
          (b.id, (linesOf (b.kind.safe policy).text.toList).map some) := by
  refine ⟨?_, fun b _ => b.kind.newlines_safe policy, ?_⟩
  · refine String.toList_injective ?_
    rw [toList_sanitize_generate, String.toList_intercalate, List.map_map]
    rfl
  · show (LineMap.ofBlocks blocks).ranges.map _ = _
    rw [LineMap.ranges_ofBlocks, toList_sanitize_generate]
    cases blocks with
    | nil => rfl
    | cons block blocks =>
      rw [linesOf_joinLines (mt List.map_eq_nil_iff.1 (List.cons_ne_nil block blocks)),
        List.flatMap_map]
      have hfit := lines_of_pieces (fun b => (b.kind.safe policy).text.toList) (block :: blocks)
        (fun b _ => b.kind.newlines_safe policy) []
      rwa [List.nil_append] at hfit

/-! ## Lines of any markup -/

/-- What is written for tokens stays in front of what is written for more of them. -/
theorem Markup.Writer.run_isPrefix (policy : Policy) (before behind : List Markup.Token) :
    (Markup.Writer.run policy .initial before).1
      <+: (Markup.Writer.run policy .initial (before ++ behind)).1 := by
  rw [Markup.Writer.run_append]
  exact List.prefix_append _ _

/-- Sanitised markup has the line feeds of the tokens of its input. -/
theorem newlines_sanitize (policy : Policy) (input : String) :
    Text.newlines (sanitize policy input).text.toList
      = ((Markup.tokens input.toList).map Markup.Token.newlines).sum := by
  rw [Markup.toList_sanitize, Markup.newlines_sanitizeChars]

/-- **Line feeds are written as they are read.** At any point of any stream, what is written by then
stays written and has as many line feeds as the texts and the values that were read by then,
whatever was taken out of them, and for the end of the input none is written. So markup has the same
number of lines under every policy; as in a line map, the line behind the last line feed counts even
if it is empty. -/
theorem newlines_run_eq_newlines_read (policy : Policy) :
    (∀ before behind : List Markup.Token,
        (Markup.Writer.run policy .initial before).1
            <+: (Markup.Writer.run policy .initial (before ++ behind)).1
          ∧ Text.newlines (Markup.Writer.run policy .initial before).1
            = (before.map Markup.Token.newlines).sum)
      ∧ ∀ input : String,
          Text.newlines (sanitize policy input).text.toList
              = ((Markup.tokens input.toList).map Markup.Token.newlines).sum
            ∧ ∀ other : Policy,
              (linesOf (sanitize policy input).text.toList).length
                = (linesOf (sanitize other input).text.toList).length := by
  refine ⟨fun before behind => ⟨Markup.Writer.run_isPrefix policy before behind,
    (Markup.Writer.newlines_run (Markup.Writer.isPlain_initial policy) before).1⟩,
    fun input => ⟨newlines_sanitize policy input, fun other => ?_⟩⟩
  rw [length_linesOf, length_linesOf, newlines_sanitize, newlines_sanitize]

end SafePreview
