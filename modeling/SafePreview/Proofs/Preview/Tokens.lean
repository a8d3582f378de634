import SafePreview.Proofs.Preview.Fragment

/-!
# Markup is read as it was meant

What is written for blocks is read by somebody else, who knows nothing of blocks: the tokens of the
markup are taken from its characters alone, by rules that accept anything. They are nevertheless the
ones that were meant, block by block, and a line feed between two blocks (`tokens_joinLines`). A
block is read as it is meant whatever stands behind it (`Outline.tokens_written`); what is left to
see is that the line feed behind a block is a text of its own, since the next block starts with a
tag (`Outline.tokens_feed`).

What a text, an address or a colour can do to the markup follows from that. A block has a `Form`,
which holds nothing of them; the tags of the markup, the names of their attributes included, are
those of the forms (`tokens_generate`), so all that is left to a text is what is read between two
tags or inside one value. There it is read in full, but for its line ends and its NULs
(`normaliseLines_eq`).
-/

namespace SafePreview

open Markup

/-! ## Texts -/

/-- A text with a line feed for each of its line ends: for CR and LF together, and for CR alone. -/
def unifyLineEnds : List Char → List Char
  | [] => []
  | '\r' :: '\n' :: rest => '\n' :: unifyLineEnds rest
  | '\r' :: rest => '\n' :: unifyLineEnds rest
  | c :: rest => c :: unifyLineEnds rest

/-- **Only line ends and NULs of a text are touched**, the line ends first: a NUL between CR and LF
keeps them apart. -/
theorem normaliseLines_eq (cs : List Char) :
    normaliseLines cs = withoutNul (unifyLineEnds cs) := by
  fun_induction normaliseLines cs with
  | case1 => rfl
  | case2 rest ih => rw [unifyLineEnds, withoutNul_cons _ (by decide), ih]
  | case3 rest hpair ih =>
    rw [unifyLineEnds, withoutNul_cons _ (by decide), ih]
    exact fun rest' => hpair rest' rfl
  | case4 rest hpair hreturn ih =>
    rw [unifyLineEnds, withoutNul_cons_nul, ih]
    · exact hpair
    · exact hreturn
  | case5 c rest hpair hreturn hnul ih =>
    rw [unifyLineEnds, withoutNul_cons _ hnul, ih]
    · exact hpair
    · exact hreturn

/-! ## Outlines on lines of their own -/

namespace Outline

/-- An outline starts with a tag, so no text ends in it. -/
theorem readText_written {o : Outline} (h : o.IsPlain) (cs : List Char) :
    readText (o.written ++ cs) = ([], o.written ++ cs) := by
  obtain ⟨c, name, hname, hletter⟩ := h.name.exists_cons
  have hstart : ∃ behind, o.written ++ cs = '<' :: c :: behind := by
    rw [written, startTagText, hname]
    exact ⟨_, rfl⟩
  obtain ⟨behind, hbehind⟩ := hstart
  rw [hbehind]
  exact readText_tag (Opening.of_letter hletter behind)

/-- **A line feed in front of an outline is a text of its own.** -/
theorem tokens_feed {o : Outline} (h : o.IsPlain) (cs : List Char) :
    Markup.tokens ('\n' :: (o.written ++ cs))
      = .text ['\n'] :: Markup.tokens (o.written ++ cs) := by
  have hfeed : '\x00' ∉ ['\n'] := by decide
  have hread : readText ('\n' :: (o.written ++ cs)) = (['\n'], o.written ++ cs) := by
    refine (readText_escapeText hfeed (o.written ++ cs)).trans ?_
    rw [readText_written h]
    rfl
  rw [tokens_eq, hread]
  exact if_neg (List.cons_ne_nil _ _)

/-- **Outlines behind line feeds are read as they are meant**, each behind its line feed. -/
theorem tokens_feeds {os : List Outline} (h : ∀ o ∈ os, o.IsPlain) :
    Markup.tokens (os.flatMap fun o => ['\n'] ++ o.written)
      = os.flatMap fun o => [Token.text ['\n']] ++ o.tokens := by
  induction os with
  | nil => exact tokens_nil
  | cons o os ih =>
    obtain ⟨ho, hos⟩ := List.forall_mem_cons.1 h
    rw [List.flatMap_cons, List.flatMap_cons, List.append_assoc, List.append_assoc]
    show Markup.tokens ('\n' :: (o.written ++ _)) = _
    rw [tokens_feed ho, tokens_written ho, ih hos]
    rfl

/-- **Outlines on lines of their own are read as they are meant**, with a line feed in between. -/
theorem tokens_joinLines {os : List Outline} (h : ∀ o ∈ os, o.IsPlain) :
    Markup.tokens (joinLines (os.map written))
      = [Token.text ['\n']].intercalate (os.map tokens) := by
  cases os with
  | nil => exact tokens_nil
  | cons o os =>
    obtain ⟨ho, hos⟩ := List.forall_mem_cons.1 h
    rw [joinLines, List.map_cons, List.map_cons, intercalate_cons, intercalate_cons,
      List.flatMap_map, List.flatMap_map, tokens_written ho, tokens_feeds hos]

end Outline

/-! ## Tags of blocks -/

/-- A tag without the values of its attributes, and nothing of a text. -/
def Markup.Token.bare? : Token → Option Token
  | .text _ => none
  | .startTag name attributes selfClosing =>
    some (.startTag name (attributes.map fun a => ⟨a.name, []⟩) selfClosing)
  | .endTag name => some (.endTag name)

/-- **The form of a block**, which holds none of its texts, addresses and styles. -/
inductive Form where
  | paragraph
  | heading (level : HeadingLevel)
  | image
  | link
  | styled
deriving DecidableEq

/-- The form of a block. -/
def Kind.form : Kind → Form
  | .text _ => .paragraph
  | .heading level _ => .heading level
  | .image _ _ => .image
  | .link _ _ => .link
  | .color _ _ => .styled
  | .fontSize _ _ => .styled

/-- **The tags of a form**, without values. -/
def Form.tags : Form → List Token
  | .paragraph => [.startTag ['p'] [] false, .endTag ['p']]
  | .heading level =>
    [.startTag ('h' :: level.text.toList) [] false, .endTag ('h' :: level.text.toList)]
  | .image => [.startTag ['i', 'm', 'g'] [⟨['s', 'r', 'c'], []⟩, ⟨['a', 'l', 't'], []⟩] false]
  | .link => [.startTag ['a'] [⟨['h', 'r', 'e', 'f'], []⟩] false, .endTag ['a']]
  | .styled =>
    [.startTag ['s', 'p', 'a', 'n'] [⟨['s', 't', 'y', 'l', 'e'], []⟩] false,
      .endTag ['s', 'p', 'a', 'n']]

/-- There are no tags in a text. -/
theorem filterMap_textTokens (u : List Char) : (textTokens u).filterMap Token.bare? = [] := by
  unfold textTokens
  split
  · rfl
  · rfl

/-- The tags of an outline are its own, whatever is written in it. -/
theorem Outline.filterMap_tokens (o : Outline) :
    o.tokens.filterMap Token.bare?
      = .startTag o.name (o.attributes.map fun a => ⟨a.name, []⟩) false
        :: if o.body.isSome then [.endTag o.name] else [] := by
  have htag : (Token.startTag o.name o.attributes false).bare?
      = some (.startTag o.name (o.attributes.map fun a => ⟨a.name, []⟩) false) := rfl
  rw [tokens, List.filterMap_cons_some htag]
  cases o.body with
  | none => rfl
  | some u =>
    simp only
    rw [List.filterMap_append, filterMap_textTokens]
    rfl

/-- **The tags of a block are those of its form.** -/
theorem Kind.filterMap_tokens (kind : Kind) :
    kind.outline.tokens.filterMap Token.bare? = kind.form.tags := by
  rw [Outline.filterMap_tokens]
  cases kind with
  | text content => rfl
  | heading level content => rfl
  | image url altText => rfl
  | link url label => rfl
  | color value content => rfl
  | fontSize size content => rfl

/-- A text between tokens adds no tags to them. -/
theorem filterMap_intercalate (u : List Char) (ts : List (List Token)) :
    ([Token.text u].intercalate ts).filterMap Token.bare?
      = ts.flatMap (List.filterMap Token.bare?) := by
  cases ts with
  | nil => rfl
  | cons t ts =>
    rw [intercalate_cons, List.filterMap_append, List.filterMap_flatMap, List.flatMap_cons]
    rfl

/-- **The tokens of a markup are the ones that are meant for its blocks, and no others.** What is
meant as a text is the text of the block with its line ends unified and its NULs left out. The tags
of the markup and the names of their attributes are known from the forms of the blocks alone, so no
text, address or style makes, ends or changes a tag. -/
theorem tokens_generate (blocks : List Block) :
    Markup.tokens (generate blocks).markup.toList
        = [Token.text ['\n']].intercalate (blocks.map (·.kind.outline.tokens))
      ∧ (∀ cs, normaliseLines cs = withoutNul (unifyLineEnds cs))
      ∧ (Markup.tokens (generate blocks).markup.toList).filterMap Token.bare?
        = blocks.flatMap (·.kind.form.tags) := by
  have htokens : Markup.tokens (generate blocks).markup.toList
      = [Token.text ['\n']].intercalate (blocks.map (·.kind.outline.tokens)) := by
    have hplain : ∀ o ∈ blocks.map (·.kind.outline), o.IsPlain := by
      intro o ho
      obtain ⟨block, -, rfl⟩ := List.mem_map.1 ho
      exact block.kind.isPlain_outline
    have hfragments : blocks.map (·.kind.fragment)
        = (blocks.map (·.kind.outline)).map Outline.written := by
      rw [List.map_map]
      exact List.map_congr_left fun block _ => block.kind.fragment_eq
    rw [generate, String.toList_ofList, hfragments, Outline.tokens_joinLines hplain, List.map_map]
    rfl
  refine ⟨htokens, normaliseLines_eq, ?_⟩
  rw [htokens, filterMap_intercalate, List.flatMap_map]
  exact congrArg (List.flatMap · blocks) (funext fun block => block.kind.filterMap_tokens)

end SafePreview
