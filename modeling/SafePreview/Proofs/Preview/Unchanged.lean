import SafePreview.Proofs.Markup.Attributes
import SafePreview.Proofs.Preview.Lines
import SafePreview.Proofs.Preview.Styles

/-!
# Markup of blocks that comes back as it was

The policy of the preview permits every element and every attribute that blocks are written with,
so all that it can take out of their markup is an attribute with an unsafe value.
`Kind.IsHarmless` says when a block has none: addresses have to be safe, and a colour must not
contain the one word that is unsafe in a style.

That harmless blocks come back as they were is read off the outlines. For the other direction an
attribute that is left out must not go unnoticed, in the text or in the account. In the account it
is counted. In the text its piece becomes shorter (`Outline.Stays.safe_eq_written_iff`), and
another piece cannot hide that, because each piece keeps its lines: two joined texts whose pieces
have the same numbers of lines are the same only if their pieces are (`eq_of_joinLines_eq`).
-/

namespace SafePreview

open Markup

/-! ## Joined pieces -/

/-- Lists that are made up of pieces of the same lengths have the same pieces if they are equal. -/
theorem eq_of_flatMap_eq {α β : Type} {f g : α → List β} {xs : List α}
    (hlength : ∀ x ∈ xs, (f x).length = (g x).length) (h : xs.flatMap f = xs.flatMap g) :
    ∀ x ∈ xs, f x = g x := by
  induction xs with
  | nil => exact List.forall_mem_nil _
  | cons x xs ih =>
    obtain ⟨hx, hlength⟩ := List.forall_mem_cons.1 hlength
    rw [List.flatMap_cons, List.flatMap_cons] at h
    obtain ⟨hfirst, hrest⟩ := List.append_inj h hx
    exact List.forall_mem_cons.2 ⟨hfirst, ih hlength hrest⟩

/-- A text is known by its lines. -/
theorem linesOf_injective {a b : List Char} (h : linesOf a = linesOf b) : a = b := by
  have hjoin (cs : List Char) : joinLines (linesOf cs) = cs := List.intercalate_splitOn '\n'
  rw [← hjoin a, h, hjoin b]

/-- **Pieces with the same numbers of lines cannot make up for each other.** -/
theorem eq_of_joinLines_eq {α : Type} {f g : α → List Char} {xs : List α}
    (hlines : ∀ x ∈ xs, Text.newlines (f x) = Text.newlines (g x))
    (h : joinLines (xs.map f) = joinLines (xs.map g)) : ∀ x ∈ xs, f x = g x := by
  cases xs with
  | nil => exact List.forall_mem_nil _
  | cons x xs =>
    have hne (f : α → List Char) : (x :: xs).map f ≠ [] := List.cons_ne_nil _ _
    have hflat := congrArg linesOf h
    rw [linesOf_joinLines (hne f), linesOf_joinLines (hne g), List.flatMap_map,
      List.flatMap_map] at hflat
    intro y hy
    refine linesOf_injective (eq_of_flatMap_eq (fun z hz => ?_) hflat y hy)
    rw [length_linesOf, length_linesOf, hlines z hz]

/-! ## Outlines -/

namespace Outline

variable {policy : Policy} {o : Outline}

/-- **An outline whose element may stay**, and that has no attribute twice. -/
structure Stays (policy : Policy) (o : Outline) : Prop where
  writes : policy.writesTag o.name = true
  nodup : (o.attributes.map (·.name)).Nodup

/-- All attributes of an outline may stay. -/
def IsKept (policy : Policy) (o : Outline) : Prop :=
  ∀ a ∈ o.attributes, policy.judge a = .kept

/-- The attributes of an outline that is kept. -/
theorem Stays.attributes (h : o.Stays policy) (hkept : o.IsKept policy) (report : Report) :
    Writer.attributes policy [] report o.attributes
      = ⟨o.attributes.flatMap writeAttribute, 0, report⟩ :=
  Writer.attributes_of_kept report h.nodup (fun _ _ => List.not_mem_nil) hkept

/-- What stands behind the start tag. -/
def behind (o : Outline) : List Char :=
  match o.body with
  | none => []
  | some u => escapeText u ++ endTagText o.name

theorem written_eq (o : Outline) :
    o.written = '<' :: o.name ++ o.attributes.flatMap writeAttribute ++ '>' :: o.behind := by
  rw [written, startTagText, List.flatMap_map, List.append_assoc]
  rfl

/-- Of an outline that stays only the attributes can be different. -/
theorem Stays.safe_eq (h : o.Stays policy) :
    o.safe policy = '<' :: o.name ++ (Writer.attributes policy [] .clean o.attributes).written
      ++ '>' :: (lineFeeds (Writer.attributes policy [] .clean o.attributes).droppedNewlines
        ++ o.behind) := by
  rw [safe, if_pos h.writes, List.append_assoc]
  rfl

/-- **An outline comes back as it was exactly if all its attributes may stay.** -/
theorem Stays.safe_eq_written_iff (h : o.Stays policy) :
    o.safe policy = o.written ↔ o.IsKept policy := by
  rw [h.safe_eq, written_eq]
  constructor
  · intro heq
    by_contra hdropped
    have hshorter := Writer.length_attributes_lt .clean h.nodup hdropped
    have hlength := congrArg List.length heq
    simp only [List.length_append, List.length_cons, lineFeeds, List.length_replicate] at hlength
    omega
  · intro hkept
    rw [h.attributes hkept]
    rfl

/-! The account of outlines that stay counts the attributes that do not. -/

/-- What is counted stays counted. -/
theorem Stays.le_account (h : o.Stays policy) (report : Report) :
    report.removedAttributes ≤ (o.account policy report).removedAttributes := by
  have hcount := Writer.removedAttributes_attributes policy [] report h.nodup
    fun _ _ => List.not_mem_nil
  have hfewer := (Writer.kept_sublist policy [] o.attributes).length_le
  rw [account, if_pos h.writes]
  omega

/-- An outline that is kept adds nothing to the account. -/
theorem Stays.account_of_isKept (h : o.Stays policy) (hkept : o.IsKept policy) (report : Report) :
    o.account policy report = report := by
  rw [account, if_pos h.writes, h.attributes hkept]

/-- One that adds nothing is kept. -/
theorem Stays.isKept_of_account (h : o.Stays policy) {report : Report}
    (haccount : (o.account policy report).removedAttributes = report.removedAttributes) :
    o.IsKept policy := by
  have hcount := Writer.removedAttributes_attributes policy [] report h.nodup
    fun _ _ => List.not_mem_nil
  rw [account, if_pos h.writes] at haccount
  exact (Writer.length_kept_eq_iff h.nodup).1 (by omega)

variable {os : List Outline}

/-- What is counted stays counted, whatever follows. -/
theorem le_foldl_account (h : ∀ o ∈ os, o.Stays policy) (report : Report) :
    report.removedAttributes ≤ (os.foldl (account policy) report).removedAttributes := by
  induction os generalizing report with
  | nil => exact Nat.le_refl _
  | cons o os ih =>
    obtain ⟨ho, hos⟩ := List.forall_mem_cons.1 h
    exact Nat.le_trans (ho.le_account report) (ih hos _)

/-- Outlines that are kept add nothing to the account. -/
theorem foldl_account_of_isKept (h : ∀ o ∈ os, o.Stays policy)
    (hkept : ∀ o ∈ os, o.IsKept policy) (report : Report) :
    os.foldl (account policy) report = report := by
  induction os with
  | nil => rfl
  | cons o os ih =>
    obtain ⟨ho, hos⟩ := List.forall_mem_cons.1 h
    obtain ⟨hkept, hmore⟩ := List.forall_mem_cons.1 hkept
    rw [List.foldl_cons, ho.account_of_isKept hkept, ih hos hmore]

/-- **Outlines that add nothing to the account are kept**, each of them. -/
theorem isKept_of_foldl_account (h : ∀ o ∈ os, o.Stays policy) {report : Report}
    (haccount : (os.foldl (account policy) report).removedAttributes = report.removedAttributes) :
    ∀ o ∈ os, o.IsKept policy := by
  induction os generalizing report with
  | nil => exact List.forall_mem_nil _
  | cons o os ih =>
    obtain ⟨ho, hos⟩ := List.forall_mem_cons.1 h
    have hfirst := ho.le_account report
    have hrest := le_foldl_account hos (o.account policy report)
    rw [List.foldl_cons] at haccount
    exact List.forall_mem_cons.2
      ⟨ho.isKept_of_account (Nat.le_antisymm (haccount ▸ hrest) hfirst),
        ih hos (Nat.le_antisymm (haccount ▸ hfirst) hrest)⟩

end Outline

/-! ## Blocks -/

/-- **A block that the policy of the preview leaves alone**: its address is safe, and its colour
does not contain the word that is unsafe in a style. Nothing else in it matters. -/
def Kind.IsHarmless : Kind → Prop
  | .image url _ => isSafeAddress (normaliseLines url.toList) = true
  | .link url _ => isSafeAddress (normaliseLines url.toList) = true
  | .color value _ => ¬ "behavior".toList <:+: value.text.toList
  | .text _ => True
  | .heading _ _ => True
  | .fontSize _ _ => True

/-- The elements that blocks are written with may stay. -/
theorem writesTag_preview : ∀ name ∈ [['p'], ['h', '1'], ['h', '2'], ['h', '3'], ['h', '4'],
    ['h', '5'], ['h', '6'], ['i', 'm', 'g'], ['a'], ['s', 'p', 'a', 'n']],
    Policy.preview.writesTag name = true := by
  decide +kernel

/-- The attributes that blocks are written with may stay, as far as their names go. -/
theorem permitsAttribute_preview : ∀ name ∈ [['s', 'r', 'c'], ['a', 'l', 't'],
    ['h', 'r', 'e', 'f'], ['s', 't', 'y', 'l', 'e']],
    Policy.preview.permitsAttribute (String.ofList name) = true ∧ isAttributeName name = true := by
  decide +kernel

/-- The policy of the preview permits every element of a block, and no block has an attribute
twice. -/
theorem Kind.stays_outline (kind : Kind) : kind.outline.Stays .preview := by
  cases kind with
  | text content => exact ⟨writesTag_preview ['p'] (by decide), List.nodup_nil⟩
  | heading level content =>
    have hlevel := level.text_mem
    refine ⟨writesTag_preview ('h' :: level.text.toList) ?_, List.nodup_nil⟩
    generalize level.text.toList = digits at hlevel
    revert digits
    decide
  | image url altText =>
    exact ⟨writesTag_preview ['i', 'm', 'g'] (by decide),
      show [['s', 'r', 'c'], ['a', 'l', 't']].Nodup by decide⟩
  | link url label => exact ⟨writesTag_preview ['a'] (by decide), List.pairwise_singleton _ _⟩
  | color value content =>
    exact ⟨writesTag_preview ['s', 'p', 'a', 'n'] (by decide), List.pairwise_singleton _ _⟩
  | fontSize size content =>
    exact ⟨writesTag_preview ['s', 'p', 'a', 'n'] (by decide), List.pairwise_singleton _ _⟩

/-- An attribute whose name may stay does unless its value is unsafe. -/
theorem judge_eq_kept_iff_of_name {name : List Char} (value : List Char)
    (hname : Policy.preview.permitsAttribute (String.ofList name) = true
      ∧ isAttributeName name = true) :
    Policy.preview.judge ⟨name, value⟩ = .kept
      ↔ (String.ofList name ∈ addressAttributes → isSafeAddress value = true)
        ∧ (String.ofList name = "style" → isSafeStyle value = true) := by
  rw [judge_eq_kept_iff, ← and_assoc]
  exact and_iff_right hname

/-- An address stays if it is safe. -/
theorem judge_address {name : List Char} (value : List Char)
    (hname : Policy.preview.permitsAttribute (String.ofList name) = true
      ∧ isAttributeName name = true)
    (haddress : String.ofList name ∈ addressAttributes ∧ String.ofList name ≠ "style") :
    Policy.preview.judge ⟨name, value⟩ = .kept ↔ isSafeAddress value = true := by
  rw [judge_eq_kept_iff_of_name value hname]
  exact ⟨fun h => h.1 haddress.1, fun h => ⟨fun _ => h, fun hstyle => absurd hstyle haddress.2⟩⟩

/-- The text in place of an image always stays. -/
theorem judge_alt (value : List Char) :
    Policy.preview.judge ⟨['a', 'l', 't'], value⟩ = .kept := by
  rw [judge_eq_kept_iff_of_name value (permitsAttribute_preview _ (by decide))]
  exact ⟨fun haddress => absurd haddress (by decide), fun hstyle => absurd hstyle (by decide)⟩

/-- A style stays if it is safe. -/
theorem judge_style (value : List Char) :
    Policy.preview.judge ⟨['s', 't', 'y', 'l', 'e'], value⟩ = .kept
      ↔ isSafeStyle value = true := by
  rw [judge_eq_kept_iff_of_name value (permitsAttribute_preview _ (by decide))]
  exact ⟨fun h => h.2 rfl, fun h => ⟨fun haddress => absurd haddress (by decide), fun _ => h⟩⟩

/-- **All attributes of a block may stay exactly if it is harmless.** -/
theorem Kind.isKept_outline_iff (kind : Kind) :
    kind.outline.IsKept .preview ↔ kind.IsHarmless := by
  cases kind with
  | text content => exact iff_of_true (List.forall_mem_nil _) trivial
  | heading level content => exact iff_of_true (List.forall_mem_nil _) trivial
  | image url altText =>
    refine List.forall_mem_cons.trans ((and_iff_left ?_).trans ?_)
    · exact List.forall_mem_singleton.2 (judge_alt _)
    · exact judge_address _ (permitsAttribute_preview _ (by decide)) (by decide)
  | link url label =>
    exact List.forall_mem_singleton.trans
      (judge_address _ (permitsAttribute_preview _ (by decide)) (by decide))
  | color value content =>
    exact List.forall_mem_singleton.trans ((judge_style _).trans (isSafeStyle_color value))
  | fontSize size content =>
    exact iff_of_true
      (List.forall_mem_singleton.2 ((judge_style _).2 (isSafeStyle_fontSize size))) trivial

/-- **The markup of a block comes back as it was exactly if the block is harmless.** -/
theorem Kind.safe_eq_fragment_iff (kind : Kind) :
    (kind.safe .preview).text.toList = kind.fragment ↔ kind.IsHarmless := by
  rw [kind.toList_safe, Outline.sanitizeChars_written kind.isPlain_outline, kind.fragment_eq,
    kind.stays_outline.safe_eq_written_iff, kind.isKept_outline_iff]

/-- All outlines of blocks stay. -/
theorem stays_outlines (blocks : List Block) :
    ∀ o ∈ blocks.map (·.kind.outline), o.Stays .preview := by
  intro o ho
  obtain ⟨b, -, rfl⟩ := List.mem_map.1 ho
  exact b.kind.stays_outline

/-- They are kept if the blocks are harmless. -/
theorem isKept_outlines_iff (blocks : List Block) :
    (∀ o ∈ blocks.map (·.kind.outline), o.IsKept .preview) ↔ ∀ b ∈ blocks, b.kind.IsHarmless := by
  rw [List.forall_mem_map]
  exact forall₂_congr fun b _ => b.kind.isKept_outline_iff

/-- **The markup comes back as it was exactly if all blocks are harmless.** -/
theorem text_sanitize_generate_iff (blocks : List Block) :
    (sanitizeWithReport .preview (generate blocks).markup).1.text = (generate blocks).markup
      ↔ ∀ b ∈ blocks, b.kind.IsHarmless := by
  have hsafe := toList_sanitize_generate .preview blocks
  rw [← String.toList_inj]
  show (sanitize .preview (generate blocks).markup).text.toList
    = (String.ofList (joinLines (blocks.map (·.kind.fragment)))).toList ↔ _
  rw [hsafe, String.toList_ofList]
  constructor
  · intro h b hb
    exact b.kind.safe_eq_fragment_iff.1
      (eq_of_joinLines_eq (fun b _ => b.kind.newlines_safe .preview) h b hb)
  · intro h
    exact congrArg joinLines
      (List.map_congr_left fun b hb => b.kind.safe_eq_fragment_iff.2 (h b hb))

/-- The account is made up of those of the blocks. -/
theorem report_sanitize_generate (blocks : List Block) :
    (sanitizeWithReport .preview (generate blocks).markup).2
      = (blocks.map (·.kind.outline)).foldl (Outline.account .preview) .clean :=
  congrArg Prod.snd (sanitizeChars_generate .preview blocks)

/-- Harmless blocks leave the account as it was. -/
theorem report_of_isHarmless {blocks : List Block} (h : ∀ b ∈ blocks, b.kind.IsHarmless) :
    (sanitizeWithReport .preview (generate blocks).markup).2 = .clean := by
  rw [report_sanitize_generate, Outline.foldl_account_of_isKept (stays_outlines blocks)
    ((isKept_outlines_iff blocks).2 h)]

/-- **The account is clean exactly if all blocks are harmless.** -/
theorem isClean_sanitize_generate_iff (blocks : List Block) :
    (sanitizeWithReport .preview (generate blocks).markup).2.isClean = true
      ↔ ∀ b ∈ blocks, b.kind.IsHarmless := by
  constructor
  · intro hclean
    rw [Report.isClean, Bool.and_eq_true, decide_eq_true_iff, decide_eq_true_iff,
      report_sanitize_generate] at hclean
    exact (isKept_outlines_iff blocks).1
      (Outline.isKept_of_foldl_account (stays_outlines blocks) hclean.2)
  · intro h
    rw [report_of_isHarmless h]
    rfl

/-- **The markup of blocks comes back as it was, and with a clean account, exactly if all blocks are
harmless.** The markup alone tells, the account alone tells, and so does each block by itself: what
comes back changed is what some block made change. -/
theorem sanitize_generate_unchanged_iff (blocks : List Block) :
    ((sanitizeWithReport .preview (generate blocks).markup).1.text = (generate blocks).markup
          ∧ (sanitizeWithReport .preview (generate blocks).markup).2 = .clean
        ↔ ∀ b ∈ blocks, b.kind.IsHarmless)
      ∧ ((sanitizeWithReport .preview (generate blocks).markup).1.text = (generate blocks).markup
        ↔ ∀ b ∈ blocks, b.kind.IsHarmless)
      ∧ ((sanitizeWithReport .preview (generate blocks).markup).2.isClean = true
        ↔ ∀ b ∈ blocks, b.kind.IsHarmless)
      ∧ ∀ b ∈ blocks, (b.kind.safe .preview).text.toList = b.kind.fragment
        ↔ b.kind.IsHarmless := by
  have htext := text_sanitize_generate_iff blocks
  refine ⟨⟨fun h => htext.1 h.1, fun h => ⟨htext.2 h, report_of_isHarmless h⟩⟩, htext,
    isClean_sanitize_generate_iff blocks, fun b _ => b.kind.safe_eq_fragment_iff⟩

/-- There is a colour of that name, so a block may well be changed. -/
example : ∃ colour, Colour.ofString? "Behavior" = some colour
    ∧ ¬ (Kind.color colour "text").IsHarmless :=
  ⟨_, rfl, not_not_intro (List.isPrefixOf_iff_prefix.1 rfl).isInfix⟩

end SafePreview
