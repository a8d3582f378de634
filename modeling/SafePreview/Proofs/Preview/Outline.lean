import SafePreview.Preview.Generate
import SafePreview.Proofs.Markup.FixedPoint
import SafePreview.Proofs.Markup.Newlines

/-!
# Outlines

The markup of a block is one element with text in it, or one void tag. An `Outline` says which, as
data: the name, the attributes that are meant and the text inside. It can be written down, and what
is written is read as that outline whatever is behind it (`Outline.tokens_written`).

What the writer makes of an outline does not depend on what was written before, and leaves nothing
open and nothing to be taken out (`Outline.run_tokens`), under a policy that permits the element as
well as under one that takes it out. Outlines on lines of their own can therefore be sanitised one
by one (`Outline.run_joinLines`): none of them loses a line, and each adds its own account to that
of the outlines before it.
-/

namespace SafePreview

open Markup

/-- Behind the first list, each has the separator in front of it. -/
theorem intercalate_cons {α : Type} (separator first : List α) (others : List (List α)) :
    separator.intercalate (first :: others) = first ++ others.flatMap (separator ++ ·) := by
  induction others generalizing first with
  | nil => rw [List.intercalate_singleton, List.flatMap_nil, List.append_nil]
  | cons next others ih =>
    rw [List.intercalate_cons_cons, ih, List.flatMap_cons, List.append_assoc, List.append_assoc]

/-- What holds throughout a separator and throughout texts holds of the texts with the separator
between them. -/
theorem forall_mem_intercalate {α : Type} {holds : α → Prop} {separator : List α}
    {texts : List (List α)} (hseparator : ∀ c ∈ separator, holds c)
    (htexts : ∀ text ∈ texts, ∀ c ∈ text, holds c) :
    ∀ c ∈ separator.intercalate texts, holds c := by
  cases texts with
  | nil => exact fun c hc => nomatch hc
  | cons text texts =>
    rw [intercalate_cons]
    refine List.forall_mem_append.2 ⟨htexts text List.mem_cons_self, fun c hc => ?_⟩
    obtain ⟨other, hother, hc⟩ := List.mem_flatMap.1 hc
    exact List.forall_mem_append.2
      ⟨hseparator, htexts other (List.mem_cons_of_mem text hother)⟩ c hc

/-- **One element with text in it**, or a void tag if there is no body. -/
structure Outline where
  name : List Char
  attributes : List Attribute
  body : Option (List Char)

/-- A text as tokens: one, if there is any. -/
def textTokens (u : List Char) : List Token := if u = [] then [] else [.text u]

namespace Outline

/-- The outline as markup. -/
def written (o : Outline) : List Char :=
  startTagText o.name (o.attributes.map Attribute.written) ++ match o.body with
    | none => []
    | some u => escapeText u ++ endTagText o.name

/-- **The tokens that are meant.** -/
def tokens (o : Outline) : List Token :=
  .startTag o.name o.attributes false :: match o.body with
    | none => []
    | some u => textTokens u ++ [.endTag o.name]

/-- **What an outline becomes under a policy**: its element with the attributes that may stay, or
the line feeds that are in it. -/
def safe (policy : Policy) (o : Outline) : List Char :=
  let found := Writer.attributes policy [] .clean o.attributes
  if policy.writesTag o.name then
    '<' :: o.name ++ found.written ++ '>' :: lineFeeds found.droppedNewlines ++ match o.body with
      | none => []
      | some u => escapeText u ++ writeEnd o.name
  else lineFeeds (attributeNewlines o.attributes) ++ match o.body with
    | none => []
    | some u => lineFeeds (Text.newlines u)

/-- **What an outline adds to an account**: the attributes that are left out, or its element. -/
def account (policy : Policy) (report : Report) (o : Outline) : Report :=
  if policy.writesTag o.name then (Writer.attributes policy [] report o.attributes).report
  else report.removeElement o.name

/-- **An outline that is read as it is meant.** -/
structure IsPlain (o : Outline) : Prop where
  name : IsPlainName tagMarks o.name
  /-- What is inside is markup. -/
  raw : isRawText o.name = false
  /-- There is a body exactly where the tag can have one. -/
  void : isVoid o.name = o.body.isNone
  attributes : ∀ a ∈ o.attributes, IsPlainName attributeMarks a.name ∧ '\x00' ∉ a.value
  body : ∀ u ∈ o.body, '\x00' ∉ u

/-! ## Reading an outline -/

variable {o : Outline}

/-- The attributes are written so that they can be read. -/
theorem IsPlain.isReadable (h : o.IsPlain) :
    ∀ a ∈ o.attributes.map Attribute.written, a.IsReadable :=
  List.forall_mem_map.2 fun a ha => Attribute.isReadable_written (h.attributes a ha).1

/-- They are read as they are meant. -/
theorem IsPlain.map_meaning (h : o.IsPlain) :
    (o.attributes.map Attribute.written).map WrittenAttribute.meaning = o.attributes :=
  map_meaning_written fun a ha => (h.attributes a ha).2

/-- Text in front of an end tag is read by itself. -/
theorem tokens_body {name u : List Char} (hname : IsPlainName tagMarks name) (hu : '\x00' ∉ u)
    (cs : List Char) :
    Markup.tokens (escapeText u ++ endTagText name ++ cs)
      = textTokens u ++ [.endTag name] ++ Markup.tokens cs := by
  obtain ⟨c, name', hcons, hletter⟩ := hname.exists_cons
  have hopening : Opening.of ('/' :: (name ++ '>' :: cs)) = .tag := by
    rw [hcons, List.cons_append]
    exact Opening.of_slash_letter hletter (name' ++ '>' :: cs)
  have hend : endTagText name ++ cs = '<' :: '/' :: (name ++ '>' :: cs) := by
    simp [endTagText]
  have hread : readText (escapeText u ++ (endTagText name ++ cs)) = (u, endTagText name ++ cs) := by
    rw [readText_escapeText hu, hend, readText_tag hopening, List.append_nil]
  rw [List.append_assoc, tokens_eq, hread, tokens_endTagText hname, textTokens]
  simp only
  split
  · rfl
  · rfl

/-- **An outline is read as it is meant**, whatever is behind it. -/
theorem tokens_written (h : o.IsPlain) (cs : List Char) :
    Markup.tokens (o.written ++ cs) = o.tokens ++ Markup.tokens cs := by
  rw [written, List.append_assoc, tokens_startTagText h.name h.raw h.isReadable, h.map_meaning,
    tokens, List.cons_append]
  cases hbody : o.body with
  | none => rfl
  | some u => exact congrArg _ (tokens_body h.name (h.body u (Option.mem_def.2 hbody)) cs)

/-- An outline by itself is its tokens. -/
theorem IsPlain.tokens_eq (h : o.IsPlain) : Markup.tokens o.written = o.tokens := by
  have hread := tokens_written h []
  rwa [List.append_nil, tokens_nil, List.append_nil] at hread

/-! ## The line feeds of an outline -/

theorem newlines_textTokens (u : List Char) :
    ((textTokens u).map Token.newlines).sum = Text.newlines u := by
  unfold textTokens
  split
  · rename_i h
    rw [h]
    rfl
  · exact Nat.add_zero _

theorem newlines_startTagText {name : List Char} {as : List Attribute}
    (hname : IsPlainName tagMarks name)
    (has : ∀ a ∈ as, IsPlainName attributeMarks a.name) :
    Text.newlines (startTagText name (as.map Attribute.written)) = attributeNewlines as := by
  have hattributes : Text.newlines ((as.map Attribute.written).flatMap WrittenAttribute.text)
      = attributeNewlines as := by
    induction as with
    | nil => rfl
    | cons a as ih =>
      have hwritten : a.written.text = writeAttribute a := rfl
      rw [List.map_cons, List.flatMap_cons, Text.newlines_append, hwritten,
        newlines_writeAttribute (has a List.mem_cons_self),
        ih fun b hb => has b (List.mem_cons_of_mem a hb)]
      rfl
  rw [startTagText, List.cons_append, List.cons_append, newlines_cons_of_ne _ (by decide),
    Text.newlines_append, Text.newlines_append, hname.attribute.newlines_eq, hattributes]
  exact Nat.zero_add _

theorem newlines_endTagText {name : List Char} (hname : IsPlainName tagMarks name) :
    Text.newlines (endTagText name) = 0 := by
  rw [endTagText, List.cons_append, List.cons_append, newlines_cons_of_ne _ (by decide),
    newlines_cons_of_ne _ (by decide), Text.newlines_append, hname.attribute.newlines_eq]
  rfl

/-- The line feeds of an outline are those of its tokens. -/
theorem newlines_written (h : o.IsPlain) :
    Text.newlines o.written = (o.tokens.map Token.newlines).sum := by
  rw [written, tokens, Text.newlines_append,
    newlines_startTagText h.name fun a ha => (h.attributes a ha).1, List.map_cons, List.sum_cons]
  cases o.body with
  | none => rfl
  | some u =>
    simp only
    rw [Text.newlines_append, newlines_escapeText, newlines_endTagText h.name, List.map_append,
      List.sum_append, newlines_textTokens]
    rfl

end Outline

/-! ## What the writer makes of an outline -/

namespace Markup.Writer

/-- Text stays where nothing is being taken out. -/
theorem run_textTokens (policy : Policy) (opened : List (List Char)) (report : Report)
    (u : List Char) :
    run policy ⟨opened, none, report⟩ (textTokens u)
      = (escapeText u, ⟨opened, none, report⟩) := by
  unfold textTokens
  split
  · rename_i h
    rw [h]
    rfl
  · exact congrArg (·, _) (List.append_nil _)

/-- Inside an element that is being taken out its line feeds do. -/
theorem run_textTokens_skip (policy : Policy) (opened : List (List Char)) (skip : Skip)
    (report : Report) (u : List Char) :
    run policy ⟨opened, some skip, report⟩ (textTokens u)
      = (lineFeeds (Text.newlines u), ⟨opened, some skip, report⟩) := by
  unfold textTokens
  split
  · rename_i h
    rw [h]
    rfl
  · exact congrArg (·, _) (List.append_nil _)

end Markup.Writer

namespace Outline

variable {policy : Policy} {o : Outline}

/-- The start tag of an outline whose element may stay. -/
theorem step_start_of_writesTag (h : policy.writesTag o.name = true) (report : Report) :
    Writer.step policy ⟨[], none, report⟩ (.startTag o.name o.attributes false)
      = ('<' :: o.name ++ (Writer.attributes policy [] .clean o.attributes).written
          ++ '>' :: lineFeeds (Writer.attributes policy [] .clean o.attributes).droppedNewlines,
        ⟨if isVoid o.name then [] else [o.name], none,
          (Writer.attributes policy [] report o.attributes).report⟩) := by
  obtain ⟨hwritten, hdropped⟩ := Writer.attributes_report policy [] .clean report o.attributes
  show Writer.startTag policy ⟨[], none, report⟩ o.name o.attributes false = _
  rw [Writer.startTag, h, hwritten, hdropped]
  cases isVoid o.name with
  | true => rfl
  | false => rfl

/-- The start tag of an outline whose element is taken out. -/
theorem step_start_of_not_writesTag (h : policy.writesTag o.name = false)
    (hraw : isRawText o.name = false) (report : Report) :
    Writer.step policy ⟨[], none, report⟩ (.startTag o.name o.attributes false)
      = (lineFeeds (attributeNewlines o.attributes),
        ⟨[], if isVoid o.name then none else some ⟨o.name, 1⟩, report.removeElement o.name⟩) := by
  show Writer.startTag policy ⟨[], none, report⟩ o.name o.attributes false = _
  rw [Writer.startTag, h, hraw, Bool.or_false, Bool.or_false]
  rfl

/-- The end tag of the element that is being taken out. -/
theorem step_end_of_skip (name : List Char) (report : Report) :
    Writer.step policy ⟨[], some ⟨name, 1⟩, report⟩ (.endTag name)
      = ([], ⟨[], none, report⟩) := by
  rw [Writer.step]
  simp only
  rw [Writer.skipToken, if_pos rfl]
  rfl

/-- **Where nothing is open, an outline is written as its safe form, and nothing is open behind
it.** -/
theorem run_tokens (policy : Policy) (h : o.IsPlain) (report : Report) :
    Writer.run policy ⟨[], none, report⟩ o.tokens
      = (o.safe policy, ⟨[], none, o.account policy report⟩) := by
  have hvoid := h.void
  rw [tokens, safe, account]
  cases hwrites : policy.writesTag o.name with
  | true =>
    have hstart := step_start_of_writesTag hwrites report
    rw [Writer.run_cons, hstart, hvoid, if_pos rfl, if_pos rfl]
    cases hbody : o.body with
    | none => rfl
    | some u =>
      rw [hbody] at hvoid
      have hend := @Writer.step_endTag policy _ []
        (Writer.attributes policy [] report o.attributes).report hvoid
      simp only [Option.isNone_some, Bool.false_eq_true, if_false, Writer.run_append,
        Writer.run_textTokens, Writer.run_cons, Writer.run_nil, hend, List.append_nil]
      rfl
  | false =>
    rw [Writer.run_cons, step_start_of_not_writesTag hwrites h.raw report, hvoid,
      if_neg Bool.false_ne_true, if_neg Bool.false_ne_true]
    cases o.body with
    | none => rfl
    | some u =>
      simp only [Option.isNone_some, Bool.false_eq_true, if_false, Writer.run_append,
        Writer.run_textTokens_skip, Writer.run_cons, Writer.run_nil, step_end_of_skip,
        List.append_nil]

/-- **An outline by itself is sanitised to its safe form.** -/
theorem sanitizeChars_written (h : o.IsPlain) :
    (sanitizeChars policy o.written).1 = o.safe policy := by
  show (Writer.run policy ⟨[], none, .clean⟩ (Markup.tokens o.written)).1
    ++ Writer.finish (Writer.run policy ⟨[], none, .clean⟩ (Markup.tokens o.written)).2 = _
  rw [h.tokens_eq, run_tokens policy h]
  exact List.append_nil _

/-- **The safe form has the line feeds of the outline.** -/
theorem newlines_safe (h : o.IsPlain) :
    Text.newlines (o.safe policy) = Text.newlines o.written := by
  rw [← sanitizeChars_written h, newlines_sanitizeChars, h.tokens_eq, newlines_written h]

/-- **Outlines on lines of their own are written one by one**, and nothing is open behind them. -/
theorem run_joinLines (policy : Policy) {os : List Outline} (h : ∀ o ∈ os, o.IsPlain)
    (report : Report) :
    Writer.run policy ⟨[], none, report⟩ (Markup.tokens (joinLines (os.map written)))
      = (joinLines (os.map (safe policy)), ⟨[], none, os.foldl (account policy) report⟩) := by
  induction os generalizing report with
  | nil =>
    show Writer.run policy ⟨[], none, report⟩ (Markup.tokens []) = _
    rw [tokens_nil]
    rfl
  | cons o os ih =>
    have ho := h o List.mem_cons_self
    cases os with
    | nil =>
      rw [List.map_singleton, List.map_singleton, joinLines, joinLines,
        List.intercalate_singleton, List.intercalate_singleton, ho.tokens_eq, run_tokens policy ho]
      rfl
    | cons o' os =>
      have hmore := ih (fun p hp => h p (List.mem_cons_of_mem o hp)) (o.account policy report)
      have hjoin (f : Outline → List Char) : joinLines ((o :: o' :: os).map f)
          = f o ++ (['\n'] ++ joinLines ((o' :: os).map f)) := by
        rw [joinLines, List.map_cons, List.map_cons, List.intercalate_cons_cons, List.append_assoc]
        rfl
      -- the line feed between two outlines is text, as nothing is being taken out there
      have hfeed : IsText ['\n'] := .plain (by decide) .nil
      rw [hjoin, hjoin, tokens_written ho, Writer.run_append, run_tokens policy ho,
        Writer.run_tokens_text rfl hfeed, hmore]
      rfl

/-- **Sanitising outlines on lines of their own is sanitising each of them**, and the account is
made up of theirs. -/
theorem sanitizeChars_joinLines {os : List Outline} (h : ∀ o ∈ os, o.IsPlain) :
    sanitizeChars policy (joinLines (os.map written))
      = (joinLines (os.map fun o => (sanitizeChars policy o.written).1),
        os.foldl (account policy) .clean) := by
  have hsafe : os.map (fun o => (sanitizeChars policy o.written).1) = os.map (safe policy) :=
    List.map_congr_left fun o ho => sanitizeChars_written (h o ho)
  show ((Writer.run policy ⟨[], none, .clean⟩ (Markup.tokens (joinLines (os.map written)))).1
      ++ Writer.finish
        (Writer.run policy ⟨[], none, .clean⟩ (Markup.tokens (joinLines (os.map written)))).2,
    (Writer.run policy ⟨[], none, .clean⟩ (Markup.tokens (joinLines (os.map written)))).2.report)
    = _
  rw [run_joinLines policy h, hsafe]
  exact congrArg (·, _) (List.append_nil _)

end Outline

end SafePreview
