import Mathlib.Algebra.GroupWithZero.Nat
import SafePreview.Proofs.Markup.Output

/-!
# No line feed is lost

Whatever becomes of a token, what is written for it has as many line feeds as the token itself
(`newlines_step`): those of its text, or those of the values of its attributes. Text and values are
escaped, and escaping neither makes line feeds nor takes any away; where something is taken out its
line feeds are written in its place.

Names need a word of their own. A name is written as it stands, so a line feed in it would be one
too many – but only plain names are written, and a plain name has none. For end tags that is a fact
about the elements that are open, and `State.IsPlain` carries it through a run.
-/

namespace SafePreview.Markup

/-- **The line feeds of a token**: those of its text, or of its values. -/
def Token.newlines : Token → Nat
  | .text content => Text.newlines content
  | .startTag _ attributes _ => attributeNewlines attributes
  | .endTag _ => 0

/-! ## Writing keeps line feeds -/

/-- A text without line feeds has none to count. -/
theorem newlines_eq_zero {cs : List Char} (h : '\n' ∉ cs) : Text.newlines cs = 0 :=
  List.count_eq_zero.2 h

theorem newlines_cons_of_ne {c : Char} (cs : List Char) (h : c ≠ '\n') :
    Text.newlines (c :: cs) = Text.newlines cs := List.count_cons_of_ne h

/-- A character is written with as many line feeds as it is. -/
theorem newlines_escapeTextChar (c : Char) :
    Text.newlines (escapeTextChar c) = Text.newlines [c] := by
  unfold escapeTextChar
  split
  · rename_i h
    rw [h]
    rfl
  · split
    · rename_i h
      rw [h]
      rfl
    · split
      · rename_i h
        rw [h]
        rfl
      · rfl

theorem newlines_escapeValueChar (c : Char) :
    Text.newlines (escapeValueChar c) = Text.newlines [c] := by
  unfold escapeValueChar
  split
  · rename_i h
    rw [h]
    rfl
  · exact newlines_escapeTextChar c

/-- **Text is written with its line feeds.** -/
theorem newlines_escapeText (u : List Char) : Text.newlines (escapeText u) = Text.newlines u := by
  induction u with
  | nil => rfl
  | cons c u ih =>
    rw [escapeText_cons, Text.newlines_append, newlines_escapeTextChar, ih,
      ← Text.newlines_append, List.singleton_append]

/-- **A value is written with its line feeds.** -/
theorem newlines_escapeValue (u : List Char) :
    Text.newlines (escapeValue u) = Text.newlines u := by
  induction u with
  | nil => rfl
  | cons c u ih =>
    rw [escapeValue_cons, Text.newlines_append, newlines_escapeValueChar, ih,
      ← Text.newlines_append, List.singleton_append]

@[simp] theorem newlines_lineFeeds (n : Nat) : Text.newlines (lineFeeds n) = n :=
  List.count_replicate_self

/-- A plain name has no line feed. -/
theorem IsPlainName.newlines_eq {name : List Char} (h : IsPlainName attributeMarks name) :
    Text.newlines name = 0 := newlines_eq_zero (h.notMem (by decide))

theorem IsTag.newlines_eq {policy : Policy} {name : List Char} (h : IsTag policy name) :
    Text.newlines name = 0 := h.plain.attribute.newlines_eq

/-- An attribute with a plain name is written with the line feeds of its value. -/
theorem newlines_writeAttribute {a : Attribute} (h : IsPlainName attributeMarks a.name) :
    Text.newlines (writeAttribute a) = Text.newlines a.value := by
  have hname := h.newlines_eq
  show Text.newlines (' ' :: (a.name ++ ['=', '"'] ++ escapeValue a.value ++ ['"'])) = _
  rw [newlines_cons_of_ne _ (by decide), Text.newlines_append, Text.newlines_append,
    Text.newlines_append, hname, newlines_escapeValue]
  show 0 + 0 + Text.newlines a.value + 0 = _
  omega

theorem newlines_writeEnd {policy : Policy} {name : List Char} (h : IsTag policy name) :
    Text.newlines (writeEnd name) = 0 := by
  rw [writeEnd, Text.newlines_append, Text.newlines_append, h.newlines_eq]
  rfl

namespace Writer

/-- **The line feeds of attributes** are written in their values or behind the tag. -/
theorem newlines_attributes (policy : Policy) (seen : List (List Char)) (report : Report)
    (as : List Attribute) :
    Text.newlines (attributes policy seen report as).written
        + (attributes policy seen report as).droppedNewlines
      = attributeNewlines as := by
  induction as generalizing seen report with
  | nil => rfl
  | cons a rest ih =>
    have hsum : attributeNewlines (a :: rest)
        = Text.newlines a.value + attributeNewlines rest := rfl
    rw [attributes, hsum]
    split
    · have hrest := ih seen report
      simp only
      omega
    · split
      · rename_i hjudge
        have hplain := (isAttributeName_iff a.name).1 ((judge_eq_kept_iff policy a).1 hjudge).2.1
        have hrest := ih (a.name :: seen) report
        simp only [Text.newlines_append, newlines_writeAttribute hplain]
        omega
      · have hrest := ih (a.name :: seen) (report.removeAttribute (policy.judge a))
        simp only
        omega

/-- What is written of the attributes of a tag does not depend on the account, nor do the line feeds
that are written behind it. -/
theorem attributes_report (policy : Policy) (seen : List (List Char)) (report report' : Report)
    (as : List Attribute) :
    (attributes policy seen report as).written = (attributes policy seen report' as).written
      ∧ (attributes policy seen report as).droppedNewlines
        = (attributes policy seen report' as).droppedNewlines := by
  have hwritten : (attributes policy seen report as).written
      = (attributes policy seen report' as).written := by
    rw [written_attributes, written_attributes]
  refine ⟨hwritten, ?_⟩
  have hsum := newlines_attributes policy seen report as
  have hsum' := newlines_attributes policy seen report' as
  rw [hwritten] at hsum
  omega

/-! ## The elements that are open -/

/-- **Every open element is one that may stay.** -/
def State.IsPlain (policy : Policy) (state : State) : Prop :=
  ∀ name ∈ state.opened, IsTag policy name

theorem isPlain_initial (policy : Policy) : State.initial.IsPlain policy :=
  fun _ h => absurd h List.not_mem_nil

theorem State.IsPlain.startTag {policy : Policy} {state : State} (h : state.IsPlain policy)
    (name : List Char) (as : List Attribute) (selfClosing : Bool) :
    (startTag policy state name as selfClosing).2.IsPlain policy := by
  unfold Writer.startTag
  split
  · exact h
  · rename_i hwrites
    rw [Bool.not_eq_true, Bool.not_eq_false', writesTag_iff] at hwrites
    split
    · exact h
    · simp only
      split
      · exact h
      · split
        · exact h
        · intro other hother
          rcases List.mem_cons.1 hother with rfl | hother
          · exact hwrites
          · exact h other hother

theorem State.IsPlain.endTag {policy : Policy} {state : State} (h : state.IsPlain policy)
    (name : List Char) : (endTag state name).2.IsPlain policy := by
  unfold Writer.endTag
  split
  · exact h
  · exact fun other hother => h other (List.mem_of_mem_drop hother)

/-- Inside an element that is being taken out no element is opened or closed. -/
theorem opened_skipToken (state : State) (skip : Skip) (t : Token) :
    (skipToken state skip t).2.opened = state.opened := by
  cases t with
  | text content => rfl
  | startTag name attributes selfClosing => rfl
  | endTag name =>
    rw [skipToken]
    split
    · rfl
    · rfl

/-- **A token opens only what may stay.** -/
theorem State.IsPlain.step {policy : Policy} {state : State} (h : state.IsPlain policy)
    (t : Token) : (step policy state t).2.IsPlain policy := by
  unfold Writer.step
  split
  · rename_i skip _
    rw [State.IsPlain, opened_skipToken]
    exact h
  · cases t with
    | text content => exact h
    | startTag name attributes selfClosing => exact h.startTag name attributes selfClosing
    | endTag name => exact h.endTag name

/-! ## What a token writes -/

theorem newlines_skipToken (state : State) (skip : Skip) (t : Token) :
    Text.newlines (skipToken state skip t).1 = t.newlines := by
  cases t with
  | text content => exact newlines_lineFeeds _
  | startTag name attributes selfClosing => exact newlines_lineFeeds _
  | endTag name =>
    rw [skipToken]
    split
    · rfl
    · rfl

theorem newlines_startTag (policy : Policy) (state : State) (name : List Char)
    (as : List Attribute) (selfClosing : Bool) :
    Text.newlines (startTag policy state name as selfClosing).1 = attributeNewlines as := by
  unfold startTag
  split
  · exact newlines_lineFeeds _
  · rename_i hwrites
    rw [Bool.not_eq_true, Bool.not_eq_false', writesTag_iff] at hwrites
    split
    · exact newlines_lineFeeds _
    · have hattributes := newlines_attributes policy [] state.report as
      have htag : Text.newlines ('<' :: name ++ (attributes policy [] state.report as).written
          ++ '>' :: lineFeeds (attributes policy [] state.report as).droppedNewlines)
          = attributeNewlines as := by
        rw [Text.newlines_append, List.cons_append, newlines_cons_of_ne _ (by decide),
          newlines_cons_of_ne _ (by decide), Text.newlines_append, hwrites.newlines_eq,
          newlines_lineFeeds]
        omega
      simp only
      split
      · exact htag
      · split
        · rw [Text.newlines_append, htag, newlines_writeEnd hwrites]
          rfl
        · exact htag

/-- End tags have no line feed. -/
theorem newlines_flatMap_writeEnd {policy : Policy} {names : List (List Char)}
    (h : ∀ name ∈ names, IsTag policy name) : Text.newlines (names.flatMap writeEnd) = 0 := by
  induction names with
  | nil => rfl
  | cons name names ih =>
    rw [List.flatMap_cons, Text.newlines_append, newlines_writeEnd (h name List.mem_cons_self),
      ih fun other hother => h other (List.mem_cons_of_mem name hother)]

theorem newlines_endTag {policy : Policy} {state : State} (h : state.IsPlain policy)
    (name : List Char) : Text.newlines (endTag state name).1 = 0 := by
  unfold endTag
  split
  · rfl
  · rename_i hopen
    rw [Bool.or_eq_true, not_or, Bool.not_eq_true, Bool.not_eq_true, Bool.not_eq_false',
      List.contains_iff_mem] at hopen
    refine @newlines_flatMap_writeEnd policy _ fun other hother => ?_
    rcases List.mem_append.1 hother with hother | hother
    · exact h other ((List.takeWhile_sublist _).subset hother)
    · rw [List.mem_singleton.1 hother]
      exact h name hopen.2

/-- **What a token writes has the line feeds of the token**, whatever becomes of it. -/
theorem newlines_step {policy : Policy} {state : State} (h : state.IsPlain policy) (t : Token) :
    Text.newlines (step policy state t).1 = t.newlines := by
  unfold step
  split
  · exact newlines_skipToken state _ t
  · cases t with
    | text content => exact newlines_escapeText content
    | startTag name attributes selfClosing =>
      exact newlines_startTag policy state name attributes selfClosing
    | endTag name => exact newlines_endTag h name

/-- **What a stream writes has the line feeds of its tokens**, and so has the whole output, as the
end tags that finish it have none. -/
theorem newlines_run {policy : Policy} {state : State} (h : state.IsPlain policy)
    (ts : List Token) :
    Text.newlines (run policy state ts).1 = (ts.map Token.newlines).sum
      ∧ Text.newlines (finish (run policy state ts).2) = 0 := by
  induction ts generalizing state with
  | nil => exact ⟨rfl, newlines_flatMap_writeEnd h⟩
  | cons t ts ih =>
    obtain ⟨hmore, hfinish⟩ := ih (h.step t)
    refine ⟨?_, hfinish⟩
    rw [run_cons, Text.newlines_append, newlines_step h, hmore]
    rfl

end Writer

/-- **Sanitised markup has the line feeds of the tokens**, under every policy. -/
theorem newlines_sanitizeChars (policy : Policy) (cs : List Char) :
    Text.newlines (sanitizeChars policy cs).1 = ((tokens cs).map Token.newlines).sum := by
  obtain ⟨hrun, hfinish⟩ := Writer.newlines_run (Writer.isPlain_initial policy) (tokens cs)
  rw [sanitizeChars, Text.newlines_append, hrun, hfinish, Nat.add_zero]

end SafePreview.Markup
