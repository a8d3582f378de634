import SafePreview.Proofs.Markup.Output
import SafePreview.Proofs.Markup.Reading

/-!
# Canonical markup is left as it is

The writer gives back a canonical document unchanged, but for NUL in values, and takes nothing out
(`sanitizeChars_of_isCanonical`). Since what the writer writes is canonical and has no NUL, a second
round changes nothing at all.

The statement about a document is made in front of any rest and for any elements that are open
(`run_document`): the document inside an element is read in front of its end tag, and the elements
around it stay open. What bounds the depth is that the elements that are open and those that the
document may open come to no more than the limit together.
-/

namespace SafePreview.Markup

theorem escapeText_append (a b : List Char) :
    escapeText (a ++ b) = escapeText a ++ escapeText b := List.flatMap_append

namespace Writer

variable {policy : Policy} {state : State}

/-! ## Text -/

/-- What the tokens of a text write, where nothing is being taken out: the text in front of the
first tag as markup, and what the rest writes. -/
theorem run_tokens (hskip : state.skip = none) (cs : List Char) :
    run policy state (tokens cs)
      = (escapeText (readText cs).1 ++ (run policy state (tokens (readText cs).2)).1,
        (run policy state (tokens (readText cs).2)).2) := by
  rw [tokens_eq cs]
  by_cases h : (readText cs).1 = []
  · rw [if_pos h, h]
    rfl
  · have hstep : step policy state (.text (readText cs).1)
        = (escapeText (readText cs).1, state) := by
      rw [step, hskip]
    rw [if_neg h, run_cons, hstep]

/-- **Text is written as it stands**, in front of any rest. -/
theorem run_tokens_text (hskip : state.skip = none) {t : List Char} (ht : IsText t)
    (cs : List Char) :
    run policy state (tokens (t ++ cs))
      = (t ++ (run policy state (tokens cs)).1, (run policy state (tokens cs)).2) := by
  obtain ⟨u, hu, rfl⟩ := (isText_iff t).1 ht
  rw [run_tokens hskip (escapeText u ++ cs), readText_escapeText hu, escapeText_append,
    List.append_assoc, run_tokens hskip cs]

/-! ## Tags -/

/-- Attributes of different names that may all stay do. -/
theorem attributes_of_kept {seen : List (List Char)} (report : Report) {as : List Attribute}
    (hnodup : (as.map (·.name)).Nodup) (hseen : ∀ a ∈ as, a.name ∉ seen)
    (hkept : ∀ a ∈ as, policy.judge a = .kept) :
    attributes policy seen report as = ⟨as.flatMap writeAttribute, 0, report⟩ := by
  induction as generalizing seen with
  | nil => rfl
  | cons a as ih =>
    obtain ⟨ha, hnodup⟩ := List.nodup_cons.1 hnodup
    have hrest : attributes policy (a.name :: seen) report as
        = ⟨as.flatMap writeAttribute, 0, report⟩ := ih hnodup
      (fun b hb => List.not_mem_cons_of_ne_of_not_mem
        (fun he => ha (List.mem_map.2 ⟨b, hb, he⟩)) (hseen b (List.mem_cons_of_mem a hb)))
      (fun b hb => hkept b (List.mem_cons_of_mem a hb))
    rw [attributes, if_neg (hseen a List.mem_cons_self), hkept a List.mem_cons_self]
    simp only [hrest, List.flatMap_cons]

/-- The attributes of a canonical tag are written as they stand, but for NUL. -/
theorem attributes_meaning (report : Report) {as : List WrittenAttribute}
    (has : AreAttributes policy as) :
    attributes policy [] report (as.map WrittenAttribute.meaning)
      = ⟨withoutNul (as.flatMap WrittenAttribute.text), 0, report⟩ := by
  have hwritten : (as.map WrittenAttribute.meaning).flatMap writeAttribute
      = withoutNul (as.flatMap WrittenAttribute.text) := by
    rw [List.flatMap_map, withoutNul, List.filter_flatMap, List.flatMap_def, List.flatMap_def]
    exact congrArg List.flatten
      (List.map_congr_left fun a ha => (has.safe a ha).writeAttribute_meaning)
  rw [attributes_of_kept report, hwritten]
  · rw [List.map_map]
    exact has.nodup
  · exact fun a _ => List.not_mem_nil
  · intro a ha
    obtain ⟨w, hw, rfl⟩ := List.mem_map.1 ha
    exact (has.safe w hw).judge_meaning

/-- A start tag without NUL in its values. -/
theorem withoutNul_startTagText {name : List Char} (h : IsTag policy name)
    (as : List WrittenAttribute) :
    withoutNul (startTagText name as)
      = '<' :: name ++ withoutNul (as.flatMap WrittenAttribute.text) ++ ['>'] := by
  rw [startTagText, withoutNul_append, withoutNul_append, withoutNul_cons _ (by decide),
    withoutNul_eq_self h.nul_notMem]
  rfl

/-- **A canonical start tag is written as it stands**, but for NUL in its values, and opens its
element. -/
theorem step_startTag {name : List Char} {as : List WrittenAttribute} (opened : List (List Char))
    (report : Report) (h : IsTag policy name) (has : AreAttributes policy as)
    (hdepth : isVoid name = false → opened.length < depthLimit) :
    step policy ⟨opened, none, report⟩ (.startTag name (as.map WrittenAttribute.meaning) false)
      = (withoutNul (startTagText name as),
        ⟨if isVoid name then opened else name :: opened, none, report⟩) := by
  have hwrites := (writesTag_iff policy name).2 h
  show startTag policy ⟨opened, none, report⟩ name (as.map WrittenAttribute.meaning) false = _
  rw [startTag, hwrites, withoutNul_startTagText h, attributes_meaning report has]
  cases hvoid : isVoid name with
  | true => simp [lineFeeds]
  | false => simp [lineFeeds, Nat.not_le.2 (hdepth hvoid)]

/-- **An end tag closes the innermost element.** -/
theorem step_endTag {name : List Char} (opened : List (List Char)) (report : Report)
    (hvoid : isVoid name = false) :
    step policy ⟨name :: opened, none, report⟩ (.endTag name)
      = (endTagText name, ⟨opened, none, report⟩) := by
  simp [step, endTag, hvoid, endTagText, writeEnd]

end Writer

/-! ## Documents -/

/-- **A document is written as it stands**, but for NUL in its values, in front of any rest and
inside any elements that leave it room. -/
theorem run_document {policy : Policy} {n : Nat} {cs : List Char} (h : Document policy n cs)
    (opened : List (List Char)) (report : Report) (hdepth : opened.length + n ≤ depthLimit)
    (rest : List Char) :
    Writer.run policy ⟨opened, none, report⟩ (tokens (cs ++ rest))
      = (withoutNul cs ++ (Writer.run policy ⟨opened, none, report⟩ (tokens rest)).1,
        (Writer.run policy ⟨opened, none, report⟩ (tokens rest)).2) := by
  induction h generalizing opened rest with
  | nil => rfl
  | text ht _ ih =>
    rw [List.append_assoc, Writer.run_tokens_text rfl ht, ih opened hdepth, withoutNul_append,
      withoutNul_eq_self ht.nul_notMem, List.append_assoc]
  | void hname hvoid has _ ih =>
    have hdepth' : isVoid _ = false → opened.length < depthLimit := fun hnot => by
      rw [hvoid] at hnot
      cases hnot
    have hread := tokens_startTagText hname.plain hname.not_isRawText has.isReadable
    rw [List.append_assoc, hread, Writer.run_cons,
      Writer.step_startTag opened report hname has hdepth', if_pos hvoid, ih opened hdepth,
      withoutNul_append, List.append_assoc]
  | @element n name body cs as hname hvoid has _ _ ihbody ih =>
    -- the body is read with the element open, and what is behind its end tag with it closed again
    have hstart := Writer.step_startTag opened report hname has (fun _ => by omega)
    rw [hvoid, if_neg Bool.false_ne_true] at hstart
    have hbodyDepth : (name :: opened).length + n ≤ depthLimit := by
      rw [List.length_cons]
      omega
    have hnul : withoutNul (endTagText name) = endTagText name :=
      withoutNul_eq_self (nul_notMem_endTagText hname)
    have hread := tokens_startTagText hname.plain hname.not_isRawText has.isReadable
    rw [List.append_assoc, List.append_assoc, List.append_assoc, hread, Writer.run_cons, hstart,
      ihbody _ hbodyDepth,
      tokens_endTagText hname.plain, Writer.run_cons, Writer.step_endTag opened report hvoid,
      ih opened hdepth]
    simp only [withoutNul_append, hnul, List.append_assoc]

/-- **Canonical markup is given back without NUL, and nothing is taken out.** -/
theorem sanitizeChars_of_isCanonical {policy : Policy} {cs : List Char}
    (h : IsCanonical policy cs) : sanitizeChars policy cs = (withoutNul cs, .clean) := by
  have hrun := run_document h [] .clean (Nat.le_of_eq rfl) []
  rw [List.append_nil, tokens_nil, Writer.run_nil, List.append_nil] at hrun
  show ((Writer.run policy ⟨[], none, .clean⟩ (tokens cs)).1
      ++ Writer.finish (Writer.run policy ⟨[], none, .clean⟩ (tokens cs)).2,
    (Writer.run policy ⟨[], none, .clean⟩ (tokens cs)).2.report) = _
  rw [hrun]
  exact congrArg (·, Report.clean) (List.append_nil _)

/-- Safe markup is its text. -/
theorem SafeMarkup.eq_of_text {a b : SafeMarkup} (h : a.text = b.text) : a = b := by
  obtain ⟨text, _⟩ := a
  obtain ⟨_, _⟩ := b
  cases h
  rfl

/-- A string without NUL is given back itself. -/
theorem ofList_withoutNul {x : String} (h : '\x00' ∉ x.toList) :
    String.ofList (withoutNul x.toList) = x := by
  rw [withoutNul_eq_self h, String.ofList_toList]

/-- **Sanitising leaves canonical markup as it is, and so changes nothing the second time.** A
canonical document is given back without the NUL that its values may have, thus as it is if they
have none, and nothing is taken out; what is sanitised is such a document. -/
theorem sanitizeWithReport_of_isCanonical (policy : Policy) :
    (∀ x : String, IsCanonical policy x.toList →
      (sanitizeWithReport policy x).1.text = String.ofList (withoutNul x.toList)
        ∧ (sanitizeWithReport policy x).2 = .clean)
    ∧ (∀ x : String, IsCanonical policy x.toList → '\x00' ∉ x.toList →
      (sanitizeWithReport policy x).1.text = x ∧ (sanitizeWithReport policy x).2 = .clean)
    ∧ ∀ y : String, sanitize policy (sanitize policy y).text = sanitize policy y
      ∧ (sanitizeWithReport policy (sanitize policy y).text).2 = .clean := by
  have hcanonical : ∀ x : String, IsCanonical policy x.toList →
      (sanitizeWithReport policy x).1.text = String.ofList (withoutNul x.toList)
        ∧ (sanitizeWithReport policy x).2 = .clean := by
    intro x hx
    have hchars := sanitizeChars_of_isCanonical hx
    exact ⟨congrArg (fun made : List Char × Report => String.ofList made.1) hchars,
      congrArg Prod.snd hchars⟩
  have hfixed : ∀ x : String, IsCanonical policy x.toList → '\x00' ∉ x.toList →
      (sanitizeWithReport policy x).1.text = x ∧ (sanitizeWithReport policy x).2 = .clean := by
    intro x hx hnul
    rw [(hcanonical x hx).1, ofList_withoutNul hnul]
    exact ⟨rfl, (hcanonical x hx).2⟩
  refine ⟨hcanonical, hfixed, fun y => ?_⟩
  have hy := hfixed (sanitize policy y).text
    (toList_sanitize policy y ▸ isCanonical_sanitizeChars policy y.toList)
    (toList_sanitize policy y ▸ nul_notMem_sanitizeChars policy y.toList)
  exact ⟨SafeMarkup.eq_of_text hy.1, hy.2⟩

/-! ### A value with NUL

A value may have NUL and be canonical, and then it does not come back as it was. The document here
has such a value, a reference in it, escaped text and a void tag. -/

/-- A paragraph with a title. -/
def titledParagraph : String := "<p title=\"a\x00&quot;b\">x &amp; y<br></p>"

theorem isCanonical_titledParagraph : IsCanonical .preview titledParagraph.toList := by
  have hp : IsTag .preview ['p'] := (writesTag_iff _ _).1 (by decide +kernel)
  have hbr : IsTag .preview ['b', 'r'] := (writesTag_iff _ _).1 (by decide +kernel)
  have hvalue : IsValue "a\x00&quot;b".toList := (isValue_iff _).2 ⟨"a\x00\"b".toList, by decide⟩
  have htext : IsText "x &amp; y".toList := (isText_iff _).2 ⟨"x & y".toList, by decide, by decide⟩
  have htitle : AreAttributes .preview
      [⟨['t', 'i', 't', 'l', 'e'], "a\x00&quot;b".toList⟩] := by
    refine ⟨by decide, fun a ha => ?_⟩
    rw [List.mem_singleton.1 ha]
    exact {
      plain := (isAttributeName_iff _).1 (by decide)
      permitted := by decide +kernel
      notHandler := by decide
      notStripped := by decide
      value := hvalue
      address := fun h => absurd h (by decide)
      style := fun h => absurd h (by decide) }
  have hbody : Document .preview 511 ("x &amp; y".toList ++ (startTagText ['b', 'r'] [] ++ [])) :=
    .text htext (.void hbr (by decide) ⟨by decide, fun _ ha => absurd ha List.not_mem_nil⟩ .nil)
  exact Document.element hp (by decide) htitle hbody .nil

/-- The paragraph comes back without NUL, and nothing is taken out. -/
theorem sanitizeWithReport_titledParagraph :
    IsCanonical .preview titledParagraph.toList
      ∧ (sanitizeWithReport .preview titledParagraph).1.text
        = "<p title=\"a&quot;b\">x &amp; y<br></p>"
      ∧ (sanitizeWithReport .preview titledParagraph).2 = .clean := by
  have h := (sanitizeWithReport_of_isCanonical .preview).1 titledParagraph
    isCanonical_titledParagraph
  refine ⟨isCanonical_titledParagraph, h.1.trans ?_, h.2⟩
  decide

/-- **Not every canonical document comes back as it is.** -/
theorem not_forall_sanitize_eq_of_isCanonical :
    ¬ ∀ (policy : Policy) (x : String), IsCanonical policy x.toList →
      (sanitizeWithReport policy x).1.text = x ∧ (sanitizeWithReport policy x).2 = .clean := by
  intro h
  have hsame := (h .preview titledParagraph isCanonical_titledParagraph).1
  have hnul := nul_notMem_sanitizeChars .preview titledParagraph.toList
  rw [← toList_sanitize, sanitize, hsame] at hnul
  exact hnul (by decide)

end SafePreview.Markup
