import SafePreview.Proofs.Markup.Escaping
import SafePreview.Markup.Sanitize

/-!
# Canonical markup

The language in which sanitised markup is written, as a grammar over characters that does not
mention the writer. A document is a sequence of text, of void tags and of elements, each element
around a document of its own; `Document policy n` has at most `n` elements open at once, and
`IsCanonical` allows 512.

Below the documents stand the tags and the attributes. Every condition that makes markup safe is a
field there: `IsTag` for names of tags and `WrittenAttribute.IsSafe` for attributes. The fixed lists
and the rule about handlers are fields beside the policy's own answer, although a policy that
permits a name implies them (`Policy.notMem_strippedTags`), so that the grammar says by itself what
never stands in a document.

The second half ties each condition to the test that the writer makes, in both directions where both
are needed: names, escaped runs (`isText_iff`, `isValue_iff`) and attributes (`judge_eq_kept_iff`,
`Attribute.isSafe_written`).
-/

namespace SafePreview.Markup

/-! ## The grammar -/

/-- **A plain name**: a lower-case letter, then lower-case letters, digits and the given marks. -/
def IsPlainName (marks : List Char) : List Char → Prop
  | [] => False
  | c :: cs => ('a' ≤ c ∧ c ≤ 'z')
      ∧ ∀ d ∈ cs, ('a' ≤ d ∧ d ≤ 'z') ∨ ('0' ≤ d ∧ d ≤ '9') ∨ d ∈ marks

/-- The marks in names of tags. -/
def tagMarks : List Char := ['-']

/-- The marks in names of attributes. -/
def attributeMarks : List Char := ['-', '_', ':', '.']

/-- **An escaped run**: characters that are not special stand for themselves, and of references
there are only the given ones. -/
inductive IsEscaped (special : List Char) (references : List String) : List Char → Prop
  | nil : IsEscaped special references []
  | plain {c : Char} {cs : List Char} (hc : c ∉ special)
      (hcs : IsEscaped special references cs) : IsEscaped special references (c :: cs)
  | reference {r : String} {cs : List Char} (hr : r ∈ references)
      (hcs : IsEscaped special references cs) : IsEscaped special references (r.toList ++ cs)

/-- Text between tags: no NUL, and the characters of markup only as references. -/
def IsText : List Char → Prop :=
  IsEscaped ['<', '>', '&', '\x00'] ["&lt;", "&gt;", "&amp;"]

/-- What may stand between the quotes of an attribute. -/
def IsValue : List Char → Prop :=
  IsEscaped ['"', '<', '>', '&'] ["&quot;", "&lt;", "&gt;", "&amp;"]

/-- **An attribute as it is written**, its value with references. -/
structure WrittenAttribute where
  name : List Char
  escaped : List Char

namespace WrittenAttribute

/-- The text of an attribute: ` name="value"`. -/
def text (a : WrittenAttribute) : List Char :=
  ' ' :: a.name ++ ['=', '"'] ++ a.escaped ++ ['"']

/-- The attribute that is meant. -/
def meaning (a : WrittenAttribute) : Attribute := ⟨a.name, decode a.escaped⟩

/-- **A safe attribute**: its name is plain and may stay, and the value that is meant is harmless
where the name gives it a power. -/
structure IsSafe (policy : Policy) (a : WrittenAttribute) : Prop where
  plain : IsPlainName attributeMarks a.name
  permitted : policy.permitsAttribute (String.ofList a.name) = true
  /-- It handles no event. -/
  notHandler : ¬ ['o', 'n'] <+: a.name
  notStripped : String.ofList a.name ∉ strippedAttributes
  value : IsValue a.escaped
  address : String.ofList a.name ∈ addressAttributes → isSafeAddress (decode a.escaped) = true
  style : String.ofList a.name = "style" → isSafeStyle (decode a.escaped) = true

/-- **An attribute that is read as it is meant**, whether it is safe or not. -/
structure IsReadable (a : WrittenAttribute) : Prop where
  plain : IsPlainName attributeMarks a.name
  value : IsValue a.escaped

theorem IsSafe.isReadable {policy : Policy} {a : WrittenAttribute} (h : a.IsSafe policy) :
    a.IsReadable := ⟨h.plain, h.value⟩

end WrittenAttribute

/-- **The attributes of a tag**: safe ones, no name twice. -/
structure AreAttributes (policy : Policy) (as : List WrittenAttribute) : Prop where
  nodup : (as.map (·.name)).Nodup
  safe : ∀ a ∈ as, a.IsSafe policy

theorem AreAttributes.isReadable {policy : Policy} {as : List WrittenAttribute}
    (h : AreAttributes policy as) : ∀ a ∈ as, a.IsReadable := fun a ha => (h.safe a ha).isReadable

/-- **The name of a tag that may stay.** -/
structure IsTag (policy : Policy) (name : List Char) : Prop where
  plain : IsPlainName tagMarks name
  permitted : policy.permitsTag (String.ofList name) = true
  notStripped : String.ofList name ∉ strippedTags

/-- A start tag as it is written. -/
def startTagText (name : List Char) (as : List WrittenAttribute) : List Char :=
  '<' :: name ++ as.flatMap WrittenAttribute.text ++ ['>']

/-- An end tag as it is written. -/
def endTagText (name : List Char) : List Char := '<' :: '/' :: name ++ ['>']

/-- **A document with at most `n` elements open at once.** -/
inductive Document (policy : Policy) : Nat → List Char → Prop
  | nil {n : Nat} : Document policy n []
  | text {n : Nat} {t cs : List Char} (ht : IsText t) (hcs : Document policy n cs) :
      Document policy n (t ++ cs)
  | void {n : Nat} {name cs : List Char} {as : List WrittenAttribute} (hname : IsTag policy name)
      (hvoid : isVoid name = true) (has : AreAttributes policy as)
      (hcs : Document policy n cs) : Document policy n (startTagText name as ++ cs)
  | element {n : Nat} {name body cs : List Char} {as : List WrittenAttribute}
      (hname : IsTag policy name) (hvoid : isVoid name = false) (has : AreAttributes policy as)
      (hbody : Document policy n body) (hcs : Document policy (n + 1) cs) :
      Document policy (n + 1) (startTagText name as ++ body ++ endTagText name ++ cs)

/-- **Canonical markup under a policy.** -/
def IsCanonical (policy : Policy) (cs : List Char) : Prop := Document policy 512 cs

/-! ## Names -/

theorem isLowerLetter_iff (c : Char) : Text.isLowerLetter c = true ↔ 'a' ≤ c ∧ c ≤ 'z' := by
  rw [Text.isLowerLetter, Bool.and_eq_true, decide_eq_true_iff, decide_eq_true_iff]

theorem isDigit_iff (c : Char) : Text.isDigit c = true ↔ '0' ≤ c ∧ c ≤ '9' := by
  rw [Text.isDigit, Bool.and_eq_true, decide_eq_true_iff, decide_eq_true_iff]

theorem isTagNameChar_iff (c : Char) :
    isTagNameChar c = true ↔ ('a' ≤ c ∧ c ≤ 'z') ∨ ('0' ≤ c ∧ c ≤ '9') ∨ c ∈ tagMarks := by
  simp only [isTagNameChar, Bool.or_eq_true, isLowerLetter_iff, isDigit_iff, decide_eq_true_iff,
    tagMarks, List.mem_singleton, or_assoc]

theorem isAttributeNameChar_iff (c : Char) :
    isAttributeNameChar c = true
      ↔ ('a' ≤ c ∧ c ≤ 'z') ∨ ('0' ≤ c ∧ c ≤ '9') ∨ c ∈ attributeMarks := by
  simp only [isAttributeNameChar, Bool.or_eq_true, isTagNameChar_iff, decide_eq_true_iff, tagMarks,
    attributeMarks, List.mem_cons, List.not_mem_nil, or_false, or_assoc]

/-- The test of a tag's name is the grammar's. -/
theorem isTagName_iff (name : List Char) :
    isTagName name = true ↔ IsPlainName tagMarks name := by
  cases name with
  | nil => simp [isTagName, IsPlainName]
  | cons c cs =>
    simp only [isTagName, IsPlainName, Bool.and_eq_true, isLowerLetter_iff, List.all_eq_true,
      isTagNameChar_iff]

/-- The test of an attribute's name is the grammar's. -/
theorem isAttributeName_iff (name : List Char) :
    isAttributeName name = true ↔ IsPlainName attributeMarks name := by
  cases name with
  | nil => simp [isAttributeName, IsPlainName]
  | cons c cs =>
    simp only [isAttributeName, IsPlainName, Bool.and_eq_true, isLowerLetter_iff,
      List.all_eq_true, isAttributeNameChar_iff]

/-- A tag that may stay is none of those that never may. -/
theorem Policy.notMem_strippedTags {policy : Policy} {name : String}
    (h : policy.permitsTag name = true) : name ∉ strippedTags := by
  rw [Policy.permitsTag, Bool.and_eq_true, Bool.and_eq_true] at h
  simpa using h.1.1

/-- An attribute that may stay handles no event and is none of those that never may. -/
theorem Policy.notHandler_notMem_strippedAttributes {policy : Policy} {name : List Char}
    (h : policy.permitsAttribute (String.ofList name) = true) :
    ¬ ['o', 'n'] <+: name ∧ String.ofList name ∉ strippedAttributes := by
  simp only [Policy.permitsAttribute, Policy.isHandler, Bool.and_eq_true, String.toList_ofList,
    Bool.not_eq_true', List.isPrefixOf_iff_prefix, ← Bool.not_eq_true, List.contains_iff_mem] at h
  exact ⟨h.1.1.1, h.1.1.2⟩

/-- **The writer writes the tags that the grammar has.** -/
theorem writesTag_iff (policy : Policy) (name : List Char) :
    policy.writesTag name = true ↔ IsTag policy name := by
  rw [Policy.writesTag, Bool.and_eq_true, isTagName_iff]
  constructor
  · intro h
    exact ⟨h.1, h.2, Policy.notMem_strippedTags h.2⟩
  · intro h
    exact ⟨h.plain, h.permitted⟩

/-- A character of a plain name. -/
theorem IsPlainName.mem {marks name : List Char} (h : IsPlainName marks name) {c : Char}
    (hc : c ∈ name) : ('a' ≤ c ∧ c ≤ 'z') ∨ ('0' ≤ c ∧ c ≤ '9') ∨ c ∈ marks := by
  cases name with
  | nil => exact absurd hc List.not_mem_nil
  | cons d name =>
    rcases List.mem_cons.1 hc with rfl | hc
    · exact .inl h.1
    · exact h.2 c hc

/-- The names of tags are names that attributes could have. -/
theorem IsPlainName.attribute {name : List Char} (h : IsPlainName tagMarks name) :
    IsPlainName attributeMarks name := by
  cases name with
  | nil => exact h
  | cons c cs =>
    refine ⟨h.1, fun d hd => ?_⟩
    rcases h.2 d hd with hd | hd | hd
    · exact .inl hd
    · exact .inr (.inl hd)
    · exact .inr (.inr (List.mem_cons.2 (.inl (List.mem_singleton.1 hd))))

/-- **A plain name avoids a character** that is no letter, no digit and no mark. -/
theorem IsPlainName.notMem {name : List Char} (h : IsPlainName attributeMarks name) {c : Char}
    (hc : ¬ (('a' ≤ c ∧ c ≤ 'z') ∨ ('0' ≤ c ∧ c ≤ '9') ∨ c ∈ attributeMarks)) : c ∉ name :=
  fun hmem => hc (h.mem hmem)

/-! ## Escaped runs -/

theorem IsEscaped.append {special : List Char} {references : List String} {a b : List Char}
    (ha : IsEscaped special references a) (hb : IsEscaped special references b) :
    IsEscaped special references (a ++ b) := by
  induction ha with
  | nil => exact hb
  | plain hc _ ih => exact .plain hc ih
  | reference hr _ ih =>
    rw [List.append_assoc]
    exact .reference hr ih

/-- **A special character stands in no escaped run**, if it stands in no reference. -/
theorem IsEscaped.notMem {special : List Char} {references : List String} {cs : List Char}
    {x : Char} (h : IsEscaped special references cs) (hx : x ∈ special)
    (hreferences : ∀ r ∈ references, x ∉ r.toList) : x ∉ cs := by
  induction h with
  | nil => exact List.not_mem_nil
  | plain hc _ ih => exact List.not_mem_cons_of_ne_of_not_mem (fun he => hc (he ▸ hx)) ih
  | reference hr _ ih =>
    rw [List.mem_append, not_or]
    exact ⟨hreferences _ hr, ih⟩

/-- Text has no NUL. -/
theorem IsText.nul_notMem {t : List Char} (h : IsText t) : '\x00' ∉ t :=
  h.notMem (by decide) (by decide)

/-- A value is closed by the next quote. -/
theorem IsValue.quote_notMem {v : List Char} (h : IsValue v) : '"' ∉ v :=
  h.notMem (by decide) (by decide)

/-- A character of text is written as the grammar has it. -/
theorem isText_escapeTextChar {c : Char} (hc : c ≠ '\x00') : IsText (escapeTextChar c) := by
  unfold escapeTextChar
  split
  · exact .reference (r := "&amp;") (by decide) .nil
  · split
    · exact .reference (r := "&lt;") (by decide) .nil
    · split
      · exact .reference (r := "&gt;") (by decide) .nil
      · rename_i hamp hlt hgt
        exact .plain (by simp [hamp, hlt, hgt, hc]) .nil

/-- A character of a value is written as the grammar has it. -/
theorem isValue_escapeValueChar (c : Char) : IsValue (escapeValueChar c) := by
  unfold escapeValueChar escapeTextChar
  split
  · exact .reference (r := "&quot;") (by decide) .nil
  · split
    · exact .reference (r := "&amp;") (by decide) .nil
    · split
      · exact .reference (r := "&lt;") (by decide) .nil
      · split
        · exact .reference (r := "&gt;") (by decide) .nil
        · rename_i hquot hamp hlt hgt
          exact .plain (by simp [hquot, hamp, hlt, hgt]) .nil

/-- **Text is what is written for a text without NUL.** -/
theorem isText_iff (t : List Char) : IsText t ↔ ∃ u, '\x00' ∉ u ∧ escapeText u = t := by
  constructor
  · intro h
    induction h with
    | nil => exact ⟨[], List.not_mem_nil, rfl⟩
    | @plain c cs hc _ ih =>
      obtain ⟨u, hu, rfl⟩ := ih
      simp only [List.mem_cons, List.not_mem_nil, or_false, not_or] at hc
      refine ⟨c :: u, List.not_mem_cons_of_ne_of_not_mem (Ne.symm hc.2.2.2) hu, ?_⟩
      rw [escapeText_cons, escapeTextChar, if_neg hc.2.2.1, if_neg hc.1, if_neg hc.2.1]
      rfl
    | @reference r cs hr _ ih =>
      -- each reference is how one character is written
      obtain ⟨u, hu, rfl⟩ := ih
      simp only [List.mem_cons, List.not_mem_nil, or_false] at hr
      rcases hr with rfl | rfl | rfl
      · exact ⟨'<' :: u, List.not_mem_cons_of_ne_of_not_mem (by decide) hu, rfl⟩
      · exact ⟨'>' :: u, List.not_mem_cons_of_ne_of_not_mem (by decide) hu, rfl⟩
      · exact ⟨'&' :: u, List.not_mem_cons_of_ne_of_not_mem (by decide) hu, rfl⟩
  · rintro ⟨u, hu, rfl⟩
    induction u with
    | nil => exact .nil
    | cons c u ih =>
      obtain ⟨hc, hu⟩ := List.ne_and_not_mem_of_not_mem_cons hu
      exact (isText_escapeTextChar (Ne.symm hc)).append (ih hu)

/-- **A value is what is written for any text.** -/
theorem isValue_iff (v : List Char) : IsValue v ↔ ∃ u, escapeValue u = v := by
  constructor
  · intro h
    induction h with
    | nil => exact ⟨[], rfl⟩
    | @plain c cs hc _ ih =>
      obtain ⟨u, rfl⟩ := ih
      simp only [List.mem_cons, List.not_mem_nil, or_false, not_or] at hc
      refine ⟨c :: u, ?_⟩
      rw [escapeValue_cons, escapeValueChar, if_neg hc.1, escapeTextChar, if_neg hc.2.2.2,
        if_neg hc.2.1, if_neg hc.2.2.1]
      rfl
    | @reference r cs hr _ ih =>
      obtain ⟨u, rfl⟩ := ih
      simp only [List.mem_cons, List.not_mem_nil, or_false] at hr
      rcases hr with rfl | rfl | rfl | rfl
      · exact ⟨'"' :: u, rfl⟩
      · exact ⟨'<' :: u, rfl⟩
      · exact ⟨'>' :: u, rfl⟩
      · exact ⟨'&' :: u, rfl⟩
  · rintro ⟨u, rfl⟩
    induction u with
    | nil => exact .nil
    | cons c u ih => exact (isValue_escapeValueChar c).append ih

/-- Reading a value and writing it again leaves out NUL and nothing else. -/
theorem IsValue.escapeValue_decode {v : List Char} (h : IsValue v) :
    escapeValue (decode v) = withoutNul v := by
  obtain ⟨u, rfl⟩ := (isValue_iff v).1 h
  rw [decode_escapeValue, escapeValue_withoutNul]

/-! ## Attributes -/

/-- An attribute stays exactly if it passes every test. -/
theorem judge_eq_kept_iff (policy : Policy) (a : Attribute) :
    policy.judge a = .kept ↔ policy.permitsAttribute (String.ofList a.name) = true
      ∧ isAttributeName a.name = true
      ∧ (String.ofList a.name ∈ addressAttributes → isSafeAddress a.value = true)
      ∧ (String.ofList a.name = "style" → isSafeStyle a.value = true) := by
  have hhandler : policy.permitsAttribute (String.ofList a.name) = true →
      Policy.isHandler (String.ofList a.name) = false := by
    intro h
    rw [Policy.permitsAttribute, Bool.and_eq_true, Bool.and_eq_true, Bool.and_eq_true] at h
    simpa using h.1.1.1
  unfold Policy.judge
  simp only [Bool.or_eq_true, Bool.and_eq_true, Bool.not_eq_true', decide_eq_true_eq,
    List.contains_iff_mem]
  split
  · rename_i h
    refine iff_of_false (by decide) (fun hall => ?_)
    rw [hhandler hall.1] at h
    cases h
  · split
    · rename_i h
      refine iff_of_false (by decide) (fun hall => ?_)
      rcases h with h | h
      · rw [hall.2.1] at h
        cases h
      · rw [hall.1] at h
        cases h
    · rename_i h
      rw [not_or, Bool.not_eq_false, Bool.not_eq_false] at h
      split
      · rename_i haddress
        refine iff_of_false (by decide) (fun hall => ?_)
        rw [hall.2.2.1 haddress.1] at haddress
        cases haddress.2
      · rename_i haddress
        rw [not_and, Bool.not_eq_false] at haddress
        split
        · rename_i hstyle
          refine iff_of_false (by decide) (fun hall => ?_)
          rw [hall.2.2.2 hstyle.1] at hstyle
          cases hstyle.2
        · rename_i hstyle
          rw [not_and, Bool.not_eq_false] at hstyle
          exact iff_of_true rfl ⟨h.2, h.1, haddress, hstyle⟩

/-- An attribute as the writer writes it. -/
def Attribute.written (a : Attribute) : WrittenAttribute := ⟨a.name, escapeValue a.value⟩

theorem Attribute.isReadable_written {a : Attribute} (h : IsPlainName attributeMarks a.name) :
    a.written.IsReadable := ⟨h, (isValue_iff _).2 ⟨a.value, rfl⟩⟩

/-- **An attribute is written as it is meant**, if there is no NUL in it. -/
theorem Attribute.meaning_written {a : Attribute} (h : '\x00' ∉ a.value) :
    a.written.meaning = a := by
  show Attribute.mk a.name (decode (escapeValue a.value)) = a
  rw [decode_escapeValue, withoutNul_eq_self h]

/-- So are the attributes of a tag. -/
theorem map_meaning_written {as : List Attribute} (h : ∀ a ∈ as, '\x00' ∉ a.value) :
    (as.map Attribute.written).map WrittenAttribute.meaning = as := by
  rw [List.map_map]
  exact (List.map_congr_left fun a ha => Attribute.meaning_written (h a ha)).trans (List.map_id as)

/-- **An attribute that stays is written safely.** -/
theorem Attribute.isSafe_written {policy : Policy} {a : Attribute}
    (h : policy.judge a = .kept) (hnul : '\x00' ∉ a.value) : a.written.IsSafe policy := by
  obtain ⟨hpermitted, hname, haddress, hstyle⟩ := (judge_eq_kept_iff policy a).1 h
  have hfixed := Policy.notHandler_notMem_strippedAttributes hpermitted
  have hvalue : decode a.written.escaped = a.value :=
    congrArg Attribute.value (Attribute.meaning_written hnul)
  exact {
    plain := (isAttributeName_iff a.name).1 hname
    permitted := hpermitted
    notHandler := hfixed.1
    notStripped := hfixed.2
    value := (isValue_iff _).2 ⟨a.value, rfl⟩
    address := by
      rw [hvalue]
      exact haddress
    style := by
      rw [hvalue]
      exact hstyle }

namespace WrittenAttribute

/-- **A safe attribute stays.** -/
theorem IsSafe.judge_meaning {policy : Policy} {a : WrittenAttribute} (h : a.IsSafe policy) :
    policy.judge a.meaning = .kept :=
  (judge_eq_kept_iff policy a.meaning).2
    ⟨h.permitted, (isAttributeName_iff a.name).2 h.plain, h.address, h.style⟩

/-- A safe attribute is written again as it stands, but for NUL. -/
theorem IsSafe.writeAttribute_meaning {policy : Policy} {a : WrittenAttribute}
    (h : a.IsSafe policy) : writeAttribute a.meaning = withoutNul a.text := by
  have hname : withoutNul a.name = a.name :=
    withoutNul_eq_self (h.plain.notMem (by decide))
  show ' ' :: a.name ++ ['=', '"'] ++ escapeValue (decode a.escaped) ++ ['"']
    = withoutNul (' ' :: a.name ++ ['=', '"'] ++ a.escaped ++ ['"'])
  rw [h.value.escapeValue_decode, withoutNul_append, withoutNul_append, withoutNul_append,
    withoutNul_cons _ (by decide), hname]
  rfl

end WrittenAttribute

end SafePreview.Markup
