import SafePreview.Proofs.Markup.Canonical
import SafePreview.Proofs.Text.Case

/-!
# Canonical markup is read as it is meant

A tag of a canonical document is one token, with the attributes that are meant
(`tokens_startTagText`, `tokens_endTagText`), and a character of text is one character of the text
token that it stands in (`readText_escapeTextChar`). Neither depends on what is behind: each
statement is about any rest whatever, so documents can be read piece by piece. Nor does it matter
for reading what a policy permits: names have to be plain and values escaped, and that is all.

Text is the one thing that is not cut where the grammar cuts it, since two runs of text that meet
are one token. `tokens_eq` takes the tokens of any text apart into the text in front of the first
tag and the rest, and in that form putting a character in front changes the first part alone.
-/

namespace SafePreview.Markup

/-! ## Characters of names -/

/-- A character that ends a name is one of these. -/
theorem mem_of_endsAttributeName {c : Char} (h : endsAttributeName c = true) :
    c ∈ [' ', '\t', '\n', '\r', '\x0c', '/', '>', '='] := by
  simpa [endsAttributeName, endsTagName, Text.isMarkupSpace, or_assoc] using h

/-- No character of a plain name ends it. -/
theorem IsPlainName.not_endsAttributeName {name : List Char}
    (h : IsPlainName attributeMarks name) : ∀ c ∈ name, (!endsAttributeName c) = true := by
  intro c hc
  rw [Bool.not_eq_true', ← Bool.not_eq_true]
  intro hends
  have hmem := mem_of_endsAttributeName hends
  simp only [List.mem_cons, List.not_mem_nil, or_false] at hmem
  rcases hmem with rfl | rfl | rfl | rfl | rfl | rfl | rfl | rfl <;>
    exact h.notMem (by decide) hc

/-- What does not end the name of an attribute does not end the name of a tag. -/
theorem not_endsTagName {c : Char} (h : (!endsAttributeName c) = true) :
    (!endsTagName c) = true := by
  rw [endsAttributeName, Bool.not_or, Bool.and_eq_true] at h
  exact h.1

/-- What does not end the name of a tag is no space. -/
theorem not_isMarkupSpace {c : Char} (h : (!endsTagName c) = true) :
    ¬ Text.isMarkupSpace c = true := by
  intro hspace
  rw [endsTagName, hspace] at h
  cases h

/-- **A plain name is in lower case.** -/
theorem IsPlainName.lowerName_eq {name : List Char} (h : IsPlainName attributeMarks name) :
    lowerName name = name := by
  have hself : ∀ c ∈ name, c.toLower = id c := by
    intro c hc
    refine Text.toLower_of_not_upper (fun hupper => ?_)
    rcases h.mem hc with hletter | hdigit | hmark
    · exact absurd (Char.le_trans hletter.1 hupper.2) (by decide)
    · exact absurd (Char.le_trans hupper.1 hdigit.2) (by decide)
    · simp only [attributeMarks, List.mem_cons, List.not_mem_nil, or_false] at hmark
      rcases hmark with rfl | rfl | rfl | rfl <;> exact absurd hupper (by decide)
  rw [lowerName, List.map_congr_left hself, List.map_id]

/-- A plain name starts with a letter, and goes on plainly. -/
theorem IsPlainName.exists_cons {marks name : List Char} (h : IsPlainName marks name) :
    ∃ c cs, name = c :: cs ∧ 'a' ≤ c ∧ c ≤ 'z' := by
  cases name with
  | nil => exact h.elim
  | cons c cs => exact ⟨c, cs, rfl, h.1⟩

/-- A lower-case letter opens a tag behind a `<`. -/
theorem Opening.of_letter {c : Char} (h : 'a' ≤ c ∧ c ≤ 'z') (cs : List Char) :
    Opening.of (c :: cs) = .tag := by
  have hletter : Text.isLetter c = true := Text.isLetter_iff.2 (.inl h)
  unfold Opening.of
  split
  · rename_i heq
    rw [(List.cons.inj heq).1] at h
    exact absurd h (by decide)
  · rename_i heq
    rw [(List.cons.inj heq).1] at h
    exact absurd h (by decide)
  · rename_i heq
    rw [(List.cons.inj heq).1] at h
    exact absurd h (by decide)
  · rename_i heq
    rw [(List.cons.inj heq).1] at h
    exact absurd h (by decide)
  · rename_i heq
    rw [← (List.cons.inj heq).1, if_pos hletter]
  · rename_i heq
    cases heq

/-- So it does behind a slash. -/
theorem Opening.of_slash_letter {c : Char} (h : 'a' ≤ c ∧ c ≤ 'z') (cs : List Char) :
    Opening.of ('/' :: c :: cs) = .tag := by
  rw [Opening.of, if_pos (Text.isLetter_iff.2 (.inl h))]

/-! ## Text -/

/-- The text in front of the first tag, taken apart at its first `<`. -/
theorem readText_eq (cs : List Char) :
    readText cs
      = (decode (cs.takeWhile (· ≠ '<')) ++ (readText (cs.dropWhile (· ≠ '<'))).1,
        (readText (cs.dropWhile (· ≠ '<'))).2) := by
  cases cs with
  | nil =>
    show readText [] = (decode [] ++ (readText []).1, (readText []).2)
    rw [decode_nil, List.nil_append]
  | cons c cs =>
    by_cases hc : c = '<'
    · rw [List.takeWhile_cons_of_neg (by simpa using hc),
        List.dropWhile_cons_of_neg (by simpa using hc), decode_nil, List.nil_append]
    · rw [List.takeWhile_cons_of_pos (by simpa using hc),
        List.dropWhile_cons_of_pos (by simpa using hc), readText, if_neg hc]

/-- **A character of text is one character of what is read**, whatever is behind it. -/
theorem readText_escapeTextChar {c : Char} (hc : c ≠ '\x00') (cs : List Char) :
    readText (escapeTextChar c ++ cs) = (c :: (readText cs).1, (readText cs).2) := by
  have hopen : '<' ∉ escapeTextChar c :=
    (isText_escapeTextChar hc).notMem (by decide) (by decide)
  have hne := forall_ne_of_notMem hopen
  rw [readText_eq, List.takeWhile_append_of_pos hne, List.dropWhile_append_of_pos hne,
    decode_spelling (spells_escapeTextChar c) hc, readText_eq cs]
  rfl

/-- **What is written for a text is read as that text**, in front of any rest. -/
theorem readText_escapeText {u : List Char} (hu : '\x00' ∉ u) (cs : List Char) :
    readText (escapeText u ++ cs) = (u ++ (readText cs).1, (readText cs).2) := by
  induction u with
  | nil => rfl
  | cons c u ih =>
    obtain ⟨hc, hu⟩ := List.ne_and_not_mem_of_not_mem_cons hu
    rw [escapeText_cons, List.append_assoc, readText_escapeTextChar (Ne.symm hc), ih hu]
    rfl

/-- A tag stands behind no more text. -/
theorem readText_tag {cs : List Char} (h : Opening.of cs = .tag) :
    readText ('<' :: cs) = ([], '<' :: cs) := by
  rw [readText, if_pos rfl, h]

/-- What is behind the text in front of the first tag starts with that tag. -/
theorem readText_readText (cs : List Char) :
    readText (readText cs).2 = ([], (readText cs).2) := by
  fun_induction readText cs with
  | case1 => rw [readText]
  | case2 rest htag => exact readText_tag htag
  | case3 rest _ found ih => exact ih
  | case4 rest _ ih => exact ih
  | case5 rest _ ih => exact ih
  | case6 c rest _ found ih => exact ih

/-- The next token is the first. -/
theorem tokens_of_next? {cs rest : List Char} {t : Token} (h : next? cs = some (t, rest)) :
    tokens cs = t :: tokens rest := by
  rw [tokens]
  split
  · rename_i hnone
    rw [h] at hnone
    cases hnone
  · rename_i u rest' hsome
    rw [h] at hsome
    simp only [Option.some.injEq, Prod.mk.injEq] at hsome
    rw [hsome.1, hsome.2]

/-- Where there is no next token there is none. -/
theorem tokens_of_next?_none {cs : List Char} (h : next? cs = none) : tokens cs = [] := by
  rw [tokens]
  split
  · rfl
  · rename_i t rest hsome
    rw [h] at hsome
    cases hsome

theorem tokens_nil : tokens [] = [] := by
  have hnext : next? [] = none := by
    rw [next?, readText]
    rfl
  exact tokens_of_next?_none hnext

/-- **The tokens of a text** are the text in front of its first tag, if there is any, and the tokens
of the rest. -/
theorem tokens_eq (cs : List Char) :
    tokens cs
      = if (readText cs).1 = [] then tokens (readText cs).2
        else .text (readText cs).1 :: tokens (readText cs).2 := by
  by_cases h : (readText cs).1 = []
  · rw [if_pos h, tokens, tokens]
    have hnext : next? cs = next? (readText cs).2 := by
      rw [next?, next?, if_pos h, readText_readText, if_pos rfl]
    rw [hnext]
  · have hnext : next? cs = some (.text (readText cs).1, (readText cs).2) := by
      rw [next?, if_neg h]
    rw [if_neg h, tokens_of_next? hnext]

/-! ## Tags -/

/-- What is no space stays in front. -/
theorem skipSpace_cons {c : Char} (h : ¬ Text.isMarkupSpace c = true) (cs : List Char) :
    skipSpace (c :: cs) = c :: cs := List.dropWhile_cons_of_neg h

/-- A value between quotes is read. -/
theorem readValue?_quoted {v : List Char} (h : '"' ∉ v) (cs : List Char) :
    readValue? ('"' :: (v ++ '"' :: cs)) = some (decode v, cs) := by
  have hne := forall_ne_of_notMem h
  have htake := takeWhile_append_cons (c := '"') cs hne (by decide)
  have hdrop := dropWhile_append_cons (c := '"') cs hne (by decide)
  rw [readValue?, skipSpace_cons (by decide)]
  simp only [true_or, if_true, hdrop, htake]

/-- **An attribute is read as it is meant**, behind the first character of its name. -/
theorem readAttribute?_text {a : WrittenAttribute} (ha : a.IsReadable) {first : Char}
    {name : List Char} (hname : a.name = first :: name) (cs : List Char) :
    readAttribute? first (name ++ '=' :: '"' :: (a.escaped ++ '"' :: cs))
      = some (a.meaning, cs) := by
  have hends : ∀ c ∈ name, (!endsAttributeName c) = true := by
    intro c hc
    exact ha.plain.not_endsAttributeName c (hname ▸ List.mem_cons_of_mem first hc)
  have htake := takeWhile_append_cons (c := '=') ('"' :: (a.escaped ++ '"' :: cs)) hends (by decide)
  have hdrop := dropWhile_append_cons (c := '=') ('"' :: (a.escaped ++ '"' :: cs)) hends (by decide)
  unfold readAttribute?
  rw [htake, hdrop, ← hname, ha.plain.lowerName_eq, skipSpace_cons (by decide)]
  simp only [readValue?_quoted ha.value.quote_notMem, Option.map_some]
  rfl

/-- The end of a tag without more attributes. -/
theorem readAttributes?_end (cs : List Char) :
    readAttributes? false ('>' :: cs) = some ([], false, cs) := by
  have hskip : skipSpace ('>' :: cs) = '>' :: cs := skipSpace_cons (by decide) cs
  rw [readAttributes?]
  split
  · rename_i hnil
    rw [hskip] at hnil
    cases hnil
  · rename_i c rest hcons
    rw [hskip] at hcons
    rw [← (List.cons.inj hcons).1, ← (List.cons.inj hcons).2, if_pos rfl]

/-- One attribute in front of others. -/
theorem readAttributes?_text {a : WrittenAttribute} (ha : a.IsReadable) (cs : List Char) :
    readAttributes? false (a.text ++ cs)
      = (readAttributes? false cs).map fun found =>
          (a.meaning :: found.1, found.2.1, found.2.2) := by
  obtain ⟨first, name, hname, hletter⟩ := ha.plain.exists_cons
  have hfirst : (!endsAttributeName first) = true :=
    ha.plain.not_endsAttributeName first (hname ▸ List.mem_cons_self)
  have hspace := not_isMarkupSpace (not_endsTagName hfirst)
  have htext : a.text ++ cs = ' ' :: first :: (name ++ '=' :: '"' :: (a.escaped ++ '"' :: cs)) := by
    simp [WrittenAttribute.text, hname]
  have hskip : skipSpace (a.text ++ cs)
      = first :: (name ++ '=' :: '"' :: (a.escaped ++ '"' :: cs)) := by
    rw [htext, skipSpace, List.dropWhile_cons_of_pos (by decide)]
    exact skipSpace_cons hspace _
  have hgt : first ≠ '>' := by
    rintro rfl
    exact absurd hletter (by decide)
  have hslash : first ≠ '/' := by
    rintro rfl
    exact absurd hletter (by decide)
  rw [readAttributes?]
  split
  · rename_i hnil
    rw [hskip] at hnil
    cases hnil
  · rename_i c rest hcons
    rw [hskip] at hcons
    obtain ⟨rfl, rfl⟩ := List.cons.inj hcons
    rw [if_neg hgt, if_neg hslash]
    have hread := readAttribute?_text ha hname cs
    split
    · rename_i hnone
      rw [hread] at hnone
      cases hnone
    · rename_i b rest hsome
      rw [hread] at hsome
      simp only [Option.some.injEq, Prod.mk.injEq] at hsome
      rw [hsome.1, hsome.2]

/-- **The attributes of a tag are read as they are meant.** -/
theorem readAttributes?_flatMap {as : List WrittenAttribute} (has : ∀ a ∈ as, a.IsReadable)
    (cs : List Char) :
    readAttributes? false (as.flatMap WrittenAttribute.text ++ '>' :: cs)
      = some (as.map WrittenAttribute.meaning, false, cs) := by
  induction as with
  | nil => exact readAttributes?_end cs
  | cons a as ih =>
    rw [List.flatMap_cons, List.append_assoc, readAttributes?_text (has a List.mem_cons_self),
      ih (fun b hb => has b (List.mem_cons_of_mem a hb))]
    rfl

/-- Tags with raw text never stay. -/
theorem IsTag.not_isRawText {policy : Policy} {name : List Char} (h : IsTag policy name) :
    isRawText name = false := by
  rw [isRawText, ← Bool.not_eq_true, List.contains_iff_mem]
  intro hmem
  have hsub : ∀ s ∈ rawTextTags, s ∈ strippedTags := by decide
  exact h.notStripped (hsub _ hmem)

/-- The name of a tag is read up to what ends it. -/
theorem IsPlainName.takeWhile_append {name : List Char} (h : IsPlainName tagMarks name)
    {c : Char} (hc : (!endsTagName c) = false) (cs : List Char) :
    (name ++ c :: cs).takeWhile (!endsTagName ·) = name :=
  takeWhile_append_cons cs
    (fun d hd => not_endsTagName (h.attribute.not_endsAttributeName d hd)) hc

/-- What is behind the name of a tag. -/
theorem IsPlainName.dropWhile_append {name : List Char} (h : IsPlainName tagMarks name)
    {c : Char} (hc : (!endsTagName c) = false) (cs : List Char) :
    (name ++ c :: cs).dropWhile (!endsTagName ·) = c :: cs :=
  dropWhile_append_cons cs
    (fun d hd => not_endsTagName (h.attribute.not_endsAttributeName d hd)) hc

/-- A tag that can be read is the next token. -/
theorem tokens_tag {cs rest : List Char} {t : Token} (hopening : Opening.of cs = .tag)
    (hread : readTag? cs = some (t, rest)) : tokens ('<' :: cs) = t :: tokens rest := by
  have hnext : next? ('<' :: cs) = some (t, rest) := by
    rw [next?, readText_tag hopening]
    exact hread
  exact tokens_of_next? hnext

/-- **An end tag is one token.** -/
theorem tokens_endTagText {name : List Char} (h : IsPlainName tagMarks name) (cs : List Char) :
    tokens (endTagText name ++ cs) = .endTag name :: tokens cs := by
  obtain ⟨c, name', rfl, hletter⟩ := h.exists_cons
  have hend : endTagText (c :: name') ++ cs = '<' :: '/' :: (c :: name' ++ '>' :: cs) := by
    simp [endTagText]
  have hopening : Opening.of ('/' :: (c :: name' ++ '>' :: cs)) = .tag :=
    Opening.of_slash_letter hletter (name' ++ '>' :: cs)
  rw [hend]
  refine tokens_tag hopening ?_
  rw [readTag?, h.takeWhile_append (by decide), h.dropWhile_append (by decide),
    readAttributes?_end, h.attribute.lowerName_eq]
  rfl

/-- What is behind the name of a tag ends that name. -/
theorem exists_flatMap_text_cons (as : List WrittenAttribute) (cs : List Char) :
    ∃ c behind, as.flatMap WrittenAttribute.text ++ '>' :: cs = c :: behind
      ∧ (!endsTagName c) = false := by
  cases as with
  | nil => exact ⟨'>', cs, rfl, by decide⟩
  | cons a as => exact ⟨' ', _, rfl, by decide⟩

/-- **A start tag is one token**, with the attributes that are meant. If what is behind it is no
markup that is passed over. -/
theorem tokens_startTagText_of_isRawText {name : List Char} {as : List WrittenAttribute}
    (h : IsPlainName tagMarks name) (has : ∀ a ∈ as, a.IsReadable) (cs : List Char) :
    tokens (startTagText name as ++ cs)
      = .startTag name (as.map WrittenAttribute.meaning) false
        :: tokens (if isRawText name then skipRawText name cs else cs) := by
  obtain ⟨first, name', hname, hletter⟩ := h.exists_cons
  obtain ⟨c, behind, hbehind, hends⟩ := exists_flatMap_text_cons as cs
  have hstart : startTagText name as ++ cs = '<' :: (name ++ c :: behind) := by
    rw [← hbehind]
    simp [startTagText]
  have hopening : Opening.of (name ++ c :: behind) = .tag := by
    rw [hname]
    exact Opening.of_letter hletter _
  have hslash : first ≠ '/' := by
    rintro rfl
    exact absurd hletter (by decide)
  rw [hstart]
  refine tokens_tag hopening ?_
  unfold readTag?
  split
  · rename_i rest heq
    rw [hname] at heq
    exact absurd (List.cons.inj heq).1 hslash
  · rw [h.takeWhile_append hends, h.dropWhile_append hends, ← hbehind,
      readAttributes?_flatMap has, h.attribute.lowerName_eq]
    rfl

/-- A start tag with markup behind it. -/
theorem tokens_startTagText {name : List Char} {as : List WrittenAttribute}
    (h : IsPlainName tagMarks name) (hraw : isRawText name = false)
    (has : ∀ a ∈ as, a.IsReadable) (cs : List Char) :
    tokens (startTagText name as ++ cs)
      = .startTag name (as.map WrittenAttribute.meaning) false :: tokens cs := by
  rw [tokens_startTagText_of_isRawText h has, hraw]
  rfl

end SafePreview.Markup
