import SafePreview.Proofs.Markup.FixedPoint

/-!
# What is open while markup is read

A reader of markup keeps the elements that are open on a stack. Where the tags of a text stay inside
whatever is open around it (`StaysInside`), the text can be put into any element: the end tags in it
close what was opened in it, and that element is closed by the end tag behind it.

The reader here forgives nothing. An end tag has to be that of the innermost element, and `opened?`
has no answer otherwise; a reader that would close more than one element, or pass over an end tag,
has no occasion to. For a canonical document the whole is an induction over the grammar
(`Document.staysInside`), in which an element adds its own to what is open around its body.

Only tags are read. Where two texts meet, the end of the one and the start of the other may be one
token, but the tags of the two are those of the one and then of the other (`Document.tags_append`).
-/

namespace SafePreview.Markup

/-! ## Tags -/

/-- Whether a token is a tag. -/
def Token.isTag : Token → Bool
  | .text _ => false
  | _ => true

/-- The name of a tag. -/
def Token.name? : Token → Option (List Char)
  | .text _ => none
  | .startTag name _ _ => some name
  | .endTag name => some name

/-- **The tags of a text**, without what stands between them. -/
def tags (cs : List Char) : List Token := (tokens cs).filter (·.isTag)

/-- The tags of a text are those behind the text in front of the first. -/
theorem tags_readText (cs : List Char) : tags cs = tags (readText cs).2 := by
  rw [tags, tags, tokens_eq cs]
  split
  · rfl
  · rfl

theorem tags_nil : tags [] = [] := by
  rw [tags, tokens_nil]
  rfl

/-- Text has no tags, in front of any rest. -/
theorem tags_text {t : List Char} (ht : IsText t) (cs : List Char) : tags (t ++ cs) = tags cs := by
  obtain ⟨u, hu, rfl⟩ := (isText_iff t).1 ht
  rw [tags_readText, readText_escapeText hu, ← tags_readText]

theorem tags_startTagText {name : List Char} {as : List WrittenAttribute}
    (h : IsPlainName tagMarks name) (hraw : isRawText name = false)
    (has : ∀ a ∈ as, a.IsReadable) (cs : List Char) :
    tags (startTagText name as ++ cs)
      = .startTag name (as.map WrittenAttribute.meaning) false :: tags cs := by
  rw [tags, tokens_startTagText h hraw has]
  rfl

theorem tags_endTagText {name : List Char} (h : IsPlainName tagMarks name) (cs : List Char) :
    tags (endTagText name ++ cs) = .endTag name :: tags cs := by
  rw [tags, tokens_endTagText h]
  rfl

/-! ## Tokens that are written out -/

/-- **A token as markup.** A tag is written as one that does not close itself. -/
def Token.written : Token → List Char
  | .text content => escapeText content
  | .startTag name attributes _ => startTagText name (attributes.map Attribute.written)
  | .endTag name => endTagText name

/-- Whether a token can be written out and read again: its names are plain, nothing in it is NUL,
and behind it is markup. -/
def Token.isPlain : Token → Bool
  | .text content => !content.contains '\x00'
  | .startTag name attributes selfClosing =>
    isTagName name && !isRawText name && !selfClosing
      && attributes.all fun a => isAttributeName a.name && !a.value.contains '\x00'
  | .endTag name => isTagName name

/-- A plain token is read as it is, in front of any rest. -/
theorem tags_token {t : Token} (h : t.isPlain = true) (cs : List Char) :
    tags (t.written ++ cs) = [t].filter (·.isTag) ++ tags cs := by
  cases t with
  | text content =>
    simp only [Token.isPlain, Bool.not_eq_true', ← Bool.not_eq_true, List.contains_iff_mem] at h
    exact tags_text ((isText_iff _).2 ⟨content, h, rfl⟩) cs
  | startTag name attributes selfClosing =>
    simp only [Token.isPlain, Bool.and_eq_true, Bool.not_eq_true', List.all_eq_true,
      ← Bool.not_eq_true, List.contains_iff_mem] at h
    obtain ⟨⟨⟨hname, hraw⟩, hclosing⟩, hattributes⟩ := h
    have hreadable : ∀ w ∈ attributes.map Attribute.written, w.IsReadable :=
      List.forall_mem_map.2 fun a ha =>
        Attribute.isReadable_written ((isAttributeName_iff a.name).1 (hattributes a ha).1)
    rw [Bool.not_eq_true] at hraw hclosing
    rw [Token.written, tags_startTagText ((isTagName_iff name).1 hname) hraw hreadable,
      map_meaning_written fun a ha => (hattributes a ha).2, hclosing]
    rfl
  | endTag name => exact tags_endTagText ((isTagName_iff name).1 h) cs

/-- **Plain tokens are read as they are**, whatever is behind them. -/
theorem tags_flatMap_written {ts : List Token} (h : ts.all (·.isPlain) = true) (cs : List Char) :
    tags (ts.flatMap Token.written ++ cs) = ts.filter (·.isTag) ++ tags cs := by
  induction ts with
  | nil => rfl
  | cons t ts ih =>
    rw [List.all_cons, Bool.and_eq_true] at h
    rw [List.flatMap_cons, List.append_assoc, tags_token h.1, ih h.2, ← List.append_assoc,
      ← List.filter_append, List.singleton_append]

/-! ## What is no markup -/

/-- A text is passed over up to the mark. -/
theorem skipPast_append {mark : Char} {d : List Char} (h : mark ∉ d) (cs : List Char) :
    skipPast [mark] (d ++ mark :: cs) = cs := by
  induction d with
  | nil => simp [skipPast]
  | cons c d ih =>
    obtain ⟨hc, hd⟩ := List.ne_and_not_mem_of_not_mem_cons h
    rw [List.cons_append, skipPast, if_neg (by simpa using hc), ih hd]

/-- **A declaration is no tag**, in front of any rest. -/
theorem tags_declaration {d : List Char} (h : '>' ∉ d) (cs : List Char) :
    tags ('<' :: '!' :: 'D' :: (d ++ '>' :: cs)) = tags cs := by
  have hskip : skipPast ['>'] ('!' :: 'D' :: (d ++ '>' :: cs)) = cs :=
    skipPast_append (d := '!' :: 'D' :: d)
      (List.not_mem_cons_of_ne_of_not_mem (by decide)
        (List.not_mem_cons_of_ne_of_not_mem (by decide) h)) cs
  have hread : readText ('<' :: '!' :: 'D' :: (d ++ '>' :: cs)) = readText cs := by
    rw [readText, if_pos rfl]
    exact congrArg readText hskip
  rw [tags_readText, hread, ← tags_readText]

/-- Raw text ends no earlier than at a `<`. -/
theorem skipRawText_append {raw : List Char} (h : '<' ∉ raw) (name cs : List Char) :
    skipRawText name (raw ++ cs) = skipRawText name cs := by
  induction raw with
  | nil => rfl
  | cons c raw ih =>
    obtain ⟨hc, hraw⟩ := List.ne_and_not_mem_of_not_mem_cons h
    have hcloses : closes name (c :: (raw ++ cs)) = false := by
      unfold closes
      split
      · rename_i heq
        exact absurd (List.cons.inj heq).1.symm hc
      · rfl
    rw [List.cons_append, skipRawText, hcloses, if_neg (fun hends => Bool.noConfusion hends.2),
      ih hraw]

/-- The raw text of an element ends at the end tag of the element. -/
theorem skipRawText_endTagText {name : List Char} (h : IsPlainName tagMarks name)
    (hends : name ≠ ['p', 'l', 'a', 'i', 'n', 't', 'e', 'x', 't']) (cs : List Char) :
    skipRawText name (endTagText name ++ cs) = endTagText name ++ cs := by
  have hend : endTagText name ++ cs = '<' :: '/' :: (name ++ '>' :: cs) := by simp [endTagText]
  have hcloses : closes name ('<' :: '/' :: (name ++ '>' :: cs)) = true := by
    rw [closes, List.take_left, List.drop_left, h.attribute.lowerName_eq]
    simp [endsTagName]
  rw [hend, skipRawText, if_pos ⟨hends, hcloses⟩]

/-- **An element with raw text is its two tags**, if nothing in the raw text could end it. -/
theorem tags_rawText {name raw : List Char} (h : IsPlainName tagMarks name)
    (hends : name ≠ ['p', 'l', 'a', 'i', 'n', 't', 'e', 'x', 't'])
    (hraw : isRawText name = true) (hopens : '<' ∉ raw) (cs : List Char) :
    tags (startTagText name [] ++ (raw ++ (endTagText name ++ cs)))
      = .startTag name [] false :: .endTag name :: tags cs := by
  rw [tags, tokens_startTagText_of_isRawText h (fun _ ha => absurd ha List.not_mem_nil),
    if_pos hraw, skipRawText_append hopens, skipRawText_endTagText h hends, tokens_endTagText h]
  rfl

/-! ## The elements that are open -/

/-- **The elements that are open behind a token**, the innermost first, or nothing if it is not for
the innermost to be closed. A void tag opens none. -/
def Token.opened? (opened : List (List Char)) : Token → Option (List (List Char))
  | .text _ => some opened
  | .startTag name _ _ => some (if isVoid name then opened else name :: opened)
  | .endTag name =>
    match opened with
    | [] => none
    | inner :: outer => if inner = name then some outer else none

/-- **The elements that are open behind tokens.** -/
def opened? (opened : List (List Char)) (ts : List Token) : Option (List (List Char)) :=
  ts.foldlM Token.opened? opened

theorem opened?_cons (opened : List (List Char)) (t : Token) (ts : List Token) :
    opened? opened (t :: ts) = (t.opened? opened).bind (opened? · ts) := List.foldlM_cons

theorem opened?_append (opened : List (List Char)) (a b : List Token) :
    opened? opened (a ++ b) = (opened? opened a).bind (opened? · b) := List.foldlM_append

/-- A start tag opens its element, -/
theorem opened?_startTag {name : List Char} (hvoid : isVoid name = false)
    (opened : List (List Char)) (as : List Attribute) (selfClosing : Bool) (ts : List Token) :
    opened? opened (.startTag name as selfClosing :: ts) = opened? (name :: opened) ts := by
  rw [opened?_cons, Token.opened?, hvoid]
  rfl

/-- a void tag opens none, -/
theorem opened?_void {name : List Char} (hvoid : isVoid name = true)
    (opened : List (List Char)) (as : List Attribute) (selfClosing : Bool) (ts : List Token) :
    opened? opened (.startTag name as selfClosing :: ts) = opened? opened ts := by
  rw [opened?_cons, Token.opened?, hvoid]
  rfl

/-- and an end tag closes the innermost. -/
theorem opened?_endTag (name : List Char) (opened : List (List Char)) (ts : List Token) :
    opened? (name :: opened) (.endTag name :: ts) = opened? opened ts := by
  rw [opened?_cons, Token.opened?, if_pos rfl]
  rfl

/-- **Tokens that stay inside whatever is open around them**: none of it is closed behind any of
them, no more than `n` elements are open besides, and none behind the last. -/
structure StaysInside (n : Nat) (ts : List Token) : Prop where
  inside : ∀ around k, ∃ inner,
    inner.length ≤ n ∧ opened? around (ts.take k) = some (inner ++ around)
  closed : ∀ around, opened? around ts = some around

theorem staysInside_nil (n : Nat) : StaysInside n [] where
  inside around k := ⟨[], Nat.zero_le n, by rw [List.take_nil]; rfl⟩
  closed around := rfl

/-- Tokens that stay inside can stand behind one another. -/
theorem StaysInside.append {n : Nat} {a b : List Token} (ha : StaysInside n a)
    (hb : StaysInside n b) : StaysInside n (a ++ b) where
  inside around k := by
    rw [List.take_append, opened?_append]
    rcases Nat.le_total k a.length with hk | hk
    · rw [Nat.sub_eq_zero_of_le hk, List.take_zero]
      obtain ⟨inner, hinner, hopened⟩ := ha.inside around k
      exact ⟨inner, hinner, by rw [hopened]; rfl⟩
    · rw [List.take_of_length_le hk, ha.closed]
      exact hb.inside around (k - a.length)
  closed around := by
    rw [opened?_append, ha.closed]
    exact hb.closed around

/-- A void tag stays inside anything. -/
theorem staysInside_void {n : Nat} {name : List Char} (hvoid : isVoid name = true)
    (as : List Attribute) (selfClosing : Bool) :
    StaysInside n [.startTag name as selfClosing] where
  inside around k := by
    refine ⟨[], Nat.zero_le n, ?_⟩
    cases k with
    | zero => rfl
    | succ k =>
      rw [List.take_succ_cons, List.take_nil, opened?_void hvoid]
      rfl
  closed around := by
    rw [opened?_void hvoid]
    rfl

/-- **An element stays inside** if its body does, which has one more around it. -/
theorem StaysInside.element {n : Nat} {name : List Char} {body : List Token}
    (h : StaysInside n body) (hvoid : isVoid name = false) (as : List Attribute)
    (selfClosing : Bool) :
    StaysInside (n + 1) (.startTag name as selfClosing :: body ++ [.endTag name]) where
  inside around k := by
    cases k with
    | zero => exact ⟨[], Nat.zero_le _, rfl⟩
    | succ k =>
      rw [List.cons_append, List.take_succ_cons, opened?_startTag hvoid, List.take_append,
        opened?_append]
      rcases Nat.le_total k body.length with hk | hk
      · -- behind the start tag and inside the body the element itself is open as well
        obtain ⟨inner, hinner, hopened⟩ := h.inside (name :: around) k
        rw [Nat.sub_eq_zero_of_le hk, List.take_zero, hopened]
        refine ⟨inner ++ [name], ?_, ?_⟩
        · rw [List.length_append]
          exact Nat.succ_le_succ hinner
        · rw [List.append_assoc]
          rfl
      · rw [List.take_of_length_le hk, h.closed]
        cases k - body.length with
        | zero => exact ⟨[name], Nat.le_add_left 1 n, rfl⟩
        | succ more =>
          rw [List.take_succ_cons, List.take_nil, Option.bind_some, opened?_endTag]
          exact ⟨[], Nat.zero_le _, rfl⟩
  closed around := by
    rw [List.cons_append, opened?_startTag hvoid, opened?_append, h.closed, Option.bind_some,
      opened?_endTag]
    rfl

/-! ## Canonical documents -/

variable {policy : Policy} {n : Nat} {cs : List Char}

/-- The start tag of an element that may stay is read as it is meant. -/
theorem IsTag.tags_startTagText {name : List Char} {as : List WrittenAttribute}
    (h : IsTag policy name) (has : AreAttributes policy as) (cs : List Char) :
    tags (startTagText name as ++ cs)
      = .startTag name (as.map WrittenAttribute.meaning) false :: tags cs :=
  Markup.tags_startTagText h.plain h.not_isRawText has.isReadable cs

/-- **The tags of a document and of what is behind it** are the tags of the two. -/
theorem Document.tags_append (h : Document policy n cs) (rest : List Char) :
    tags (cs ++ rest) = tags cs ++ tags rest := by
  induction h generalizing rest with
  | nil => rw [tags_nil]; rfl
  | text ht _ ih => rw [List.append_assoc, tags_text ht, tags_text ht, ih]
  | void hname hvoid has _ ih =>
    rw [List.append_assoc, hname.tags_startTagText has, hname.tags_startTagText has, ih]
    rfl
  | element hname hvoid has _ _ ihbody ih =>
    simp only [List.append_assoc, hname.tags_startTagText has, ihbody,
      tags_endTagText hname.plain, ih, List.cons_append]

/-- The tags of an element are its own and those of its body. -/
theorem tags_element {name body : List Char} {as : List WrittenAttribute}
    (hname : IsTag policy name) (has : AreAttributes policy as) (hbody : Document policy n body)
    (cs : List Char) :
    tags (startTagText name as ++ body ++ endTagText name ++ cs)
      = (.startTag name (as.map WrittenAttribute.meaning) false :: tags body ++ [.endTag name])
        ++ tags cs := by
  rw [List.append_assoc, List.append_assoc, hname.tags_startTagText has, hbody.tags_append,
    tags_endTagText hname.plain]
  simp

/-- **The tags of a document stay inside whatever is around it**, with no more open than the
document may have. -/
theorem Document.staysInside (h : Document policy n cs) : StaysInside n (tags cs) := by
  induction h with
  | nil => exact tags_nil ▸ staysInside_nil _
  | text ht _ ih =>
    rw [tags_text ht]
    exact ih
  | void hname hvoid has _ ih =>
    rw [hname.tags_startTagText has]
    exact (staysInside_void hvoid _ false).append ih
  | element hname hvoid has hbody _ ihbody ih =>
    rw [tags_element hname has hbody]
    exact (ihbody.element hvoid _ false).append ih

/-- **Every tag of a document is one that may stay.** -/
theorem Document.isTag_of_mem_tags (h : Document policy n cs) :
    ∀ t ∈ tags cs, ∀ name ∈ t.name?, IsTag policy name := by
  induction h with
  | nil =>
    rw [tags_nil]
    exact fun t ht => (nomatch ht)
  | text ht _ ih =>
    rw [tags_text ht]
    exact ih
  | void hname hvoid has _ ih =>
    rw [hname.tags_startTagText has]
    exact List.forall_mem_cons.2 ⟨fun other hother => Option.some_inj.1 hother ▸ hname, ih⟩
  | element hname hvoid has hbody _ ihbody ih =>
    rw [tags_element hname has hbody]
    refine List.forall_mem_append.2 ⟨List.forall_mem_append.2 ⟨List.forall_mem_cons.2
      ⟨fun other hother => ?_, ihbody⟩, List.forall_mem_singleton.2 fun other hother => ?_⟩, ih⟩
    · exact Option.some_inj.1 hother ▸ hname
    · exact Option.some_inj.1 hother ▸ hname

end SafePreview.Markup
