import SafePreview.Markup.Reference

/-!
# Tokens of markup

`tokens` splits any text into runs of text, start tags and end tags. It refuses nothing: comments,
declarations, processing instructions and end tags without a name are dropped, a `<` that opens
nothing is text, and a tag that the text does not finish takes the rest of the text with it. What
stands between a raw-text tag and its end tag is passed over, since it is no markup.

`next?` takes one token off the front. It always leaves a shorter text behind
(`length_next?`), which is why `tokens` ends; and since all that is left is the end of what was
given, no token reads a character twice.
-/

namespace SafePreview.Markup

/-- **An attribute**, its name in lower case and its references replaced. -/
structure Attribute where
  name : List Char
  value : List Char
deriving DecidableEq, Repr

/-- **A piece of markup.** -/
inductive Token where
  | text (content : List Char)
  | startTag (name : List Char) (attributes : List Attribute) (selfClosing : Bool)
  | endTag (name : List Char)
deriving DecidableEq, Repr

/-- Elements whose content is no markup. -/
def rawTextTags : List String :=
  ["script", "style", "textarea", "title", "xmp", "iframe", "noembed", "noframes", "noscript",
    "plaintext"]

/-- Whether the content of an element is no markup. -/
def isRawText (name : List Char) : Bool := rawTextTags.contains (String.ofList name)

/-! ## Parts of a tag -/

/-- The text behind spaces. -/
def skipSpace (cs : List Char) : List Char := cs.dropWhile Text.isMarkupSpace

/-- A character that ends the name of a tag. -/
def endsTagName (c : Char) : Bool := Text.isMarkupSpace c || c = '/' || c = '>'

/-- A character that ends the name of an attribute, unless it is the first of it. -/
def endsAttributeName (c : Char) : Bool := endsTagName c || c = '='

/-- A character that ends a value without quotes. -/
def endsBareValue (c : Char) : Bool := Text.isMarkupSpace c || c = '>'

/-- A name in lower case. -/
def lowerName (cs : List Char) : List Char := cs.map Char.toLower

/-- The value behind an equals sign and what is behind it, or nothing if the text ends first. -/
def readValue? (cs : List Char) : Option (List Char × List Char) :=
  match skipSpace cs with
  | [] => none
  | c :: cs =>
    if c = '"' ∨ c = '\'' then
      match cs.dropWhile (· ≠ c) with
      | [] => none
      | _ :: rest => some (decode (cs.takeWhile (· ≠ c)), rest)
    else
      some (decode ((c :: cs).takeWhile (!endsBareValue ·)), (c :: cs).dropWhile (!endsBareValue ·))

/-- The attribute whose name starts with `first`, and what is behind it. -/
def readAttribute? (first : Char) (cs : List Char) : Option (Attribute × List Char) :=
  let name := lowerName (first :: cs.takeWhile (!endsAttributeName ·))
  match skipSpace (cs.dropWhile (!endsAttributeName ·)) with
  | '=' :: rest => (readValue? rest).map fun found => (⟨name, found.1⟩, found.2)
  | rest => some (⟨name, []⟩, rest)

theorem length_skipSpace (cs : List Char) : (skipSpace cs).length ≤ cs.length :=
  (List.dropWhile_sublist _).length_le

theorem length_readValue? {cs rest value : List Char} (h : readValue? cs = some (value, rest)) :
    rest.length ≤ cs.length := by
  unfold readValue? at h
  have hskip := length_skipSpace cs
  split at h
  · cases h
  · rename_i c cs' heq
    rw [heq, List.length_cons] at hskip
    split at h
    · have hdrop := (List.dropWhile_sublist (l := cs') (· ≠ c)).length_le
      split at h
      · cases h
      · rename_i heq'
        simp only [Option.some.injEq, Prod.mk.injEq] at h
        rw [heq', List.length_cons, h.2] at hdrop
        omega
    · have hdrop := (List.dropWhile_sublist (l := c :: cs') (!endsBareValue ·)).length_le
      simp only [Option.some.injEq, Prod.mk.injEq] at h
      rw [h.2, List.length_cons] at hdrop
      omega

theorem length_readAttribute? {first : Char} {cs rest : List Char} {a : Attribute}
    (h : readAttribute? first cs = some (a, rest)) : rest.length ≤ cs.length := by
  unfold readAttribute? at h
  have hskip := length_skipSpace (cs.dropWhile (!endsAttributeName ·))
  have hdrop := (List.dropWhile_sublist (l := cs) (!endsAttributeName ·)).length_le
  split at h
  · rename_i behind heq
    rw [heq, List.length_cons] at hskip
    obtain ⟨⟨value, behind'⟩, hfound, hpair⟩ := Option.map_eq_some_iff.1 h
    have hvalue := length_readValue? hfound
    simp only [Prod.mk.injEq] at hpair
    rw [hpair.2] at hvalue
    omega
  · simp only [Option.some.injEq, Prod.mk.injEq] at h
    rw [h.2] at hskip
    omega

/-- The attributes of a tag up to its `>`, whether a `/` stands right before that, and what is
behind the tag; nothing if the text ends first. -/
def readAttributes? (selfClosing : Bool) (cs : List Char) :
    Option (List Attribute × Bool × List Char) :=
  match _h : skipSpace cs with
  | [] => none
  | c :: rest =>
    if c = '>' then some ([], selfClosing, rest)
    else if c = '/' then readAttributes? (rest.head? = some '>') rest
    else
      match _ha : readAttribute? c rest with
      | none => none
      | some (a, rest) =>
        (readAttributes? false rest).map fun found => (a :: found.1, found.2.1, found.2.2)
termination_by cs.length
decreasing_by
  all_goals
    have hskip := length_skipSpace cs
    rw [_h, List.length_cons] at hskip
  · omega
  · have := length_readAttribute? _ha
    omega

theorem length_readAttributes? {cs rest : List Char} {selfClosing closes : Bool}
    {attributes : List Attribute}
    (h : readAttributes? selfClosing cs = some (attributes, closes, rest)) :
    rest.length < cs.length := by
  fun_induction readAttributes? selfClosing cs generalizing attributes closes rest with
  | case1 => cases h
  | case2 selfClosing cs behind heq =>
    have hskip := length_skipSpace cs
    rw [heq, List.length_cons] at hskip
    simp only [Option.some.injEq, Prod.mk.injEq] at h
    rw [← h.2.2]
    omega
  | case3 selfClosing cs behind heq _ ih =>
    have hskip := length_skipSpace cs
    rw [heq, List.length_cons] at hskip
    have := ih h
    omega
  | case4 => cases h
  | case5 selfClosing cs c behind heq _ _ a rest' hread ih =>
    have hskip := length_skipSpace cs
    rw [heq, List.length_cons] at hskip
    obtain ⟨⟨more, closes', behind'⟩, hfound, hpair⟩ := Option.map_eq_some_iff.1 h
    have hrest := ih hfound
    have hattr := length_readAttribute? hread
    simp only [Prod.mk.injEq] at hpair
    rw [← hpair.2.2]
    omega

/-! ## Text between tags -/

/-- **What a `<` opens.** -/
inductive Opening where
  /-- Nothing: the character is text. -/
  | literal
  | tag
  | comment
  /-- A declaration, an instruction or an end tag without a name, up to the next `>`. -/
  | ignored
deriving DecidableEq, Repr

/-- What a `<` opens, from what is behind it. -/
def Opening.of : List Char → Opening
  | '/' :: c :: _ => if Text.isLetter c then .tag else .ignored
  | '!' :: '-' :: '-' :: _ => .comment
  | '!' :: _ => .ignored
  | '?' :: _ => .ignored
  | c :: _ => if Text.isLetter c then .tag else .literal
  | [] => .literal

/-- The text behind the first occurrence of a mark, or its end. -/
def skipPast (mark : List Char) : List Char → List Char
  | [] => []
  | c :: cs => if mark.isPrefixOf (c :: cs) then (c :: cs).drop mark.length else skipPast mark cs

theorem length_skipPast (mark cs : List Char) : (skipPast mark cs).length ≤ cs.length := by
  induction cs with
  | nil => simp [skipPast]
  | cons c cs ih =>
    unfold skipPast
    split
    · rw [List.length_drop]
      omega
    · rw [List.length_cons]
      omega

/-- **The text before the next tag**, with its references replaced, and the rest: nothing, or the
`<` of that tag and what is behind it. -/
def readText (cs : List Char) : List Char × List Char :=
  match cs with
  | [] => ([], [])
  | c :: rest =>
    if c = '<' then
      match Opening.of rest with
      | .tag => ([], c :: rest)
      | .literal =>
        let found := readText rest
        ('<' :: found.1, found.2)
      | .comment => readText (skipPast ['-', '-', '>'] (rest.drop 3))
      | .ignored => readText (skipPast ['>'] rest)
    else
      let found := readText (rest.dropWhile (· ≠ '<'))
      (decode (c :: rest.takeWhile (· ≠ '<')) ++ found.1, found.2)
termination_by cs.length
decreasing_by
  all_goals simp only [List.length_cons]
  · omega
  · have := length_skipPast ['-', '-', '>'] (rest.drop 3)
    rw [List.length_drop] at this
    omega
  · have := length_skipPast ['>'] rest
    omega
  · have := (List.dropWhile_sublist (l := rest) (· ≠ '<')).length_le
    omega

/-! ## Raw text -/

/-- Whether an end tag with a name stands at the front, in any case of letters. -/
def closes (name : List Char) : List Char → Bool
  | '<' :: '/' :: rest =>
    lowerName (rest.take name.length) = name &&
      (match rest.drop name.length with
        | [] => true
        | c :: _ => endsTagName c)
  | _ => false

/-- The text from the end tag of a raw-text element on. The content of `plaintext` has no end. -/
def skipRawText (name : List Char) : List Char → List Char
  | [] => []
  | c :: cs =>
    if name ≠ ['p', 'l', 'a', 'i', 'n', 't', 'e', 'x', 't'] ∧ closes name (c :: cs) then c :: cs
    else skipRawText name cs

theorem length_skipRawText (name cs : List Char) :
    (skipRawText name cs).length ≤ cs.length := by
  induction cs with
  | nil => simp [skipRawText]
  | cons c cs ih =>
    unfold skipRawText
    split
    · exact Nat.le_refl _
    · rw [List.length_cons]
      omega

/-! ## The stream -/

/-- The tag behind a `<`, and where the next token starts; nothing if the text ends first. -/
def readTag? (cs : List Char) : Option (Token × List Char) :=
  match cs with
  | '/' :: cs =>
    let name := lowerName (cs.takeWhile (!endsTagName ·))
    (readAttributes? false (cs.dropWhile (!endsTagName ·))).map fun found =>
      (.endTag name, found.2.2)
  | cs =>
    let name := lowerName (cs.takeWhile (!endsTagName ·))
    (readAttributes? false (cs.dropWhile (!endsTagName ·))).map fun found =>
      (.startTag name found.1 found.2.1,
        if isRawText name then skipRawText name found.2.2 else found.2.2)

theorem length_readTag? {cs rest : List Char} {t : Token} (h : readTag? cs = some (t, rest)) :
    rest.length < cs.length := by
  unfold readTag? at h
  split at h
  · rename_i behind
    obtain ⟨⟨attributes, closes, behind'⟩, hfound, hpair⟩ := Option.map_eq_some_iff.1 h
    have hrest := length_readAttributes? hfound
    have hdrop := (List.dropWhile_sublist (l := behind) (!endsTagName ·)).length_le
    simp only [Prod.mk.injEq] at hpair
    rw [hpair.2] at hrest
    rw [List.length_cons]
    omega
  · obtain ⟨⟨attributes, closes, behind⟩, hfound, hpair⟩ := Option.map_eq_some_iff.1 h
    have hrest := length_readAttributes? hfound
    have hdrop := (List.dropWhile_sublist (l := cs) (!endsTagName ·)).length_le
    have hraw := length_skipRawText (lowerName (cs.takeWhile (!endsTagName ·))) behind
    simp only [Prod.mk.injEq] at hpair
    rw [← hpair.2]
    split <;> omega

/-- **The first token of a text and the text behind it.** -/
def next? (cs : List Char) : Option (Token × List Char) :=
  let found := readText cs
  if found.1 = [] then
    match found.2 with
    | [] => none
    | _ :: rest => readTag? rest
  else some (.text found.1, found.2)

theorem length_readText (cs : List Char) : (readText cs).2.length ≤ cs.length := by
  fun_induction readText cs with
  | case1 => simp
  | case2 => simp
  | case3 rest _ found ih =>
    rw [List.length_cons]
    exact Nat.le_succ_of_le ih
  | case4 rest _ ih =>
    have := length_skipPast ['-', '-', '>'] (rest.drop 3)
    rw [List.length_drop] at this
    rw [List.length_cons]
    omega
  | case5 rest _ ih =>
    have := length_skipPast ['>'] rest
    rw [List.length_cons]
    omega
  | case6 c rest _ found ih =>
    have := (List.dropWhile_sublist (l := rest) (· ≠ '<')).length_le
    rw [List.length_cons]
    exact Nat.le_succ_of_le (Nat.le_trans ih this)

/-- Text is read only from characters. -/
theorem length_readText_lt {cs : List Char} (h : (readText cs).1 ≠ []) :
    (readText cs).2.length < cs.length := by
  fun_induction readText cs with
  | case1 => simp at h
  | case2 => simp at h
  | case3 rest _ found ih =>
    rw [List.length_cons]
    exact Nat.lt_succ_of_le (length_readText rest)
  | case4 rest _ ih =>
    have := length_skipPast ['-', '-', '>'] (rest.drop 3)
    rw [List.length_drop] at this
    have := ih h
    rw [List.length_cons]
    omega
  | case5 rest _ ih =>
    have := length_skipPast ['>'] rest
    have := ih h
    rw [List.length_cons]
    omega
  | case6 c rest _ found ih =>
    have hdrop := (List.dropWhile_sublist (l := rest) (· ≠ '<')).length_le
    have hrest := length_readText (rest.dropWhile (· ≠ '<'))
    rw [List.length_cons]
    exact Nat.lt_succ_of_le (Nat.le_trans hrest hdrop)

/-- **A token leaves a shorter text behind.** -/
theorem length_next? {cs rest : List Char} {t : Token} (h : next? cs = some (t, rest)) :
    rest.length < cs.length := by
  unfold next? at h
  have hle := length_readText cs
  simp only at h
  split at h
  · split at h
    · cases h
    · rename_i behind heq
      rw [heq, List.length_cons] at hle
      have := length_readTag? h
      omega
  · rename_i hne
    simp only [Option.some.injEq, Prod.mk.injEq] at h
    rw [← h.2]
    exact length_readText_lt hne

/-- **The tokens of a text.** -/
def tokens (cs : List Char) : List Token :=
  match _h : next? cs with
  | none => []
  | some (t, rest) => t :: tokens rest
termination_by cs.length
decreasing_by exact length_next? _h

end SafePreview.Markup
