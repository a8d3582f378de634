import Mathlib.Data.List.TakeWhile
import SafePreview.Proofs.Markup.Cursor
import SafePreview.Proofs.Markup.Reading

/-!
# What is found by bytes is what is found by characters

Every function of the reader of bytes is compared with the function on lists of characters that
reads the same part of a document: references, values, attributes, and what a `<` opens. `Agrees`
says what there is to compare. Both find nothing, or both find the same, and then the place that the
one has come to is in front of the characters that the other leaves.

The reader looks at single bytes for characters of ASCII alone, and those it cannot mistake: all
that it looks for are of ASCII, which is what the first section is for. Characters that are counted
are of ASCII, too. The limit of a reference is one of characters in the one reading and of bytes in
the other, but a longer character is in no reference (`allAscii_of_referenced?`). What is left is
the first byte of the name of an attribute, which the reader goes past without looking at it, and
that may take it inside a character (`agrees_attributeAt`).
-/

namespace SafePreview.Markup

open Text (place? onward? slice? isByteOf IsAscii AllAscii OfAscii Stands byteLength)

variable {s : String} {i : Nat} {cs : List Char}

/-! ## Kinds of ASCII -/

theorem ofAscii_eq {c : Char} (hc : IsAscii c) : OfAscii (· = c) :=
  fun _ hd => of_decide_eq_true hd ▸ hc

theorem ofAscii_endsAttributeName : OfAscii endsAttributeName := fun c hc =>
  (by decide : AllAscii [' ', '\t', '\n', '\r', '\x0c', '/', '>', '=']) c
    (mem_of_endsAttributeName hc)

theorem ofAscii_endsTagName : OfAscii endsTagName := fun c hc =>
  ofAscii_endsAttributeName c (Bool.or_eq_true_iff.2 (.inl hc))

theorem ofAscii_isMarkupSpace : OfAscii Text.isMarkupSpace := fun c hc =>
  ofAscii_endsTagName c (Bool.or_eq_true_iff.2 (.inl (Bool.or_eq_true_iff.2 (.inl hc))))

theorem ofAscii_endsBareValue : OfAscii endsBareValue := fun c hc => by
  rcases Bool.or_eq_true_iff.1 hc with hspace | hgt
  · exact ofAscii_isMarkupSpace c hspace
  · exact ofAscii_eq (by decide) c hgt

theorem isQuote_iff {c : Char} : isQuote c = true ↔ c = '"' ∨ c = '\'' := by
  rw [isQuote, Bool.or_eq_true, decide_eq_true_iff, decide_eq_true_iff]

theorem ofAscii_isQuote : OfAscii isQuote := fun c hc => by
  rcases isQuote_iff.1 hc with rfl | rfl
  · decide
  · decide

theorem isAscii_of_le {c d : Char} (hd : IsAscii d) (h : c ≤ d) : IsAscii c :=
  Nat.lt_of_le_of_lt h hd

theorem ofAscii_isLetter : OfAscii Text.isLetter := fun c hc => by
  rcases Text.isLetter_iff.1 hc with hlower | hupper
  · exact isAscii_of_le (by decide) hlower.2
  · exact isAscii_of_le (by decide) hupper.2

theorem ofAscii_isDigit : OfAscii Text.isDigit := fun c hc =>
  isAscii_of_le (by decide) (of_decide_eq_true (Bool.and_eq_true_iff.1 hc).2)

theorem ofAscii_isHexDigit : OfAscii Text.isHexDigit := fun c hc => by
  rcases Text.isHexDigit_iff.1 hc with hdigit | hlower | hupper
  · exact isAscii_of_le (by decide) hdigit.2
  · exact isAscii_of_le (by decide) hlower.2
  · exact isAscii_of_le (by decide) hupper.2

/-! ## Marks -/

/-- A mark stands where it is found, and behind it is the text that is behind the mark. -/
theorem exists_of_offset?_eq_some {mark : List Char} {k : Nat} (h : offset? mark cs = some k) :
    ∃ before, cs = before ++ mark ++ skipPast mark cs ∧ byteLength before = k := by
  induction cs generalizing k with
  | nil => cases h
  | cons c cs ih =>
    unfold offset? at h
    unfold skipPast
    by_cases hmark : mark.isPrefixOf (c :: cs) = true
    · rw [if_pos hmark, Option.some.injEq] at h
      rw [if_pos hmark]
      exact ⟨[], (List.prefix_iff_eq_append.1 (List.isPrefixOf_iff_prefix.1 hmark)).symm, h⟩
    · rw [if_neg hmark] at h
      rw [if_neg hmark]
      obtain ⟨k', hk', rfl⟩ := Option.map_eq_some_iff.1 h
      obtain ⟨before, hcs, rfl⟩ := ih hk'
      exact ⟨c :: before, congrArg (c :: ·) hcs, rfl⟩

/-- Nothing is behind a mark that stands nowhere. -/
theorem skipPast_of_offset?_eq_none {mark : List Char} (h : offset? mark cs = none) :
    skipPast mark cs = [] := by
  induction cs with
  | nil => rfl
  | cons c cs ih =>
    unfold offset? at h
    unfold skipPast
    by_cases hmark : mark.isPrefixOf (c :: cs) = true
    · rw [if_pos hmark] at h
      cases h
    · rw [if_neg hmark] at h
      rw [if_neg hmark]
      exact ih (Option.map_eq_none_iff.1 h)

/-- A mark of one character stands behind all that are others. -/
theorem offset?_singleton (c : Char) (cs : List Char) :
    offset? [c] cs = if c ∈ cs then some (byteLength (cs.takeWhile (· ≠ c))) else none := by
  induction cs with
  | nil => rfl
  | cons d cs ih =>
    unfold offset?
    by_cases hd : d = c
    · have hmark : [c].isPrefixOf (d :: cs) = true := by
        rw [hd]
        exact List.isPrefixOf_iff_prefix.2 (List.prefix_append [c] cs)
      rw [if_pos hmark, if_pos (hd ▸ List.mem_cons_self),
        List.takeWhile_cons_of_neg (by simpa using hd)]
      rfl
    · have hmark : ¬ [c].isPrefixOf (d :: cs) = true := fun hmark =>
        hd (List.cons_prefix_cons.1 (List.isPrefixOf_iff_prefix.1 hmark)).1.symm
      rw [if_neg hmark, ih, List.takeWhile_cons_of_pos (by simpa using hd)]
      by_cases hc : c ∈ cs
      · rw [if_pos hc, if_pos (List.mem_cons_of_mem d hc)]
        rfl
      · rw [if_neg hc, if_neg (List.not_mem_cons_of_ne_of_not_mem (Ne.symm hd) hc)]
        rfl

/-- **A mark is passed where it is passed in characters.** -/
theorem exists_skipPastAt (h : Stands s i cs) (mark : List Char) :
    ∃ j, skipPastAt mark s i = some j ∧ Stands s j (skipPast mark cs) := by
  unfold skipPastAt
  simp only [h.rest, Option.bind_eq_bind, Option.bind_some, String.toList_ofList]
  cases hoffset : offset? mark cs with
  | none =>
    rw [skipPast_of_offset?_eq_none hoffset]
    exact ⟨_, rfl, Stands.finish s⟩
  | some k =>
    obtain ⟨before, hcs, rfl⟩ := exists_of_offset?_eq_some hoffset
    have hbehind : Stands s (i + byteLength before + byteLength mark) (skipPast mark cs) :=
      Stands.advance (Stands.advance (List.append_assoc .. ▸ hcs ▸ h))
    exact ⟨_, hbehind.place?, hbehind⟩

/-! ## Finding the same -/

/-- **What is found by bytes is what is found by characters**, and the place that is come to is
where characters meet, with those before it that the other leaves. In particular nothing fails. -/
inductive Agrees (s : String) {α : Type} : Option (Reading α) → Option (α × List Char) → Prop
  | ended : Agrees s (some none) none
  | found (a : α) {i : Nat} {cs : List Char} (h : Stands s i cs) :
      Agrees s (some (some (a, i))) (some (a, cs))

namespace Agrees

variable {α β : Type} {x : Option (Reading α)} {m : Option (α × List Char)}

theorem eq_of_none (h : Agrees s x none) : x = some none := by
  cases h
  rfl

theorem exists_of_some {a : α} (h : Agrees s x (some (a, cs))) :
    ∃ i, x = some (some (a, i)) ∧ Stands s i cs := by
  cases h with
  | found a h => exact ⟨_, rfl, h⟩

theorem map (h : Agrees s x m) (f : α → β) :
    Agrees s (x.bind fun reading => some (reading.map fun found => (f found.1, found.2)))
      (m.map fun found => (f found.1, found.2)) := by
  cases h with
  | ended => exact .ended
  | found a h => exact .found (f a) h

end Agrees

/-! ## References -/

/-- A sum over characters that one character can spoil is a sum over good ones. -/
theorem forall_of_foldl_ne_none {step : Option Nat → Char → Option Nat} {p : Char → Bool}
    (hstep : ∀ sum c, step sum c ≠ none → sum ≠ none ∧ p c = true) {sum : Option Nat}
    (h : cs.foldl step sum ≠ none) : sum ≠ none ∧ ∀ c ∈ cs, p c = true := by
  induction cs generalizing sum with
  | nil => exact ⟨h, List.forall_mem_nil _⟩
  | cons c cs ih =>
    obtain ⟨hfirst, hrest⟩ := ih h
    obtain ⟨hsum, hc⟩ := hstep sum c hfirst
    exact ⟨hsum, List.forall_mem_cons.2 ⟨hc, hrest⟩⟩

theorem isHexDigit_of_hexNumber? {n : Nat} (h : Text.hexNumber? cs = some n) :
    ∀ c ∈ cs, Text.isHexDigit c = true := by
  refine (forall_of_foldl_ne_none (fun sum c hne => ?_) (h ▸ Option.some_ne_none n)).2
  cases sum with
  | none => exact absurd rfl hne
  | some sum =>
    refine ⟨Option.some_ne_none sum, ?_⟩
    cases hvalue : Text.hexValue? c with
    | none =>
      rw [hvalue] at hne
      exact absurd rfl hne
    | some value => rw [Text.isHexDigit, hvalue, Option.isSome_some]

theorem isDigit_of_decimalNumber? {n : Nat} (h : Text.decimalNumber? cs = some n) :
    ∀ c ∈ cs, Text.isDigit c = true := by
  refine (forall_of_foldl_ne_none (fun sum c hne => ?_) (h ▸ Option.some_ne_none n)).2
  by_cases hc : Text.isDigit c = true
  · rw [if_pos hc] at hne
    cases sum with
    | none => exact absurd rfl hne
    | some sum => exact ⟨Option.some_ne_none sum, hc⟩
  · rw [if_neg hc] at hne
    exact absurd rfl hne

theorem number_of_digits? {number : List Char → Option Nat} {n : Nat}
    (h : digits? number cs = some n) : number cs = some n := by
  unfold digits? at h
  split at h
  · cases h
  · exact h

/-- **The body of a reference is of ASCII**, so that its bytes are counted with its characters. -/
theorem allAscii_of_referenced? {body : List Char} {c : Char} (h : referenced? body = some c) :
    AllAscii body := by
  have hhex {cs : List Char} {c : Char}
      (h : (digits? Text.hexNumber? cs).map numbered = some c) : AllAscii cs := by
    obtain ⟨n, hn, _⟩ := Option.map_eq_some_iff.1 h
    exact fun d hd => ofAscii_isHexDigit d (isHexDigit_of_hexNumber? (number_of_digits? hn) d hd)
  have hdecimal {cs : List Char} {c : Char}
      (h : (digits? Text.decimalNumber? cs).map numbered = some c) : AllAscii cs := by
    obtain ⟨n, hn, _⟩ := Option.map_eq_some_iff.1 h
    exact fun d hd => ofAscii_isDigit d (isDigit_of_decimalNumber? (number_of_digits? hn) d hd)
  have hcons {d : Char} {cs : List Char} (hd : IsAscii d) (hcs : AllAscii cs) :
      AllAscii (d :: cs) := List.forall_mem_cons.2 ⟨hd, hcs⟩
  unfold referenced? at h
  split at h
  case h_7 => exact hcons (by decide) (hcons (by decide) (hhex h))
  case h_8 => exact hcons (by decide) (hcons (by decide) (hhex h))
  case h_9 => exact hcons (by decide) (hdecimal h)
  case h_10 => cases h
  all_goals decide

/-- **A reference is found by its bytes.** -/
theorem agrees_referenceAt (h : Stands s 0 ('&' :: cs)) :
    Agrees s (referenceAt s) (readReference cs) := by
  have hbehind : Stands s 1 cs := h.succ (by decide)
  unfold referenceAt readReference
  rw [hbehind.rest]
  simp only [String.toList_ofList, offset?_singleton]
  by_cases hmem : ';' ∈ cs
  · obtain ⟨body, rest, rfl, hbody⟩ := List.eq_append_cons_of_mem hmem
    have hne := forall_ne_of_notMem hbody
    rw [if_pos hmem, takeWhile_append_cons rest hne (by decide),
      dropWhile_append_cons rest hne (by decide)]
    -- Of a body that is none the bytes may be too many where the characters are not.
    have hbytes {c : Char} (hc : referenced? body = some c) : byteLength body = body.length :=
      Text.byteLength_of_allAscii (allAscii_of_referenced? hc)
    have hslice : slice? s 1 (byteLength body + 1) = some (String.ofList body) := by
      rw [Nat.add_comm, hbehind.slice?]
    have hrest : Stands s (byteLength body + 2) rest := by
      have hend : Stands s (1 + byteLength body + 1) rest := hbehind.advance.succ (by decide)
      rwa [Nat.add_comm 1] at hend
    simp only [hslice, Option.bind_eq_bind, Option.bind_some, String.toList_ofList]
    cases hc : referenced? body with
    | none =>
      rw [Option.map_none, Option.map_none, ite_self, ite_self]
      exact .ended
    | some c =>
      rw [hbytes hc]
      by_cases hlimit : body.length ≤ bodyLimit
      · rw [if_pos hlimit, if_pos hlimit, ← hbytes hc]
        exact .found c hrest
      · rw [if_neg hlimit, if_neg hlimit]
        exact .ended
  · rw [if_neg hmem, List.dropWhile_eq_nil_iff.2 (forall_ne_of_notMem hmem)]
    exact .ended

/-- Up to an ampersand all characters but NUL are read as themselves. -/
theorem decode_append_of_notMem {run : List Char} (h : '&' ∉ run) (cs : List Char) :
    decode (run ++ cs) = withoutNul run ++ decode cs := by
  induction run with
  | nil => rfl
  | cons c run ih =>
    obtain ⟨hc, hrun⟩ := List.ne_and_not_mem_of_not_mem_cons h
    by_cases hnul : c = '\x00'
    · rw [hnul, withoutNul_cons_nul, ← ih hrun]
      exact decode_cons_nul _
    · rw [withoutNul_cons run hnul, List.cons_append, decode_cons _ hc.symm hnul, ih hrun]
      rfl

/-- A reference is read as its character, and an ampersand in front of none as itself. -/
theorem decode_ampersand (cs : List Char) :
    decode ('&' :: cs) = match readReference cs with
      | some (c, rest) => c :: decode rest
      | none => '&' :: decode cs := by
  rw [decode, if_pos rfl]
  split <;> rename_i hread <;> rw [hread]

/-- **A text is decoded by its slices as it is by its characters.** -/
theorem decodeAt_ofList (cs : List Char) : decodeAt (String.ofList cs) = some (decode cs) := by
  rw [decodeAt, String.toList_ofList, offset?_singleton]
  by_cases hmem : '&' ∈ cs
  · obtain ⟨run, more, hcs, hrun⟩ := List.eq_append_cons_of_mem hmem
    have hstart : Stands (String.ofList cs) 0 (run ++ '&' :: more) := hcs ▸ Stands.ofList cs
    have hslice := hstart.slice?
    have hampersand := hstart.advance
    rw [Nat.zero_add] at hslice hampersand
    have hmore : Stands (String.ofList ('&' :: more)) 0 ('&' :: more) := .ofList _
    rw [if_pos hmem, hcs, takeWhile_append_cons _ (forall_ne_of_notMem hrun) (by decide),
      decode_append_of_notMem hrun, decode_ampersand, ← hcs]
    simp only [hslice, hampersand.rest, Option.bind_eq_bind, Option.bind_some,
      String.toList_ofList]
    have hagrees := agrees_referenceAt hmore
    cases hread : readReference more with
    | none =>
      rw [hread] at hagrees
      have hbehind : Stands (String.ofList ('&' :: more)) 1 more := hmore.succ (by decide)
      have hshorter := (hampersand.succ (by decide)).shorter? (Nat.succ_pos _)
      have ih : decodeAt (String.ofList more) = some (decode more) := decodeAt_ofList more
      simp only [hagrees.eq_of_none, hbehind.rest, hshorter, ih, Option.bind_some]
    | some found =>
      obtain ⟨c, rest⟩ := found
      rw [hread] at hagrees
      obtain ⟨i, hat, hbehind⟩ := hagrees.exists_of_some
      have hlength : rest.length < ('&' :: more).length :=
        Nat.lt_succ_of_lt (length_readReference hread)
      obtain ⟨between, hsplit, rfl⟩ := hmore.exists_between hbehind (Nat.le_of_lt hlength)
      have hpos := hmore.lt_of_length_lt hbehind hlength
      have hshorter := (hsplit ▸ hampersand).advance.shorter? (by omega)
      have ih : decodeAt (String.ofList rest) = some (decode rest) := decodeAt_ofList rest
      simp only [hat, hbehind.rest, hshorter, ih, Option.bind_some]
  · have hall := decode_append_of_notMem hmem []
    rw [List.append_nil, decode_nil, List.append_nil] at hall
    rw [if_neg hmem, hall]
termination_by cs.length
decreasing_by
  all_goals rw [hcs, List.length_append, List.length_cons]
  · omega
  · have := length_readReference hread
    omega

/-! ## Parts of a tag -/

theorem exists_skipSpaceAt (h : Stands s i cs) :
    ∃ j, skipSpaceAt s i = some j ∧ Stands s j (skipSpace cs) ∧ i ≤ j :=
  ⟨_, h.walk (Text.tells_isByteOf ofAscii_isMarkupSpace), h.dropWhile _, Nat.le_add_right _ _⟩

/-- **A value is found by its bytes.** -/
theorem agrees_valueAt (h : Stands s i cs) : Agrees s (valueAt s i) (readValue? cs) := by
  obtain ⟨j, hj, hbefore, -⟩ := exists_skipSpaceAt h
  unfold valueAt readValue?
  simp only [hj, Option.bind_eq_bind, Option.bind_some]
  cases hskip : skipSpace cs with
  | nil =>
    rw [hskip] at hbefore
    rw [hbefore.byte?_nil]
    exact .ended
  | cons c rest =>
    rw [hskip] at hbefore
    obtain ⟨b, hb, hbyte⟩ := hbefore.byte?_cons
    have hquote : isByteOf isQuote b = isQuote c := Text.tells_isByteOf ofAscii_isQuote c b hb
    simp only [hbyte, hquote, isQuote_iff]
    by_cases hc : c = '"' ∨ c = '\''
    · have hascii : IsAscii c := ofAscii_isQuote c (isQuote_iff.2 hc)
      have hstart : Stands s (j + 1) rest := hbefore.succ hascii
      rw [Text.encode_of_isAscii hascii, List.mem_singleton] at hb
      rw [if_pos hc, if_pos hc, hb]
      simp only [hstart.place?, hstart.walk (Text.tells_ne hascii), Option.bind_some]
      by_cases hmem : c ∈ rest
      · obtain ⟨value, behind, rfl, hvalue⟩ := List.eq_append_cons_of_mem hmem
        have hne := forall_ne_of_notMem hvalue
        have hstop := hstart.advance
        have hbehind := hstop.succ hascii
        rw [takeWhile_append_cons behind hne (decide_eq_false (not_not_intro rfl)),
          dropWhile_append_cons behind hne (decide_eq_false (not_not_intro rfl))]
        simp only [hstop.byte?_of_isAscii hascii, hstart.slice?, decodeAt_ofList, hbehind.place?,
          Option.bind_some]
        exact .found _ hbehind
      · have hne := forall_ne_of_notMem hmem
        have hstop := hstart.dropWhile (· ≠ c)
        rw [List.dropWhile_eq_nil_iff.2 hne] at hstop ⊢
        rw [hstop.byte?_nil]
        exact .ended
    · rw [if_neg hc, if_neg hc]
      simp only [hbefore.walk (Text.tells_not_isByteOf ofAscii_endsBareValue),
        hbefore.slice?_takeWhile, decodeAt_ofList, Option.bind_some]
      exact .found _ (hbefore.dropWhile _)

theorem any_head?_eq (c : Char) (cs : List Char) :
    cs.head?.any (· = c) = decide (cs.head? = some c) := by
  cases cs with
  | nil => exact (decide_eq_false nofun).symm
  | cons d cs =>
    rw [List.head?_cons, Option.any_some]
    exact decide_eq_decide.2 Option.some_inj.symm

/-- **An attribute is found by its bytes**, also if its name starts with a character of several. -/
theorem agrees_attributeAt {first : Char} (h : Stands s i (first :: cs)) :
    Agrees s (attributeAt s i) (readAttribute? first cs) := by
  have hplace : place? s (i + 1) = some (i + 1) := if_pos (Nat.succ_le_of_lt h.lt_size)
  have hwalk := h.walk_behind ofAscii_endsAttributeName
  have hname : Stands s i ((first :: cs.takeWhile (!endsAttributeName ·))
      ++ cs.dropWhile (!endsAttributeName ·)) := by
    rwa [List.cons_append, List.takeWhile_append_dropWhile]
  obtain ⟨j, hj, hbehind, -⟩ := exists_skipSpaceAt hname.advance
  unfold attributeAt readAttribute?
  simp only [hplace, hwalk, hname.slice?, hj, Option.bind_eq_bind, Option.bind_some,
    String.toList_ofList]
  simp only [hbehind.any_byte? (ofAscii_eq (c := '=') (by decide)), any_head?_eq,
    decide_eq_true_iff]
  generalize skipSpace (cs.dropWhile (!endsAttributeName ·)) = behind at hbehind ⊢
  by_cases hvalue : behind.head? = some '='
  · obtain ⟨rest, rfl⟩ := List.head?_eq_some_iff.1 hvalue
    have hstart := hbehind.succ (by decide)
    rw [if_pos hvalue, hstart.place?, Option.bind_some]
    exact (agrees_valueAt hstart).map fun value => (⟨_, value⟩ : Attribute)
  · rw [if_neg hvalue]
    split
    · exact absurd rfl hvalue
    · exact .found _ hbehind

/-- The attributes of a tag, from what stands behind the spaces in front of them. -/
theorem attributesAt_cons (selfClosing : Bool) {j : Nat} {c : Char}
    (hj : skipSpaceAt s i = some j) (hle : i ≤ j) (h : Stands s j (c :: cs)) :
    attributesAt selfClosing s i
      = if c = '>' then some (some (([], selfClosing), j + 1))
        else if c = '/' then attributesAt (cs.head? = some '>') s (j + 1)
        else (attributeAt s j).bind fun reading => match reading with
          | none => some none
          | some (a, stop) => (onward? s i stop).bind fun behind =>
            (attributesAt false s behind).bind fun reading =>
              some (reading.map fun found => ((a :: found.1.1, found.1.2), found.2)) := by
  obtain ⟨b, hb, hbyte⟩ := h.byte?_cons
  have htest {d : Char} (hd : IsAscii d) : isByteOf (· = d) b = decide (c = d) :=
    Text.tells_isByteOf (ofAscii_eq hd) c b hb
  rw [attributesAt]
  simp only [hj, hbyte, Option.bind_eq_bind, Option.bind_some, htest (d := '>') (by decide),
    htest (d := '/') (by decide), decide_eq_true_iff]
  by_cases hgt : c = '>'
  · rw [if_pos hgt, if_pos hgt, (h.succ (hgt ▸ by decide)).place?, Option.bind_some]
  · rw [if_neg hgt, if_neg hgt]
    by_cases hslash : c = '/'
    · have hbehind := h.succ (hslash ▸ by decide)
      rw [if_pos hslash, if_pos hslash, hbehind.onward? (Nat.lt_succ_of_le hle), Option.bind_some,
        hbehind.any_byte? (ofAscii_eq (by decide)), any_head?_eq]
    · exact (if_neg hslash).trans (if_neg hslash).symm

/-- **The attributes of a tag are found by its bytes.** -/
theorem agrees_attributesAt (selfClosing : Bool) (h : Stands s i cs) :
    Agrees s (attributesAt selfClosing s i)
      ((readAttributes? selfClosing cs).map fun found => ((found.1, found.2.1), found.2.2)) := by
  fun_induction readAttributes? selfClosing cs generalizing i with
  | case1 selfClosing cs heq =>
    obtain ⟨j, hj, hbefore, -⟩ := heq ▸ exists_skipSpaceAt h
    rw [attributesAt]
    simp only [hj, Option.bind_eq_bind, Option.bind_some, hbefore.byte?_nil]
    exact .ended
  | case2 selfClosing cs rest heq =>
    obtain ⟨j, hj, hbefore, hle⟩ := heq ▸ exists_skipSpaceAt h
    rw [attributesAt_cons selfClosing hj hle hbefore, if_pos rfl]
    exact .found _ (hbefore.succ (by decide))
  | case3 selfClosing cs rest heq _ ih =>
    obtain ⟨j, hj, hbefore, hle⟩ := heq ▸ exists_skipSpaceAt h
    rw [attributesAt_cons selfClosing hj hle hbefore, if_neg (by decide), if_pos rfl]
    exact ih (hbefore.succ (by decide))
  | case4 selfClosing cs c rest heq hgt hslash hread =>
    obtain ⟨j, hj, hbefore, hle⟩ := heq ▸ exists_skipSpaceAt h
    have hat := (hread ▸ agrees_attributeAt hbefore).eq_of_none
    rw [attributesAt_cons selfClosing hj hle hbefore, if_neg hgt, if_neg hslash, hat]
    exact .ended
  | case5 selfClosing cs c rest heq hgt hslash a behind hread ih =>
    obtain ⟨j, hj, hbefore, hle⟩ := heq ▸ exists_skipSpaceAt h
    obtain ⟨i', hat, hbehind⟩ := (hread ▸ agrees_attributeAt hbefore).exists_of_some
    have hmore := (ih hbehind).map fun found => (a :: found.1, found.2)
    rw [Option.map_map] at hmore
    have hlt : i < i' :=
      Nat.lt_of_le_of_lt hle (hbefore.lt_of_length_lt hbehind
        (Nat.lt_succ_of_le (length_readAttribute? hread)))
    rw [attributesAt_cons selfClosing hj hle hbefore, if_neg hgt, if_neg hslash, hat,
      Option.bind_some, Option.map_map]
    simp only [hbehind.onward? hlt, Option.bind_some]
    exact hmore

/-- Where a text ends inside a tag, its attributes are not found. -/
theorem attributesAt_eq_none {selfClosing : Bool} (h : Stands s i cs)
    (hread : readAttributes? selfClosing cs = none) : attributesAt selfClosing s i = some none := by
  have hagrees := agrees_attributesAt selfClosing h
  rw [hread] at hagrees
  exact hagrees.eq_of_none

/-- Where they are found the reader has gone on, past a `>` at least. -/
theorem exists_attributesAt {selfClosing closes : Bool} {attributes : List Attribute}
    {behind : List Char} (h : Stands s i cs)
    (hread : readAttributes? selfClosing cs = some (attributes, closes, behind)) :
    ∃ j, attributesAt selfClosing s i = some (some ((attributes, closes), j))
      ∧ Stands s j behind ∧ i < j := by
  have hagrees := agrees_attributesAt selfClosing h
  rw [hread] at hagrees
  obtain ⟨j, hat, hbehind⟩ := hagrees.exists_of_some
  exact ⟨j, hat, hbehind, h.lt_of_length_lt hbehind (length_readAttributes? hread)⟩

/-! ## What a mark opens -/

theorem Opening.of_cons (c : Char) (cs : List Char) :
    Opening.of (c :: cs)
      = if Text.isLetter c = true then .tag
        else if c = '/' then
          match cs with
          | [] => .literal
          | d :: _ => if Text.isLetter d then .tag else .ignored
        else if c = '!' then if ['-', '-'] <+: cs then .comment else .ignored
        else if c = '?' then .ignored
        else .literal := by
  unfold Opening.of
  split
  · rename_i heq
    obtain ⟨rfl, rfl⟩ := List.cons.inj heq
    rfl
  · rename_i heq
    obtain ⟨rfl, rfl⟩ := List.cons.inj heq
    rfl
  · rename_i hdashes heq
    obtain ⟨rfl, rfl⟩ := List.cons.inj heq
    have hno : ¬ ['-', '-'] <+: cs := fun ⟨behind, hbehind⟩ => hdashes behind hbehind.symm
    rw [if_neg (by decide), if_neg (by decide), if_pos rfl, if_neg hno]
  · rename_i heq
    obtain ⟨rfl, rfl⟩ := List.cons.inj heq
    rfl
  · rename_i hslash _ hbang hquestion heq
    obtain ⟨rfl, rfl⟩ := List.cons.inj heq
    rw [if_neg (hbang ·), if_neg (hquestion ·)]
    by_cases hc : c = '/'
    · cases cs with
      | nil => rw [if_pos hc]
      | cons d cs => exact (hslash d cs hc rfl).elim
    · rw [if_neg hc]
  · rename_i heq
    cases heq

/-- **What a `<` opens is told by the bytes behind it.** -/
theorem openingAt_eq (h : Stands s i ('<' :: cs)) : openingAt s i = Opening.of cs := by
  have hbehind : Stands s (i + 1) cs := h.succ (by decide)
  cases cs with
  | nil =>
    rw [openingAt, hbehind.byte?_nil]
    rfl
  | cons c rest =>
    obtain ⟨b, hb, hbyte⟩ := hbehind.byte?_cons
    have htest {d : Char} (hd : IsAscii d) : isByteOf (· = d) b = decide (c = d) :=
      Text.tells_isByteOf (ofAscii_eq hd) c b hb
    rw [openingAt, Opening.of_cons]
    simp only [hbyte, Text.tells_isByteOf ofAscii_isLetter c b hb, htest (d := '/') (by decide),
      htest (d := '!') (by decide), htest (d := '?') (by decide), decide_eq_true_iff]
    by_cases hletter : Text.isLetter c = true
    · rw [if_pos hletter, if_pos hletter]
    rw [if_neg hletter, if_neg hletter]
    by_cases hslash : c = '/'
    · rw [if_pos hslash, if_pos hslash]
      have hrest : Stands s (i + 2) rest := hbehind.succ (hslash ▸ by decide)
      cases rest with
      | nil => rw [hrest.byte?_nil]
      | cons d rest =>
        obtain ⟨b', hb', hbyte'⟩ := hrest.byte?_cons
        simp only [hbyte', Text.tells_isByteOf ofAscii_isLetter d b' hb']
    rw [if_neg hslash, if_neg hslash]
    by_cases hbang : c = '!'
    · subst hbang
      have hdashes : (Text.encode ['<', '!', '-', '-']).isPrefixOf ((Text.bytes s).drop i) = true
          ↔ ['-', '-'] <+: rest := by
        rw [List.isPrefixOf_iff_prefix, h.drop_bytes, Text.encode_prefix_iff (by decide),
          List.cons_prefix_cons, List.cons_prefix_cons]
        exact ⟨fun h => h.2.2, fun h => ⟨rfl, rfl, h⟩⟩
      simp only [hdashes]
    · rw [if_neg hbang, if_neg hbang]

end SafePreview.Markup
