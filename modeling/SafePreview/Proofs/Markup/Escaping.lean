import SafePreview.Markup.Reference

/-!
# Writing characters and reading them back

`escapeText` and `escapeValue` write a character as itself or as a reference, and `decode` reads
both. What makes them inverse is said once, for one character: `Spells w c` holds of the two ways
to write `c`, and reading `w` in front of any text gives `c` and the reading of that text
(`decode_spelling`). Nothing here depends on which characters are written which way.

NUL is the exception that shapes the statements. It is written as itself and dropped by the reader,
so reading what was written gives the text *without NUL* – and a text that was read never has one
(`nul_notMem_decode`), which is why a second round changes nothing.
-/

namespace SafePreview.Markup

/-- **A spelling of a character**: the character itself, or a reference to it. -/
inductive Spells : List Char → Char → Prop
  | itself {c : Char} (hc : c ≠ '&') : Spells [c] c
  | reference (body : List Char) {c : Char} (hbody : referenced? body = some c)
      (hend : ';' ∉ body) (hlength : body.length ≤ bodyLimit) :
      Spells ('&' :: (body ++ [';'])) c

/-- The text without NUL. -/
def withoutNul (cs : List Char) : List Char := cs.filter (· ≠ '\x00')

@[simp] theorem withoutNul_nil : withoutNul [] = [] := rfl

@[simp] theorem withoutNul_append (a b : List Char) :
    withoutNul (a ++ b) = withoutNul a ++ withoutNul b := List.filter_append ..

@[simp] theorem withoutNul_cons_nul (cs : List Char) :
    withoutNul ('\x00' :: cs) = withoutNul cs := rfl

@[simp] theorem withoutNul_cons {c : Char} (cs : List Char) (h : c ≠ '\x00') :
    withoutNul (c :: cs) = c :: withoutNul cs :=
  List.filter_cons_of_pos (by simpa using h)

/-- A text that has no NUL is left as it is. -/
theorem withoutNul_eq_self {cs : List Char} (h : '\x00' ∉ cs) : withoutNul cs = cs := by
  refine List.filter_eq_self.2 (fun c hc => ?_)
  simpa using fun he : c = '\x00' => h (he ▸ hc)

@[simp] theorem escapeText_nil : escapeText [] = [] := rfl

@[simp] theorem escapeText_cons (c : Char) (u : List Char) :
    escapeText (c :: u) = escapeTextChar c ++ escapeText u := rfl

@[simp] theorem escapeValue_nil : escapeValue [] = [] := rfl

@[simp] theorem escapeValue_cons (c : Char) (u : List Char) :
    escapeValue (c :: u) = escapeValueChar c ++ escapeValue u := rfl

/-! ## Up to a character

All scanners of markup run up to the first character of some kind. In front of such a character they
take what they should take. -/

/-- What a scanner takes. -/
theorem takeWhile_append_cons {p : Char → Bool} {u : List Char} {c : Char} (cs : List Char)
    (hu : ∀ x ∈ u, p x = true) (hc : p c = false) : (u ++ c :: cs).takeWhile p = u := by
  rw [List.takeWhile_append_of_pos hu, List.takeWhile_cons_of_neg (by rw [hc]; decide),
    List.append_nil]

/-- What a scanner leaves. -/
theorem dropWhile_append_cons {p : Char → Bool} {u : List Char} {c : Char} (cs : List Char)
    (hu : ∀ x ∈ u, p x = true) (hc : p c = false) : (u ++ c :: cs).dropWhile p = c :: cs := by
  rw [List.dropWhile_append_of_pos hu, List.dropWhile_cons_of_neg (by rw [hc]; decide)]

/-- A scanner for one character runs over a text without it. -/
theorem forall_ne_of_notMem {c : Char} {u : List Char} (h : c ∉ u) :
    ∀ x ∈ u, decide (x ≠ c) = true := by
  intro x hx
  exact decide_eq_true (fun he => h (he ▸ hx))

/-! ## Reading one character -/

@[simp] theorem decode_nil : decode [] = [] := by rw [decode]

/-- A character that starts no reference is read as itself. -/
theorem decode_cons {c : Char} (cs : List Char) (hamp : c ≠ '&') (hnul : c ≠ '\x00') :
    decode (c :: cs) = c :: decode cs := by
  rw [decode, if_neg hamp, if_neg hnul]

/-- NUL is dropped. -/
theorem decode_cons_nul (cs : List Char) : decode ('\x00' :: cs) = decode cs := by
  rw [decode, if_neg (by decide), if_pos rfl]

/-- A body up to its semicolon is the reference it is. -/
theorem readReference_append {body : List Char} {c : Char} (cs : List Char)
    (hbody : referenced? body = some c) (hend : ';' ∉ body)
    (hlength : body.length ≤ bodyLimit) :
    readReference (body ++ ';' :: cs) = some (c, cs) := by
  have hne := forall_ne_of_notMem hend
  have htake := takeWhile_append_cons (c := ';') cs hne (by decide)
  unfold readReference
  rw [dropWhile_append_cons cs hne (by decide)]
  simp only [htake]
  rw [if_pos hlength, hbody]
  rfl

/-- A reference is read as what it stands for. -/
theorem decode_reference {body : List Char} {c : Char} (cs : List Char)
    (hbody : referenced? body = some c) (hend : ';' ∉ body)
    (hlength : body.length ≤ bodyLimit) :
    decode ('&' :: (body ++ ';' :: cs)) = c :: decode cs := by
  rw [decode, if_pos rfl]
  split
  · rename_i char rest hread
    rw [readReference_append cs hbody hend hlength] at hread
    simp only [Option.some.injEq, Prod.mk.injEq] at hread
    rw [hread.1, hread.2]
  · rename_i hread
    rw [readReference_append cs hbody hend hlength] at hread
    cases hread

/-- **A spelling is read as its character**, unless that is NUL, whatever is behind it. -/
theorem decode_spelling {w : List Char} {c : Char} (h : Spells w c) (hc : c ≠ '\x00')
    (cs : List Char) : decode (w ++ cs) = c :: decode cs := by
  cases h with
  | itself hamp => exact decode_cons cs hamp hc
  | reference _ hbody hend hlength =>
    rw [List.cons_append, List.append_assoc]
    exact decode_reference cs hbody hend hlength

/-! ## The two ways to write a text -/

/-- A character of text is spelled. -/
theorem spells_escapeTextChar (c : Char) : Spells (escapeTextChar c) c := by
  unfold escapeTextChar
  split
  · rename_i h
    rw [h]
    exact .reference ['a', 'm', 'p'] rfl (by decide) (by decide)
  · rename_i hamp
    split
    · rename_i h
      rw [h]
      exact .reference ['l', 't'] rfl (by decide) (by decide)
    · split
      · rename_i h
        rw [h]
        exact .reference ['g', 't'] rfl (by decide) (by decide)
      · exact .itself hamp

/-- A character of a value is spelled. -/
theorem spells_escapeValueChar (c : Char) : Spells (escapeValueChar c) c := by
  unfold escapeValueChar
  split
  · rename_i h
    rw [h]
    exact .reference ['q', 'u', 'o', 't'] rfl (by decide) (by decide)
  · exact spells_escapeTextChar c

/-- NUL is written for NUL alone. -/
theorem nul_notMem_escapeValueChar {c : Char} (hc : c ≠ '\x00') :
    '\x00' ∉ escapeValueChar c := by
  unfold escapeValueChar escapeTextChar
  repeat' split
  · decide
  · decide
  · decide
  · decide
  · simpa using Ne.symm hc

/-- **What is written as a value is read without NUL.** -/
theorem decode_escapeValue (u : List Char) : decode (escapeValue u) = withoutNul u := by
  induction u with
  | nil => exact decode_nil
  | cons c u ih =>
    rw [escapeValue_cons]
    by_cases hc : c = '\x00'
    · rw [hc, withoutNul_cons_nul, ← ih]
      exact decode_cons_nul _
    · rw [decode_spelling (spells_escapeValueChar c) hc, ih, withoutNul_cons u hc]

/-- Leaving NUL out and writing can change places. -/
theorem escapeValue_withoutNul (u : List Char) :
    escapeValue (withoutNul u) = withoutNul (escapeValue u) := by
  induction u with
  | nil => rfl
  | cons c u ih =>
    rw [escapeValue_cons, withoutNul_append]
    by_cases hc : c = '\x00'
    · rw [hc, withoutNul_cons_nul, ih]
      rfl
    · rw [withoutNul_cons u hc, escapeValue_cons, ih,
        withoutNul_eq_self (nul_notMem_escapeValueChar hc)]

/-! ## What was read has no NUL -/

theorem replacement_ne_nul : replacement ≠ '\x00' := by decide

/-- The character with a number is never NUL. -/
theorem numbered_ne_nul (n : Nat) : numbered n ≠ '\x00' := by
  unfold numbered
  split
  · rename_i h
    intro he
    have hn : (Char.ofNat n).toNat = n := by
      rw [Char.ofNat, dif_pos h.2]
      rfl
    rw [he] at hn
    exact h.1 hn.symm
  · exact replacement_ne_nul

/-- No reference stands for NUL. -/
theorem referenced?_ne_nul {body : List Char} {c : Char} (h : referenced? body = some c) :
    c ≠ '\x00' := by
  unfold referenced? at h
  split at h
  all_goals first
    | cases h; done
    | (simp only [Option.some.injEq] at h; rw [← h]; decide)
    | (obtain ⟨n, _, rfl⟩ := Option.map_eq_some_iff.1 h; exact numbered_ne_nul n)

/-- A reference that was read is not NUL. -/
theorem readReference_ne_nul {cs rest : List Char} {c : Char}
    (h : readReference cs = some (c, rest)) : c ≠ '\x00' := by
  unfold readReference at h
  split at h
  · cases h
  · simp only [Option.ite_none_right_eq_some, Option.map_eq_some_iff, Prod.mk.injEq] at h
    obtain ⟨_, _, hbody, rfl, _⟩ := h
    exact referenced?_ne_nul hbody

/-- **A text that was read has no NUL.** -/
theorem nul_notMem_decode (cs : List Char) : '\x00' ∉ decode cs := by
  fun_induction decode cs with
  | case1 => exact List.not_mem_nil
  | case2 cs char rest hread ih =>
    exact List.not_mem_cons_of_ne_of_not_mem (Ne.symm (readReference_ne_nul hread)) ih
  | case3 cs _ ih => exact List.not_mem_cons_of_ne_of_not_mem (by decide) ih
  | case4 cs _ ih => exact ih
  | case5 c cs _ hnul ih => exact List.not_mem_cons_of_ne_of_not_mem (Ne.symm hnul) ih

end SafePreview.Markup
