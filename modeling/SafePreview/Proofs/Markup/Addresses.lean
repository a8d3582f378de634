import Mathlib.Logic.Relation
import SafePreview.Proofs.Markup.Escaping
import SafePreview.Markup.Safety

/-!
# The scheme that a reader sees

An address is judged before anybody follows it, and it is judged as it is written. Whoever follows
it first changes it: controls and spaces at either end are cut off, and tabs and line breaks are
left out wherever they are (`addressRead`). An address could thus have a scheme for the reader and
none, or another, for the writer.

What rules this out is that the writer leaves out more than any reader does. Condensing takes out
all that reading takes out (`condense_addressRead`), so both may be asked about the address that was
read. Of what else condensing takes out nothing can stand in the name of a scheme, nor can anything
behind which an address has no scheme any more; so the scheme that a reader sees is the scheme that
is found (`scheme?_condense`). For the same reason blanks and control characters count for nothing,
wherever they are put in or left out.
-/

namespace SafePreview.Markup

/-! ## What a reader makes of an address -/

/-- A control character below the space, or the space: what a reader cuts off at either end. -/
def isEdge (c : Char) : Bool := c.toNat ≤ 0x20

/-- Tab, line feed and carriage return: what a reader leaves out. -/
def isLeftOut (c : Char) : Bool := c = '\t' || c = '\n' || c = '\r'

/-- **An address as a reader takes it.** -/
def addressRead (v : List Char) : List Char :=
  ((v.dropWhile isEdge).reverse.dropWhile isEdge).reverse.filter (!isLeftOut ·)

/-- A character of the name of a scheme, behind the first. -/
def IsSchemeChar (c : Char) : Prop :=
  Text.isLetter c = true ∨ Text.isDigit c = true ∨ c ∈ ['+', '-', '.']

instance : DecidablePred IsSchemeChar := fun _ => inferInstanceAs (Decidable (_ ∨ _ ∨ _))

/-- **The name of a scheme**: a letter, then letters, digits and `+`, `-`, `.`. -/
def IsScheme : List Char → Prop
  | [] => False
  | c :: cs => Text.isLetter c = true ∧ ∀ d ∈ cs, IsSchemeChar d

instance : DecidablePred IsScheme
  | [] => inferInstanceAs (Decidable False)
  -- the instance by name: the quantifier ranges over a list, not over all characters
  | _ :: cs => @instDecidableAnd _ _ _ (List.decidableBAll IsSchemeChar cs)

/-- **One blank or control character put in or left out**, anywhere. -/
inductive BlankEdit : List Char → List Char → Prop
  | putIn (before behind : List Char) {c : Char}
      (hc : Text.isBlank c = true ∨ Text.isControl c = true) :
      BlankEdit (before ++ behind) (before ++ c :: behind)
  | leaveOut (before behind : List Char) {c : Char}
      (hc : Text.isBlank c = true ∨ Text.isControl c = true) :
      BlankEdit (before ++ c :: behind) (before ++ behind)

/-! ## Condensing -/

/-- A character that condensing takes out. -/
theorem condense_cons_of_blank {c : Char} (hc : Text.isBlank c = true ∨ Text.isControl c = true)
    (cs : List Char) : condense (c :: cs) = condense cs := by
  refine List.filter_cons_of_neg fun hkept => ?_
  rw [Bool.and_eq_true, Bool.not_eq_true', Bool.not_eq_true'] at hkept
  rcases hc with hc | hc
  · exact Bool.false_ne_true (hkept.1.symm.trans hc)
  · exact Bool.false_ne_true (hkept.2.symm.trans hc)

theorem condense_append (a b : List Char) : condense (a ++ b) = condense a ++ condense b :=
  List.filter_append ..

theorem condense_reverse (cs : List Char) : condense cs.reverse = (condense cs).reverse :=
  List.filter_reverse

/-- **What is put in or left out was not there for the test.** -/
theorem BlankEdit.condense_eq {v w : List Char} (h : BlankEdit v w) : condense v = condense w := by
  cases h with
  | putIn before behind hc => rw [condense_append, condense_append, condense_cons_of_blank hc]
  | leaveOut before behind hc => rw [condense_append, condense_append, condense_cons_of_blank hc]

/-- An edge is a control character or a blank. -/
theorem isBlank_or_isControl_of_isEdge {c : Char} (h : isEdge c = true) :
    Text.isBlank c = true ∨ Text.isControl c = true := by
  have hlow : c.toNat ≤ 0x20 := of_decide_eq_true h
  rcases Nat.lt_or_eq_of_le hlow with hlow | hspace
  · right
    rw [Text.isControl, decide_eq_true hlow]
    rfl
  · left
    rw [Text.isBlank, hspace]
    decide

/-- So is what is left out. -/
theorem isEdge_of_isLeftOut {c : Char} (h : isLeftOut c = true) : isEdge c = true := by
  simp only [isLeftOut, Bool.or_eq_true, decide_eq_true_eq] at h
  rcases h with (rfl | rfl) | rfl <;> decide

/-- Cutting off edges takes out nothing that condensing would keep. -/
theorem condense_dropWhile_isEdge (cs : List Char) :
    condense (cs.dropWhile isEdge) = condense cs := by
  induction cs with
  | nil => rfl
  | cons c cs ih =>
    rw [List.dropWhile_cons]
    split
    · rename_i hedge
      rw [ih, condense_cons_of_blank (isBlank_or_isControl_of_isEdge hedge)]
    · rfl

/-- Neither does leaving out tabs and line breaks. -/
theorem condense_filter_isLeftOut (cs : List Char) :
    condense (cs.filter (!isLeftOut ·)) = condense cs := by
  induction cs with
  | nil => rfl
  | cons c cs ih =>
    rw [List.filter_cons]
    split
    · rw [← List.singleton_append, condense_append, ih, ← condense_append, List.singleton_append]
    · rename_i hout
      rw [Bool.not_eq_true', Bool.not_eq_false] at hout
      rw [ih, condense_cons_of_blank (isBlank_or_isControl_of_isEdge (isEdge_of_isLeftOut hout))]

/-- **Reading an address leaves out no more than condensing does.** -/
theorem condense_addressRead (v : List Char) : condense (addressRead v) = condense v := by
  rw [addressRead, condense_filter_isLeftOut, condense_reverse, condense_dropWhile_isEdge,
    condense_reverse, List.reverse_reverse, condense_dropWhile_isEdge]

/-! ## Schemes -/

/-- A character of a scheme can be seen. -/
theorem IsSchemeChar.toNat_bounds {c : Char} (h : IsSchemeChar c) :
    0x21 ≤ c.toNat ∧ c.toNat ≤ 0x7E := by
  have hword (hc : (Text.isLetter c || Text.isDigit c) = true) :
      0x21 ≤ c.toNat ∧ c.toNat ≤ 0x7E := by
    rw [Text.isLetter_or_isDigit] at hc
    have hbounds := Text.toNat_of_isAlphanum hc
    omega
  rcases h with hletter | hdigit | hmark
  · exact hword (by rw [hletter]; rfl)
  · exact hword (by rw [hdigit, Bool.or_true])
  · simp only [List.mem_cons, List.not_mem_nil, or_false] at hmark
    rcases hmark with rfl | rfl | rfl <;> decide

/-- It ends neither the scheme nor the search for one. -/
theorem IsSchemeChar.notMem {c : Char} (h : IsSchemeChar c) : c ∉ [':', '/', '?', '#'] := by
  intro hc
  simp only [List.mem_cons, List.not_mem_nil, or_false] at hc
  rcases hc with rfl | rfl | rfl | rfl <;> exact absurd h (by decide)

/-- The first character is one like the others. -/
theorem IsScheme.forall_isSchemeChar {scheme : List Char} (h : IsScheme scheme) :
    ∀ c ∈ scheme, IsSchemeChar c := by
  cases scheme with
  | nil => exact h.elim
  | cons first more => exact List.forall_mem_cons.2 ⟨.inl h.1, h.2⟩

/-- **Condensing keeps a scheme** and the colon behind it. -/
theorem condense_scheme {scheme : List Char} (h : ∀ c ∈ scheme, IsSchemeChar c)
    (rest : List Char) : condense (scheme ++ ':' :: rest) = scheme ++ ':' :: condense rest := by
  have hself : condense scheme = scheme := by
    refine List.filter_eq_self.2 fun c hc => ?_
    obtain ⟨hlow, hhigh⟩ := (h c hc).toNat_bounds
    obtain ⟨hblank, hcontrol⟩ := Text.not_isBlank_not_isControl hlow hhigh
    rw [hblank, hcontrol]
    rfl
  rw [condense_append, hself]
  rfl

/-- **The scheme that stands in front is found**, whatever is behind its colon. -/
theorem scheme?_append {scheme : List Char} (h : ∀ c ∈ scheme, IsSchemeChar c)
    (rest : List Char) : scheme? (scheme ++ ':' :: rest) = some scheme := by
  have hgoesOn : ∀ c ∈ scheme, (!endsScheme c) = true := by
    intro c hc
    have hnot := (h c hc).notMem
    simp only [List.mem_cons, List.not_mem_nil, or_false, not_or] at hnot
    simp [endsScheme, hnot]
  have hcolon : ∀ c ∈ scheme, decide (c ≠ ':') = true := fun c hc =>
    decide_eq_true (List.ne_of_not_mem_cons (h c hc).notMem)
  have hhead : (scheme ++ ':' :: rest).takeWhile (!endsScheme ·)
      = scheme ++ ':' :: rest.takeWhile (!endsScheme ·) := by
    rw [List.takeWhile_append_of_pos hgoesOn, List.takeWhile_cons_of_pos (by decide)]
  simp only [scheme?, hhead]
  rw [if_pos (by simp), takeWhile_append_cons _ hcolon (by decide)]

/-- **The scheme that a reader sees is the scheme that is judged.** An address that has a scheme
once it was read is safe exactly if that is `http` or `https`, in any case of letters; and putting
in or leaving out blanks and control characters, anywhere and as often as one likes, changes no
answer. -/
theorem isSafeAddress_decides_scheme :
    (∀ v scheme rest, addressRead v = scheme ++ ':' :: rest → IsScheme scheme →
      (isSafeAddress v = true
        ↔ lowerName scheme = "http".toList ∨ lowerName scheme = "https".toList))
    ∧ ∀ v w, Relation.ReflTransGen BlankEdit v w → isSafeAddress v = isSafeAddress w := by
  constructor
  · intro v scheme rest hread hscheme
    have hchars := hscheme.forall_isSchemeChar
    have hcondense : condense v = scheme ++ ':' :: condense rest := by
      rw [← condense_addressRead, hread, condense_scheme hchars]
    rw [isSafeAddress, hcondense, scheme?_append hchars]
    simp only [Bool.or_eq_true, decide_eq_true_eq]
    rfl
  · intro v w hedits
    have hcondense : condense v = condense w := by
      induction hedits with
      | refl => rfl
      | tail _ hedit ih => rw [ih, hedit.condense_eq]
    rw [isSafeAddress, isSafeAddress, hcondense]

/-! ### Two hidden schemes

One has a control character and a space in front and a tab inside, and is not one of the two; the
other has a line break inside and capital letters, and is. -/

/-- The first is seen and refused, and so it is with a wide space in it that no reader would leave
out; the second is seen and let through. -/
theorem isSafeAddress_hiddenSchemes :
    addressRead "\x01 jaVa\tscript:alert(1)".toList
        = "jaVascript".toList ++ ':' :: "alert(1)".toList
      ∧ isSafeAddress "\x01 jaVa\tscript:alert(1)".toList = false
      ∧ isSafeAddress "\x01 jaVa\tscr\u2003ipt:alert(1)".toList = false
      ∧ addressRead "HT\nTPS://example.org".toList = "HTTPS".toList ++ ':' :: "//example.org".toList
      ∧ isSafeAddress "HT\nTPS://example.org".toList = true := by
  have hfirst : addressRead "\x01 jaVa\tscript:alert(1)".toList
      = "jaVascript".toList ++ ':' :: "alert(1)".toList := by decide
  have hsecond : addressRead "HT\nTPS://example.org".toList
      = "HTTPS".toList ++ ':' :: "//example.org".toList := by decide
  have hedit : BlankEdit "\x01 jaVa\tscript:alert(1)".toList
      "\x01 jaVa\tscr\u2003ipt:alert(1)".toList :=
    .putIn "\x01 jaVa\tscr".toList "ipt:alert(1)".toList (.inl (by decide))
  obtain ⟨hscheme, hedits⟩ := isSafeAddress_decides_scheme
  have hrefused : isSafeAddress "\x01 jaVa\tscript:alert(1)".toList = false := by
    rw [← Bool.not_eq_true, hscheme _ _ _ hfirst (by decide)]
    decide
  refine ⟨hfirst, hrefused, ?_, hsecond, ?_⟩
  · rw [← hedits _ _ (.single hedit)]
    exact hrefused
  · exact (hscheme _ _ _ hsecond (by decide)).2 (.inr (by decide))

end SafePreview.Markup
