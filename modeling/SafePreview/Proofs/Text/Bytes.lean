import SafePreview.Text.Character

/-!
# Texts and their bytes

A text can be read byte by byte, and then nothing keeps a reader between its characters: the place
it has come to may lie inside a character, and the text from there on is no text. Everything here
that depends on a place therefore may fail. `slice?` gives the text between two places only if both
are where characters meet (`slice?_eq_some_iff`), and `place?` gives a place only if it is in the
text or at its end. For a loop to go on, a place has to be farther on as well (`onward?`), and with
it comes the proof that the loop ends (`left_lt`).

`Stands s i cs` says that a reader of `s` that has come to the byte `i` stands where characters
meet, with the characters `cs` still before it. A reader that looks for characters of ASCII stays at
such places although it looks at bytes alone: no byte of any other character looks like one of ASCII
(`isByteOf_of_mem`), so it stops where a reader of characters would (`Stands.walk`). That remains so
if it starts inside a character (`Stands.walk_behind`).
-/

namespace SafePreview.Text

/-! ## Lengths -/

@[simp] theorem byteLength_nil : byteLength [] = 0 := rfl

@[simp] theorem byteLength_cons (c : Char) (cs : List Char) :
    byteLength (c :: cs) = c.utf8Size + byteLength cs := rfl

@[simp] theorem byteLength_append (a b : List Char) :
    byteLength (a ++ b) = byteLength a + byteLength b := by
  induction a with
  | nil => exact (Nat.zero_add _).symm
  | cons c a ih => rw [List.cons_append, byteLength_cons, ih, byteLength_cons, Nat.add_assoc]

/-- The bytes of a text are those of its characters. -/
theorem byteLength_toList (text : String) : byteLength text.toList = text.utf8ByteSize := by
  have hchars (cs : List Char) : byteLength cs = (String.ofList cs).utf8ByteSize := by
    induction cs with
    | nil => rfl
    | cons c cs ih =>
      rw [String.ofList_cons, String.utf8ByteSize_append, String.utf8ByteSize_singleton, ← ih]
      rfl
  rw [hchars, String.ofList_toList]

theorem utf8ByteSize_ofList (cs : List Char) : (String.ofList cs).utf8ByteSize = byteLength cs := by
  rw [← byteLength_toList, String.toList_ofList]

/-- A text without characters is one without bytes. -/
theorem byteLength_pos {cs : List Char} (h : cs ≠ []) : 0 < byteLength cs := by
  cases cs with
  | nil => exact absurd rfl h
  | cons c cs => exact Nat.lt_of_lt_of_le c.utf8Size_pos (Nat.le_add_right _ _)

/-! ## Bytes -/

/-- The characters in UTF-8. -/
def encode (cs : List Char) : List UInt8 := cs.flatMap String.utf8EncodeChar

/-- The bytes of a text. -/
def bytes (s : String) : List UInt8 := s.toByteArray.data.toList

theorem bytes_eq (s : String) : bytes s = encode s.toList := by
  have hbytes : s.toByteArray = s.toList.utf8Encode := by
    rw [← String.toByteArray_ofList, String.ofList_toList]
  rw [bytes, hbytes, List.utf8Encode, List.data_toByteArray]
  rfl

theorem encode_cons (c : Char) (cs : List Char) :
    encode (c :: cs) = String.utf8EncodeChar c ++ encode cs := rfl

theorem encode_append (a b : List Char) : encode (a ++ b) = encode a ++ encode b :=
  List.flatMap_append

@[simp] theorem length_encode (cs : List Char) : (encode cs).length = byteLength cs := by
  induction cs with
  | nil => rfl
  | cons c cs ih =>
    rw [encode_cons, List.length_append, String.length_utf8EncodeChar, ih, byteLength_cons]

/-- A character has a first byte. -/
theorem exists_utf8EncodeChar_eq_cons (c : Char) :
    ∃ b more, String.utf8EncodeChar c = b :: more :=
  List.exists_cons_of_ne_nil String.utf8EncodeChar_ne_nil

/-- A character of ASCII. -/
def IsAscii (c : Char) : Prop := c.toNat < 0x80

instance (c : Char) : Decidable (IsAscii c) := Nat.decLt c.toNat 0x80

/-- A text of such characters alone. -/
def AllAscii (cs : List Char) : Prop := ∀ c ∈ cs, IsAscii c

instance (cs : List Char) : Decidable (AllAscii cs) := List.decidableBAll IsAscii cs

/-- Whether a byte is a character by itself, and that of a kind. -/
def isByteOf (p : Char → Bool) (b : UInt8) : Bool := b.toNat < 0x80 && p (Char.ofNat b.toNat)

/-- A character of ASCII is one byte. -/
theorem encode_of_isAscii {c : Char} (h : IsAscii c) :
    String.utf8EncodeChar c = [UInt8.ofNat c.toNat] := by
  have hle : c.val.toNat ≤ 127 := Nat.le_of_lt_succ h
  unfold String.utf8EncodeChar
  exact if_pos hle

theorem utf8Size_of_isAscii {c : Char} (h : IsAscii c) : c.utf8Size = 1 := by
  rw [← String.length_utf8EncodeChar, encode_of_isAscii h]
  rfl

/-- A text of ASCII has as many bytes as characters. -/
theorem byteLength_of_allAscii {cs : List Char} (h : AllAscii cs) :
    byteLength cs = cs.length := by
  induction cs with
  | nil => rfl
  | cons c cs ih =>
    obtain ⟨hc, hcs⟩ := List.forall_mem_cons.1 h
    rw [byteLength_cons, utf8Size_of_isAscii hc, ih hcs, List.length_cons, Nat.add_comm]

/-- That byte is of the kinds that the character is of. -/
theorem isByteOf_ofNat {c : Char} (h : IsAscii c) (p : Char → Bool) :
    isByteOf p (UInt8.ofNat c.toNat) = p c := by
  have hlow : c.toNat < 0x80 := h
  have hbyte : (UInt8.ofNat c.toNat).toNat = c.toNat := by
    rw [UInt8.toNat_ofNat']
    omega
  rw [isByteOf, hbyte, decide_eq_true hlow, Bool.true_and, Char.ofNat_toNat]

/-- **No byte of another character looks like one of ASCII.** -/
theorem isByteOf_of_mem {c : Char} (h : ¬ IsAscii c) {b : UInt8}
    (hb : b ∈ String.utf8EncodeChar c) (p : Char → Bool) : isByteOf p b = false := by
  have hhigh : 0x80 ≤ b.toNat := by
    have hle : ¬ c.val.toNat ≤ 127 := fun hle => h (Nat.lt_succ_of_le hle)
    unfold String.utf8EncodeChar at hb
    simp only [hle, if_false] at hb
    split at hb
    · simp only [List.mem_cons, List.not_mem_nil, or_false] at hb
      rcases hb with rfl | rfl <;> rw [UInt8.toNat_ofNat'] <;> omega
    · split at hb
      · simp only [List.mem_cons, List.not_mem_nil, or_false] at hb
        rcases hb with rfl | rfl | rfl <;> rw [UInt8.toNat_ofNat'] <;> omega
      · simp only [List.mem_cons, List.not_mem_nil, or_false] at hb
        rcases hb with rfl | rfl | rfl | rfl <;> rw [UInt8.toNat_ofNat'] <;> omega
  rw [isByteOf, decide_eq_false (Nat.not_lt.2 hhigh), Bool.false_and]

/-! ## Tests of bytes -/

/-- **A test of bytes that tells what a test of characters tells**, by any byte of a character. -/
def Tells (goOn : UInt8 → Bool) (q : Char → Bool) : Prop :=
  ∀ c, ∀ b ∈ String.utf8EncodeChar c, goOn b = q c

/-- A kind of characters of ASCII. -/
def OfAscii (p : Char → Bool) : Prop := ∀ c, p c = true → IsAscii c

section

variable {goOn : UInt8 → Bool} {p q : Char → Bool} {c : Char}

/-- **Bytes tell the kinds of ASCII apart.** -/
theorem tells_isByteOf (hp : OfAscii p) : Tells (isByteOf p) p := by
  intro c b hb
  by_cases hc : IsAscii c
  · rw [encode_of_isAscii hc, List.mem_singleton] at hb
    rw [hb, isByteOf_ofNat hc]
  · rw [isByteOf_of_mem hc hb p, Bool.eq_false_iff.2 (mt (hp c) hc)]

theorem tells_not_isByteOf (hp : OfAscii p) : Tells (!isByteOf p ·) (!p ·) :=
  fun c b hb => congrArg Bool.not (tells_isByteOf hp c b hb)

/-- The byte of one character of ASCII tells that character. -/
theorem tells_ne (hc : IsAscii c) : Tells (· ≠ UInt8.ofNat c.toNat) (· ≠ c) := by
  have hkind : OfAscii (fun d => decide (d = c)) := fun d hd => of_decide_eq_true hd ▸ hc
  intro d b hb
  have htell : isByteOf (fun d => decide (d = c)) b = decide (d = c) := tells_isByteOf hkind d b hb
  show decide (b ≠ UInt8.ofNat c.toNat) = decide (d ≠ c)
  by_cases hd : d = c
  · rw [hd, encode_of_isAscii hc, List.mem_singleton] at hb
    rw [decide_eq_false (not_not_intro hb), decide_eq_false (not_not_intro hd)]
  · rw [decide_eq_false hd] at htell
    have hne : b ≠ UInt8.ofNat c.toNat := by
      rintro rfl
      rw [isByteOf_ofNat hc, decide_eq_true rfl] at htell
      cases htell
    rw [decide_eq_true hne, decide_eq_true hd]

/-- **A text of ASCII is in front of a text if its bytes are in front of the bytes.** -/
theorem encode_prefix_iff {name : List Char} (hname : AllAscii name) {cs : List Char} :
    encode name <+: encode cs ↔ name <+: cs := by
  induction name generalizing cs with
  | nil => exact iff_of_true (List.nil_prefix) (List.nil_prefix)
  | cons d name ih =>
    obtain ⟨hd, hname⟩ := List.forall_mem_cons.1 hname
    have hfirst : encode (d :: name) = UInt8.ofNat d.toNat :: encode name := by
      rw [encode_cons, encode_of_isAscii hd]
      rfl
    cases cs with
    | nil =>
      rw [hfirst]
      exact iff_of_false (List.cons_ne_nil _ _ ∘ List.prefix_nil.1)
        (List.cons_ne_nil _ _ ∘ List.prefix_nil.1)
    | cons c cs =>
      obtain ⟨b, more, hb⟩ := exists_utf8EncodeChar_eq_cons c
      have hcons : encode (c :: cs) = b :: (more ++ encode cs) := by
        rw [encode_cons, hb]
        rfl
      have htell : decide (b ≠ UInt8.ofNat d.toNat) = decide (c ≠ d) :=
        tells_ne hd c b (hb ▸ List.mem_cons_self)
      rw [decide_eq_decide, Decidable.not_iff_not] at htell
      rw [hfirst, hcons, List.cons_prefix_cons, List.cons_prefix_cons, eq_comm, htell, eq_comm]
      refine and_congr_right fun hc => ?_
      rw [← hc, encode_of_isAscii hd, List.cons.injEq] at hb
      rw [← hb.2]
      exact ih hname

/-- **The bytes that pass are those of the characters that pass.** -/
theorem Tells.takeWhile_encode (h : Tells goOn q) (cs : List Char) :
    (encode cs).takeWhile goOn = encode (cs.takeWhile q) := by
  induction cs with
  | nil => rfl
  | cons c cs ih =>
    rw [encode_cons]
    cases hq : q c with
    | true =>
      rw [List.takeWhile_append_of_pos fun b hb => (h c b hb).trans hq, ih,
        List.takeWhile_cons_of_pos hq]
      rfl
    | false =>
      obtain ⟨b, more, hb⟩ := exists_utf8EncodeChar_eq_cons c
      have hstop : goOn b = false := (h c b (hb ▸ List.mem_cons_self)).trans hq
      rw [hb, List.cons_append, List.takeWhile_cons_of_neg (by rw [hstop]; decide),
        List.takeWhile_cons_of_neg (by rw [hq]; decide)]
      rfl

end

/-! ## Places -/

/-- The byte at a place of a text. -/
def byte? (s : String) (i : Nat) : Option UInt8 := (bytes s)[i]?

/-- The bytes between two places, if they are in order and in the text. -/
def byteSlice? (s : String) (i j : Nat) : Option (List UInt8) :=
  if i ≤ j ∧ j ≤ s.utf8ByteSize then some (((bytes s).drop i).take (j - i)) else none

/-- **A place to go to**: one in the text, or its end. -/
def place? (s : String) (i : Nat) : Option Nat := if i ≤ s.utf8ByteSize then some i else none

/-- **The text between two places**, if they are in order and characters meet at both. -/
def slice? (s : String) (i j : Nat) : Option String :=
  if h : String.Pos.Raw.IsValid s ⟨i⟩ ∧ String.Pos.Raw.IsValid s ⟨j⟩ ∧ i ≤ j then
    some (s.extract (s.pos ⟨i⟩ h.1) (s.pos ⟨j⟩ h.2.1))
  else none

/-- **A place for a loop to go on to**: one that is farther on. -/
def onward? (s : String) (i j : Nat) : Option {j : Nat // i < j ∧ j ≤ s.utf8ByteSize} :=
  if h : i < j ∧ j ≤ s.utf8ByteSize then some ⟨j, h⟩ else none

/-- **A text for a loop to go on with**: one that is shorter. -/
def shorter? (s t : String) : Option {t : String // t.utf8ByteSize < s.utf8ByteSize} :=
  if h : t.utf8ByteSize < s.utf8ByteSize then some ⟨t, h⟩ else none

theorem onward?_of_lt {s : String} {i j : Nat} (hlt : i < j) (hle : j ≤ s.utf8ByteSize) :
    onward? s i j = some ⟨j, hlt, hle⟩ := dif_pos ⟨hlt, hle⟩

/-- Behind such a place less is left. -/
theorem left_lt {s : String} {i : Nat} (j : {j : Nat // i < j ∧ j ≤ s.utf8ByteSize}) :
    s.utf8ByteSize - j < s.utf8ByteSize - i :=
  Nat.sub_lt_sub_left (Nat.lt_of_lt_of_le j.2.1 j.2.2) j.2.1

/-- **Byte by byte from a place on**, as long as the bytes pass a test. -/
def walk (goOn : UInt8 → Bool) (s : String) (i : Nat) : Option Nat :=
  match byte? s i with
  | none => some i
  | some b => if goOn b then do walk goOn s (← onward? s i (i + 1)) else some i
termination_by s.utf8ByteSize - i
decreasing_by exact left_lt _

/-- **What there is between two places**: the text has to be put together from it and from what is
before and behind. -/
theorem slice?_eq_some_iff {s t : String} {i j : Nat} :
    slice? s i j = some t
      ↔ ∃ before behind, s = before ++ t ++ behind ∧ i = before.utf8ByteSize
        ∧ j = i + t.utf8ByteSize := by
  unfold slice?
  constructor
  · intro h
    split at h
    · rename_i hvalid
      have hle : s.pos ⟨i⟩ hvalid.1 ≤ s.pos ⟨j⟩ hvalid.2.1 := by
        simp [String.Pos.le_iff, String.Pos.Raw.le_iff, hvalid.2.2]
      rw [String.extract_eq_copy_slice _ _ hle] at h
      obtain ⟨before, behind, hstart, hstop⟩ :=
        String.copy_slice_eq_iff_splits.1 ⟨hle, Option.some.inj h⟩
      have hi : i = before.utf8ByteSize :=
        congrArg String.Pos.Raw.byteIdx hstart.offset_eq_rawEndPos
      have hj : j = (before ++ t).utf8ByteSize :=
        congrArg String.Pos.Raw.byteIdx hstop.offset_eq_rawEndPos
      rw [String.utf8ByteSize_append, ← hi] at hj
      exact ⟨before, behind, hstop.eq_append, hi, hj⟩
    · cases h
  · rintro ⟨before, behind, rfl, rfl, rfl⟩
    have hstart : String.Pos.Raw.IsValid (before ++ t ++ behind) ⟨before.utf8ByteSize⟩ :=
      String.Pos.Raw.isValid_iff_exists_append.2
        ⟨before, t ++ behind, String.append_assoc, rfl⟩
    have hend : before.utf8ByteSize + t.utf8ByteSize = (before ++ t).utf8ByteSize :=
      String.utf8ByteSize_append.symm
    have hstop : String.Pos.Raw.IsValid (before ++ t ++ behind)
        ⟨before.utf8ByteSize + t.utf8ByteSize⟩ :=
      String.Pos.Raw.isValid_iff_exists_append.2
        ⟨before ++ t, behind, rfl, congrArg String.Pos.Raw.mk hend⟩
    have hle : (before ++ t ++ behind).pos _ hstart ≤ (before ++ t ++ behind).pos _ hstop := by
      simp [String.Pos.le_iff, String.Pos.Raw.le_iff]
    have hsplits : ((before ++ t ++ behind).pos _ hstart).Splits before (t ++ behind)
        ∧ ((before ++ t ++ behind).pos _ hstop).Splits (before ++ t) behind :=
      ⟨⟨String.append_assoc, rfl⟩, ⟨rfl, congrArg String.Pos.Raw.mk hend⟩⟩
    obtain ⟨_, hcopy⟩ := String.copy_slice_eq_iff_splits.2 ⟨before, behind, hsplits⟩
    rw [dif_pos ⟨hstart, hstop, Nat.le_add_right _ _⟩, String.extract_eq_copy_slice _ _ hle, hcopy]

/-- Where a walk ends. -/
theorem walk_eq (goOn : UInt8 → Bool) {s : String} {i : Nat} (h : i ≤ s.utf8ByteSize) :
    walk goOn s i = some (i + (((bytes s).drop i).takeWhile goOn).length) := by
  generalize hleft : (bytes s).drop i = left
  induction left generalizing i with
  | nil =>
    have hbyte : byte? s i = none := by
      rw [byte?, List.getElem?_eq_none_iff]
      exact List.drop_eq_nil_iff.1 hleft
    rw [walk, hbyte]
    rfl
  | cons b left ih =>
    have hlt : i < (bytes s).length := by
      refine Nat.lt_of_not_le fun hle => ?_
      rw [List.drop_eq_nil_iff.2 hle] at hleft
      cases hleft
    rw [List.drop_eq_getElem_cons hlt, List.cons.injEq] at hleft
    have hbyte : byte? s i = some b := by
      rw [byte?, List.getElem?_eq_getElem hlt, hleft.1]
    have hnext : i + 1 ≤ s.utf8ByteSize := hlt
    rw [walk, hbyte]
    by_cases hgo : goOn b = true
    · rw [List.takeWhile_cons_of_pos hgo, List.length_cons]
      simp only [hgo, if_true, onward?_of_lt (Nat.lt_succ_self i) hnext, Option.bind_eq_bind,
        Option.bind_some, ih hnext hleft.2]
      rw [Nat.add_assoc, Nat.add_comm 1]
    · rw [List.takeWhile_cons_of_neg hgo]
      simp only [hgo, Bool.false_eq_true, if_false]
      rfl

/-! ## Standing where characters meet -/

/-- **A reader that has come to a place stands where characters meet**, with these characters still
before it. -/
def Stands (s : String) (i : Nat) (cs : List Char) : Prop :=
  ∃ before, s.toList = before ++ cs ∧ byteLength before = i

namespace Stands

variable {s : String} {i j : Nat} {a cs cs' : List Char} {c : Char} {p q : Char → Bool}
  {goOn : UInt8 → Bool}

/-- A reader starts in front of the whole text. -/
theorem start (s : String) : Stands s 0 s.toList := ⟨[], rfl, rfl⟩

theorem ofList (cs : List Char) : Stands (String.ofList cs) 0 cs :=
  ⟨[], String.toList_ofList, rfl⟩

/-- It ends behind it. -/
theorem finish (s : String) : Stands s s.utf8ByteSize [] :=
  ⟨s.toList, (List.append_nil _).symm, byteLength_toList s⟩

/-- **It stays where characters meet if it moves by whole characters.** -/
theorem advance (h : Stands s i (a ++ cs)) : Stands s (i + byteLength a) cs := by
  obtain ⟨before, hs, rfl⟩ := h
  exact ⟨before ++ a, by rw [hs, List.append_assoc], byteLength_append before a⟩

theorem tail (h : Stands s i (c :: cs)) : Stands s (i + c.utf8Size) cs := advance (a := [c]) h

theorem succ (h : Stands s i (c :: cs)) (hc : IsAscii c) : Stands s (i + 1) cs :=
  utf8Size_of_isAscii hc ▸ h.tail

/-- Also if it moves over the characters that pass a test. -/
theorem dropWhile (h : Stands s i cs) (q : Char → Bool) :
    Stands s (i + byteLength (cs.takeWhile q)) (cs.dropWhile q) := by
  have hsplit : Stands s i (cs.takeWhile q ++ cs.dropWhile q) := by
    rwa [List.takeWhile_append_dropWhile]
  exact hsplit.advance

/-- What is before it is all the rest. -/
theorem add_byteLength (h : Stands s i cs) : i + byteLength cs = s.utf8ByteSize := by
  obtain ⟨before, hs, rfl⟩ := h
  rw [← byteLength_append, ← hs, byteLength_toList]

theorem le (h : Stands s i cs) : i ≤ s.utf8ByteSize :=
  h.add_byteLength ▸ Nat.le_add_right i _

/-- It has come to the end where no more characters are. -/
theorem eq_size (h : Stands s i []) : i = s.utf8ByteSize := h.add_byteLength

theorem lt_size (h : Stands s i (c :: cs)) : i < s.utf8ByteSize := by
  rw [← h.add_byteLength]
  exact Nat.lt_add_of_pos_right (byteLength_pos (List.cons_ne_nil c cs))

theorem isValid (h : Stands s i cs) : String.Pos.Raw.IsValid s ⟨i⟩ := by
  obtain ⟨before, hs, rfl⟩ := h
  refine String.Pos.Raw.isValid_iff_exists_append.2
    ⟨String.ofList before, String.ofList cs, ?_, congrArg _ (utf8ByteSize_ofList before).symm⟩
  rw [← String.ofList_append, ← hs, String.ofList_toList]

/-- Of two places the one with less before it is farther on, by what is between them. -/
theorem exists_between (h : Stands s i cs) (h' : Stands s j cs')
    (hlength : cs'.length ≤ cs.length) :
    ∃ between, cs = between ++ cs' ∧ j = i + byteLength between := by
  obtain ⟨before, hs, rfl⟩ := h
  obtain ⟨before', hs', rfl⟩ := h'
  have htotal : before.length + cs.length = before'.length + cs'.length := by
    rw [← List.length_append, ← hs, hs', List.length_append]
  obtain ⟨between, rfl⟩ : before <+: before' :=
    List.prefix_of_prefix_length_le (hs ▸ List.prefix_append before cs)
      (hs' ▸ List.prefix_append before' cs') (by omega)
  rw [hs, List.append_assoc] at hs'
  exact ⟨between, List.append_cancel_left hs', byteLength_append before between⟩

/-- What is before it says where it has come to. -/
theorem place_unique (h : Stands s i cs) (h' : Stands s j cs) : i = j :=
  Nat.add_right_cancel (h.add_byteLength.trans h'.add_byteLength.symm)

theorem le_of_length_le (h : Stands s i cs) (h' : Stands s j cs')
    (hlength : cs'.length ≤ cs.length) : i ≤ j := by
  obtain ⟨between, _, rfl⟩ := h.exists_between h' hlength
  exact Nat.le_add_right i _

theorem lt_of_length_lt (h : Stands s i cs) (h' : Stands s j cs')
    (hlength : cs'.length < cs.length) : i < j := by
  obtain ⟨between, rfl, rfl⟩ := h.exists_between h' (Nat.le_of_lt hlength)
  refine Nat.lt_add_of_pos_right (byteLength_pos ?_)
  rintro rfl
  exact Nat.lt_irrefl _ hlength

/-- The bytes that are before it are those of the characters. -/
theorem drop_bytes (h : Stands s i cs) : (bytes s).drop i = encode cs := by
  obtain ⟨before, hs, rfl⟩ := h
  rw [bytes_eq, hs, encode_append, ← length_encode, List.drop_left]

theorem place? (h : Stands s i cs) : place? s i = some i := if_pos h.le

theorem onward? (h : Stands s j cs) (hlt : i < j) : onward? s i j = some ⟨j, hlt, h.le⟩ :=
  onward?_of_lt hlt h.le

/-- Where it has moved, less is left than the whole text. -/
theorem utf8ByteSize_lt (h : Stands s i cs) (hpos : 0 < i) :
    (String.ofList cs).utf8ByteSize < s.utf8ByteSize := by
  rw [utf8ByteSize_ofList, ← h.add_byteLength]
  exact Nat.lt_add_of_pos_left hpos

theorem shorter? (h : Stands s i cs) (hpos : 0 < i) :
    shorter? s (String.ofList cs) = some ⟨String.ofList cs, h.utf8ByteSize_lt hpos⟩ :=
  dif_pos (h.utf8ByteSize_lt hpos)

theorem byte?_eq (h : Stands s i cs) : byte? s i = (encode cs).head? := by
  rw [byte?, ← h.drop_bytes, List.head?_drop]

theorem byte?_nil (h : Stands s i []) : byte? s i = none := h.byte?_eq

/-- The byte in front of it is one of the character there. -/
theorem byte?_cons (h : Stands s i (c :: cs)) :
    ∃ b ∈ String.utf8EncodeChar c, byte? s i = some b := by
  obtain ⟨b, more, hb⟩ := exists_utf8EncodeChar_eq_cons c
  refine ⟨b, hb ▸ List.mem_cons_self, ?_⟩
  rw [h.byte?_eq, encode_cons, hb]
  rfl

/-- **The byte in front of it tells the kinds of ASCII that the character there is of.** -/
theorem any_byte? (h : Stands s i cs) (hp : OfAscii p) :
    (byte? s i).any (isByteOf p) = cs.head?.any p := by
  cases cs with
  | nil => rw [h.byte?_nil, List.head?_nil, Option.any_none, Option.any_none]
  | cons c cs =>
    obtain ⟨b, hb, hbyte⟩ := h.byte?_cons
    rw [hbyte, List.head?_cons, Option.any_some, Option.any_some, tells_isByteOf hp c b hb]

theorem all_byte? (h : Stands s i cs) (hp : OfAscii p) :
    (byte? s i).all (isByteOf p) = cs.head?.all p := by
  cases cs with
  | nil => rw [h.byte?_nil, List.head?_nil, Option.all_none, Option.all_none]
  | cons c cs =>
    obtain ⟨b, hb, hbyte⟩ := h.byte?_cons
    rw [hbyte, List.head?_cons, Option.all_some, Option.all_some, tells_isByteOf hp c b hb]

theorem byte?_of_isAscii (h : Stands s i (c :: cs)) (hc : IsAscii c) :
    byte? s i = some (UInt8.ofNat c.toNat) := by
  rw [h.byte?_eq, encode_cons, encode_of_isAscii hc]
  rfl

/-- **What is read between two such places is the text there.** -/
theorem slice? (h : Stands s i (a ++ cs)) :
    slice? s i (i + byteLength a) = some (String.ofList a) := by
  obtain ⟨before, hs, rfl⟩ := h
  refine slice?_eq_some_iff.2 ⟨String.ofList before, String.ofList cs, ?_,
    (utf8ByteSize_ofList before).symm, by rw [utf8ByteSize_ofList]⟩
  rw [← String.ofList_append, ← String.ofList_append, List.append_assoc, ← hs,
    String.ofList_toList]

/-- So is what has passed a test. -/
theorem slice?_takeWhile (h : Stands s i cs) (q : Char → Bool) :
    Text.slice? s i (i + byteLength (cs.takeWhile q)) = some (String.ofList (cs.takeWhile q)) := by
  have hsplit : Stands s i (cs.takeWhile q ++ cs.dropWhile q) := by
    rwa [List.takeWhile_append_dropWhile]
  exact hsplit.slice?

/-- So is what is read up to the end. -/
theorem rest (h : Stands s i cs) : Text.slice? s i s.utf8ByteSize = some (String.ofList cs) := by
  have hall : Stands s i (cs ++ []) := (List.append_nil cs).symm ▸ h
  rw [← h.add_byteLength, hall.slice?]

/-- **A walk by a test of bytes ends where characters meet.** -/
theorem walk (h : Stands s i cs) (htells : Tells goOn q) :
    walk goOn s i = some (i + byteLength (cs.takeWhile q)) := by
  rw [walk_eq goOn h.le, h.drop_bytes, htells.takeWhile_encode, length_encode]

/-- **So does a walk that starts inside a character**, if it is one up to a character of ASCII. -/
theorem walk_behind (h : Stands s i (c :: cs)) (hp : OfAscii p) :
    Text.walk (!isByteOf p ·) s (i + 1)
      = some (i + byteLength (c :: cs.takeWhile (!p ·))) := by
  obtain ⟨b, more, hb⟩ := exists_utf8EncodeChar_eq_cons c
  have hsize : more.length + 1 = c.utf8Size := by
    rw [← String.length_utf8EncodeChar, hb, List.length_cons]
  -- The other bytes of the character, if it has more than one, are none of ASCII.
  have hinside : ∀ b' ∈ more, (!isByteOf p b') = true := by
    intro b' hb'
    by_cases hc : IsAscii c
    · rw [encode_of_isAscii hc, List.cons.injEq] at hb
      rw [← hb.2] at hb'
      cases hb'
    · exact congrArg Bool.not (isByteOf_of_mem hc (hb ▸ List.mem_cons_of_mem b hb') p)
  have hdrop : (bytes s).drop (i + 1) = more ++ encode cs := by
    rw [← List.drop_drop, h.drop_bytes, encode_cons, hb]
    rfl
  rw [walk_eq _ (Nat.succ_le_of_lt h.lt_size), hdrop, List.takeWhile_append_of_pos hinside,
    (tells_not_isByteOf hp).takeWhile_encode, List.length_append, length_encode, byteLength_cons,
    ← hsize]
  congr 1
  omega

end Stands

end SafePreview.Text
