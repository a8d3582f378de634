import SafePreview.Proofs.Markup.Bytewise

/-!
# Raw text

Behind the start tag of a raw-text element everything up to its end tag is passed over. What that
is can be said without a search: `IsRawContent name content behind` holds if no end tag of the
element starts in `content` and one is in front of `behind`, unless nothing is. The stream passes
over just that (`exists_isRawContent`).

The reader of bytes searches in its own way. It compares bytes with the name at one place after the
other, those inside characters included, and stops where too few bytes are left. It finds the same
end (`exists_rawEndAt`): an end tag starts with a `<`, which is in no other character, and putting
bytes in lower case is putting characters in lower case (`map_lowerByte_encode`).
-/

namespace SafePreview.Markup

open Text (byte? byteSlice? isByteOf IsAscii AllAscii Stands byteLength)

/-! ## What is passed over -/

/-- **The end tag of a raw-text element**: the name in some case of letters between `</` and
something that ends a name, or the end of the text. Nothing ends `plaintext`. -/
def EndsRawText (name cs : List Char) : Prop :=
  name ≠ ['p', 'l', 'a', 'i', 'n', 't', 'e', 'x', 't'] ∧
    ∃ spelled behind, cs = '<' :: '/' :: (spelled ++ behind) ∧ lowerName spelled = name
      ∧ ∀ c ∈ behind.head?, endsTagName c = true

/-- **The content of a raw-text element**, in front of what is behind it: no end tag of the element
stands in it, and one is next, unless the text ends. -/
structure IsRawContent (name content behind : List Char) : Prop where
  noEnd : ∀ u v, content = u ++ v → v ≠ [] → ¬ EndsRawText name (v ++ behind)
  ended : behind ≠ [] → EndsRawText name behind

theorem closes_slash (name rest : List Char) :
    closes name ('<' :: '/' :: rest)
      = (lowerName (rest.take name.length) = name
          && (rest.drop name.length).head?.all endsTagName) := by
  simp only [closes]
  cases rest.drop name.length <;> rfl

/-- Without the mark of an end tag there is none. -/
theorem closes_eq_false {name cs : List Char} (h : ¬ ['<', '/'] <+: cs) :
    closes name cs = false := by
  unfold closes
  split
  · rename_i rest
    exact absurd ⟨rest, rfl⟩ h
  · rfl

/-- What the stream looks for is an end tag. -/
theorem closes_iff {name cs : List Char} :
    closes name cs = true
      ↔ ∃ spelled behind, cs = '<' :: '/' :: (spelled ++ behind) ∧ lowerName spelled = name
        ∧ ∀ c ∈ behind.head?, endsTagName c = true := by
  constructor
  · intro h
    by_cases hslash : ['<', '/'] <+: cs
    · obtain ⟨rest, rfl⟩ := hslash
      rw [List.cons_append, List.singleton_append, closes_slash, Bool.and_eq_true,
        decide_eq_true_iff] at h
      refine ⟨rest.take name.length, rest.drop name.length, ?_, h.1, (Option.all_eq_true _ _).1 h.2⟩
      rw [List.take_append_drop]
      rfl
    · rw [closes_eq_false hslash] at h
      cases h
  · rintro ⟨spelled, behind, rfl, rfl, hbehind⟩
    have hlength : (lowerName spelled).length = spelled.length := List.length_map _
    rw [closes_slash, hlength, List.take_left, List.drop_left, decide_eq_true rfl, Bool.true_and]
    exact (Option.all_eq_true _ _).2 hbehind

theorem endsRawText_iff {name cs : List Char} :
    EndsRawText name cs
      ↔ name ≠ ['p', 'l', 'a', 'i', 'n', 't', 'e', 'x', 't'] ∧ closes name cs = true :=
  and_congr_right fun _ => closes_iff.symm

/-- **What the stream passes over is the content of the element.** -/
theorem exists_isRawContent (name cs : List Char) :
    ∃ content, cs = content ++ skipRawText name cs
      ∧ IsRawContent name content (skipRawText name cs) := by
  induction cs with
  | nil =>
    refine ⟨[], rfl, fun u v huv hv => ?_, fun h => absurd rfl h⟩
    exact absurd (List.append_eq_nil_iff.1 huv.symm).2 hv
  | cons c cs ih =>
    by_cases hends : EndsRawText name (c :: cs)
    · have hself : skipRawText name (c :: cs) = c :: cs := by
        rw [skipRawText, if_pos (endsRawText_iff.1 hends)]
      rw [hself]
      refine ⟨[], rfl, fun u v huv hv => ?_, fun _ => hends⟩
      exact absurd (List.append_eq_nil_iff.1 huv.symm).2 hv
    · have hskip : skipRawText name (c :: cs) = skipRawText name cs := by
        rw [skipRawText, if_neg (mt endsRawText_iff.2 hends)]
      obtain ⟨content, hcs, hcontent⟩ := ih
      rw [hskip]
      refine ⟨c :: content, congrArg (c :: ·) hcs, fun u v huv hv => ?_, hcontent.ended⟩
      rcases List.cons_eq_append_iff.1 huv with ⟨rfl, rfl⟩ | ⟨u', rfl, huv'⟩
      · rw [List.cons_append, ← hcs]
        exact hends
      · exact hcontent.noEnd u' v huv' hv

/-- The content of `plaintext` has no end. -/
theorem skipRawText_plaintext (cs : List Char) :
    skipRawText ['p', 'l', 'a', 'i', 'n', 't', 'e', 'x', 't'] cs = [] := by
  induction cs with
  | nil => rfl
  | cons c cs ih => rw [skipRawText, if_neg (fun h => h.1 rfl), ih]

/-! ## Finding the end by bytes -/

/-- The names of raw-text elements are in lower case and of ASCII. -/
theorem allAscii_and_lowerName_of_isRawText {name : List Char} (h : isRawText name = true) :
    AllAscii name ∧ lowerName name = name := by
  have hall : ∀ tag ∈ rawTextTags,
      AllAscii tag.toList ∧ lowerName tag.toList = tag.toList := by decide
  have htag := hall _ (List.contains_iff_mem.1 h)
  rwa [String.toList_ofList] at htag

/-- A character of ASCII and its byte have the same small letter. -/
theorem lowerByte_ofNat {c : Char} (h : IsAscii c) :
    IsAscii c.toLower ∧ lowerByte (UInt8.ofNat c.toNat) = UInt8.ofNat c.toLower.toNat := by
  have hall : ∀ n : Fin 0x80, IsAscii (Char.ofNat n).toLower
      ∧ lowerByte (UInt8.ofNat n) = UInt8.ofNat (Char.ofNat n).toLower.toNat := by decide +kernel
  have hc := hall ⟨c.toNat, h⟩
  rwa [Char.ofNat_toNat] at hc

/-- Other characters, and their bytes, have no other case. -/
theorem toLower_of_not_isAscii {c : Char} (h : ¬ IsAscii c) : c.toLower = c :=
  Text.toLower_of_not_upper fun hupper => h (isAscii_of_le (by decide) hupper.2)

theorem lowerByte_of_mem {c : Char} (h : ¬ IsAscii c) {b : UInt8}
    (hb : b ∈ String.utf8EncodeChar c) : lowerByte b = b := by
  have hhigh : ¬ b.toNat < 0x80 := by
    have hother := Text.isByteOf_of_mem h hb fun _ => true
    rwa [isByteOf, Bool.and_true, decide_eq_false_iff_not] at hother
  refine if_neg fun hupper => hhigh ?_
  exact Nat.lt_of_le_of_lt (UInt8.le_iff_toNat_le.1 hupper.2) (by decide)

/-- **Bytes in lower case are those of the characters in lower case.** -/
theorem map_lowerByte_encode (cs : List Char) :
    (Text.encode cs).map lowerByte = Text.encode (lowerName cs) := by
  induction cs with
  | nil => rfl
  | cons c cs ih =>
    have hcons : lowerName (c :: cs) = c.toLower :: lowerName cs := rfl
    rw [hcons, Text.encode_cons, Text.encode_cons, List.map_append, ih]
    congr 1
    by_cases hc : IsAscii c
    · rw [Text.encode_of_isAscii hc, Text.encode_of_isAscii (lowerByte_ofNat hc).1,
        List.map_singleton, (lowerByte_ofNat hc).2]
    · rw [toLower_of_not_isAscii hc]
      have hself : ∀ b ∈ String.utf8EncodeChar c, lowerByte b = id b :=
        fun b hb => lowerByte_of_mem hc hb
      rw [List.map_congr_left hself, List.map_id]

section

variable {name : List Char} {s : String} {i : Nat} {c : Char} {cs : List Char}

/-- A name is spelled where its letters are, in any case. -/
theorem lowerName_take_eq_iff : lowerName (cs.take name.length) = name ↔ name <+: lowerName cs := by
  rw [List.prefix_iff_eq_take, lowerName, lowerName, List.map_take, eq_comm]

/-- The text that spells a name has as many bytes as the name. -/
theorem byteLength_of_lowerName (hname : AllAscii name) {spelled : List Char}
    (h : lowerName spelled = name) : byteLength spelled = byteLength name := by
  have hspelled : AllAscii spelled := by
    intro c hc
    refine Decidable.byContradiction fun hno => hno ?_
    rw [← toLower_of_not_isAscii hno]
    exact hname _ (h ▸ List.mem_map_of_mem hc)
  rw [Text.byteLength_of_allAscii hspelled, Text.byteLength_of_allAscii hname, ← h, lowerName,
    List.length_map]

/-- The bytes of an end tag can be read where it fits. -/
theorem closesAt_of_le (hfits : i + 2 + byteLength name ≤ s.utf8ByteSize) :
    closesAt name s i
      = some (((Text.bytes s).drop i).take 2 = Text.encode ['<', '/']
          && (((Text.bytes s).drop (i + 2)).take (byteLength name)).map lowerByte
            = (Text.encode name).map lowerByte
          && (byte? s (i + 2 + byteLength name)).all (isByteOf endsTagName)) := by
  have hopening : byteSlice? s i (i + 2) = some (((Text.bytes s).drop i).take 2) := by
    rw [byteSlice?, if_pos ⟨by omega, by omega⟩, Nat.add_sub_cancel_left]
  have hspelled : byteSlice? s (i + 2) (i + 2 + byteLength name)
      = some (((Text.bytes s).drop (i + 2)).take (byteLength name)) := by
    rw [byteSlice?, if_pos ⟨by omega, hfits⟩, Nat.add_sub_cancel_left]
  unfold closesAt
  simp only [hopening, hspelled, Option.bind_eq_bind, Option.bind_some]

/-- **An end tag is told by its bytes.** -/
theorem closesAt_eq (hraw : isRawText name = true) (h : Stands s i (c :: cs))
    (hfits : i + 2 + byteLength name ≤ s.utf8ByteSize) :
    closesAt name s i = some (closes name (c :: cs)) := by
  obtain ⟨hascii, hlower⟩ := allAscii_and_lowerName_of_isRawText hraw
  have hmark : (Text.encode (c :: cs)).take 2 = Text.encode ['<', '/']
      ↔ ['<', '/'] <+: c :: cs := by
    rw [← Text.encode_prefix_iff (by decide), List.prefix_iff_eq_take, eq_comm]
    rfl
  by_cases hslash : ['<', '/'] <+: c :: cs
  · obtain ⟨rest, hrest⟩ := hslash
    rw [← hrest] at h hmark ⊢
    have hbehind : Stands s (i + 2) rest := (h.succ (by decide)).succ (by decide)
    have hname : (((Text.bytes s).drop (i + 2)).take (byteLength name)).map lowerByte
          = (Text.encode name).map lowerByte ↔ lowerName (rest.take name.length) = name := by
      rw [lowerName_take_eq_iff, ← Text.encode_prefix_iff hascii, List.prefix_iff_eq_take,
        Text.length_encode, hbehind.drop_bytes, List.map_take, map_lowerByte_encode,
        map_lowerByte_encode, hlower, eq_comm]
    show _ = some (closes name ('<' :: '/' :: rest))
    rw [closesAt_of_le hfits, h.drop_bytes, closes_slash,
      decide_eq_true (hmark.2 (List.prefix_append _ _)), Bool.true_and, decide_eq_decide.2 hname]
    by_cases hspelling : lowerName (rest.take name.length) = name
    · have hsplit : Stands s (i + 2) (rest.take name.length ++ rest.drop name.length) := by
        rwa [List.take_append_drop]
      have hafter := hsplit.advance
      rw [byteLength_of_lowerName hascii hspelling] at hafter
      rw [hafter.all_byte? ofAscii_endsTagName]
    · rw [decide_eq_false hspelling, Bool.false_and, Bool.false_and]
  · rw [closesAt_of_le hfits, h.drop_bytes, closes_eq_false hslash,
      decide_eq_false (mt hmark.1 hslash), Bool.false_and, Bool.false_and]

/-- An end tag fits into the text that it stands in. -/
theorem le_of_closes (hname : AllAscii name) (h : Stands s i cs)
    (hcloses : closes name cs = true) : i + 2 + byteLength name ≤ s.utf8ByteSize := by
  obtain ⟨spelled, behind, rfl, hspelled, _⟩ := closes_iff.1 hcloses
  have hbehind : Stands s (i + 2) (spelled ++ behind) := (h.succ (by decide)).succ (by decide)
  rw [← byteLength_of_lowerName hname hspelled]
  exact hbehind.advance.le

/-- Where no end tag stands it is looked for one byte on. -/
theorem rawEndAt_succ (hlt : i < s.utf8ByteSize)
    (hno : i + 2 + byteLength name ≤ s.utf8ByteSize → closesAt name s i = some false) :
    rawEndAt name s i = rawEndAt name s (i + 1) := by
  have honward := Text.onward?_of_lt (Nat.lt_succ_self i) hlt
  by_cases hfits : i + 2 + byteLength name ≤ s.utf8ByteSize
  · rw [rawEndAt, if_pos hfits]
    simp only [hno hfits, honward, Option.bind_eq_bind, Option.bind_some, Bool.false_eq_true,
      if_false]
  · rw [rawEndAt, rawEndAt, if_neg hfits, if_neg (by omega)]

/-- No end tag starts with another character, nor inside it. -/
theorem rawEndAt_append {more left : List UInt8} (hdrop : (Text.bytes s).drop i = more ++ left)
    (hmore : ∀ b ∈ more, b ≠ UInt8.ofNat '<'.toNat) :
    rawEndAt name s i = rawEndAt name s (i + more.length) := by
  induction more generalizing i with
  | nil => rfl
  | cons b more ih =>
    obtain ⟨hb, hmore⟩ := List.forall_mem_cons.1 hmore
    have hlt : i < s.utf8ByteSize := by
      refine Nat.lt_of_not_le fun hle => ?_
      have hnil : (Text.bytes s).drop i = [] := List.drop_eq_nil_iff.2 hle
      rw [hnil] at hdrop
      cases hdrop
    have hno : i + 2 + byteLength name ≤ s.utf8ByteSize → closesAt name s i = some false := by
      intro hfits
      have hother : (b :: more ++ left).take 2 ≠ Text.encode ['<', '/'] := fun heq =>
        hb (List.cons.inj heq).1
      rw [closesAt_of_le hfits, hdrop, decide_eq_false hother, Bool.false_and, Bool.false_and]
    have hbehind : (Text.bytes s).drop (i + 1) = more ++ left := by
      rw [← List.drop_drop, hdrop]
      rfl
    rw [rawEndAt_succ hlt hno, ih hbehind hmore, List.length_cons, Nat.add_assoc, Nat.add_comm 1]

/-- **The end of raw text is found by its bytes**, though they are tried one after the other. -/
theorem exists_rawEndAt (hraw : isRawText name = true)
    (hends : name ≠ ['p', 'l', 'a', 'i', 'n', 't', 'e', 'x', 't']) (h : Stands s i cs) :
    ∃ j, rawEndAt name s i = some j ∧ Stands s j (skipRawText name cs) := by
  have hascii := (allAscii_and_lowerName_of_isRawText hraw).1
  induction cs generalizing i with
  | nil =>
    have hend : ¬ i + 2 + byteLength name ≤ s.utf8ByteSize := by
      rw [h.eq_size]
      omega
    rw [rawEndAt, if_neg hend]
    exact ⟨_, rfl, Stands.finish s⟩
  | cons c cs ih =>
    by_cases hcloses : closes name (c :: cs) = true
    · have hfits := le_of_closes hascii h hcloses
      rw [rawEndAt, if_pos hfits, closesAt_eq hraw h hfits, hcloses, skipRawText,
        if_pos ⟨hends, hcloses⟩]
      exact ⟨i, rfl, h⟩
    · have hnext : rawEndAt name s i = rawEndAt name s (i + c.utf8Size) := by
        by_cases hc : c = '<'
        · have hsize : c.utf8Size = 1 := hc ▸ rfl
          rw [hsize]
          refine rawEndAt_succ h.lt_size fun hfits => ?_
          rw [closesAt_eq hraw h hfits, Bool.eq_false_iff.2 hcloses]
        · rw [← String.length_utf8EncodeChar]
          refine rawEndAt_append h.drop_bytes fun b hb => ?_
          exact of_decide_eq_true
            ((Text.tells_ne (c := '<') (by decide) c b hb).trans (decide_eq_true hc))
      rw [skipRawText, if_neg (fun hend => hcloses hend.2), hnext]
      exact ih h.tail

end

end SafePreview.Markup
