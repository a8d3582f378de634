import SafePreview.Proofs.Preview.Outline

/-!
# Fragments are outlines

Each kind of block has one outline (`Kind.outline`), its fragment is that outline written down
(`Kind.fragment_eq`), and the outline is read as it is meant (`Kind.isPlain_outline`). Everything
that is known of outlines is therefore known of fragments.

Texts and addresses are escaped, so nothing has to be known of them. A colour and a font size are
written as they stand, and it has to be known of them that they need no escaping: what stands in a
style is small letters, digits and a few marks (`IsStyleChar`).
-/

namespace SafePreview

open Markup

/-! ## Texts of blocks -/

/-- No NUL is left in a text. -/
theorem nul_notMem_normaliseLines (cs : List Char) : '\x00' ∉ normaliseLines cs := by
  fun_induction normaliseLines cs with
  | case1 => exact List.not_mem_nil
  | case2 rest ih => exact List.not_mem_cons_of_ne_of_not_mem (by decide) ih
  | case3 rest _ ih => exact List.not_mem_cons_of_ne_of_not_mem (by decide) ih
  | case4 rest _ _ ih => exact ih
  | case5 c rest _ _ hnul ih => exact List.not_mem_cons_of_ne_of_not_mem (Ne.symm hnul) ih

/-! ## Styles of blocks -/

/-- **A character of a style**: a small letter, a digit or one of a few marks. -/
def IsStyleChar (c : Char) : Prop :=
  ('a' ≤ c ∧ c ≤ 'z') ∨ ('0' ≤ c ∧ c ≤ '9') ∨ c ∈ ['#', ' ', ':', '-']

instance (c : Char) : Decidable (IsStyleChar c) := inferInstanceAs (Decidable (_ ∨ _))

/-- Markup has no use for the characters of a style. -/
theorem IsStyleChar.notMem {c : Char} (h : IsStyleChar c) :
    c ∉ ['"', '&', '<', '>', '\x00'] := by
  intro hmem
  simp only [List.mem_cons, List.not_mem_nil, or_false] at hmem
  rcases hmem with rfl | rfl | rfl | rfl | rfl
  all_goals
    rcases h with hletter | hdigit | hmark
    · exact absurd hletter (by decide)
    · exact absurd hdigit (by decide)
    · exact absurd hmark (by decide)

/-- A style is written as it stands. -/
theorem escapeValue_eq_self {cs : List Char} (h : ∀ c ∈ cs, IsStyleChar c) :
    escapeValue cs = cs := by
  induction cs with
  | nil => rfl
  | cons c cs ih =>
    have hc := (h c List.mem_cons_self).notMem
    simp only [List.mem_cons, List.not_mem_nil, or_false, not_or] at hc
    rw [escapeValue_cons, ih fun d hd => h d (List.mem_cons_of_mem c hd), escapeValueChar,
      if_neg hc.1, escapeTextChar, if_neg hc.2.1, if_neg hc.2.2.1, if_neg hc.2.2.2.1]
    rfl

/-- Letters and digits in lower case are small letters and digits. -/
theorem letter_or_digit_toLower {c : Char}
    (h : ('a' ≤ c ∧ c ≤ 'z') ∨ ('A' ≤ c ∧ c ≤ 'Z') ∨ ('0' ≤ c ∧ c ≤ '9')) :
    ('a' ≤ c.toLower ∧ c.toLower ≤ 'z') ∨ ('0' ≤ c.toLower ∧ c.toLower ≤ '9') := by
  rcases h with hlower | hupper | hdigit
  · rw [Text.toLower_of_not_upper fun hupper =>
      absurd (Char.le_trans hlower.1 hupper.2) (by decide)]
    exact .inl hlower
  · exact .inl (Text.toLower_of_upper hupper)
  · rw [Text.toLower_of_not_upper fun hupper =>
      absurd (Char.le_trans hupper.1 hdigit.2) (by decide)]
    exact .inr hdigit

/-- A hexadecimal digit is a letter or a digit. -/
theorem letter_or_digit_of_isHexDigit {c : Char} (h : Text.isHexDigit c = true) :
    ('a' ≤ c ∧ c ≤ 'z') ∨ ('A' ≤ c ∧ c ≤ 'Z') ∨ ('0' ≤ c ∧ c ≤ '9') := by
  rcases Text.isHexDigit_iff.1 h with hdigit | hlower | hupper
  · exact .inr (.inr hdigit)
  · exact .inl ⟨hlower.1, Char.le_trans hlower.2 (by decide)⟩
  · exact .inr (.inl ⟨hupper.1, Char.le_trans hupper.2 (by decide)⟩)

/-- **A colour is small letters, digits and a number sign.** -/
theorem Colour.mem_text (colour : Colour) {c : Char} (hc : c ∈ colour.text.toList) :
    ('a' ≤ c ∧ c ≤ 'z') ∨ ('0' ≤ c ∧ c ≤ '9') ∨ c = '#' := by
  obtain ⟨cs, hwritten, htext⟩ := colour.written
  rw [htext, String.toList_ofList] at hc
  obtain ⟨d, hd, rfl⟩ := List.mem_map.1 hc
  rcases Bool.or_eq_true_iff.1 hwritten with hhex | hkeyword
  · unfold isHex at hhex
    split at hhex
    · rename_i digits
      rcases List.mem_cons.1 hd with rfl | hd
      · exact .inr (.inr (by decide))
      · have hdigit := List.all_eq_true.1 (Bool.and_eq_true_iff.1 hhex).1 d hd
        exact (letter_or_digit_toLower (letter_or_digit_of_isHexDigit hdigit)).imp_right .inl
    · cases hhex
  · rw [isKeyword, Bool.and_eq_true, Bool.and_eq_true] at hkeyword
    have hletter := Text.isLetter_iff.1 (List.all_eq_true.1 hkeyword.1.1 d hd)
    exact (letter_or_digit_toLower (hletter.imp_right .inl)).imp_right .inl

/-- The characters of a colour are characters of a style. -/
theorem Colour.isStyleChar (colour : Colour) : ∀ c ∈ colour.text.toList, IsStyleChar c := by
  intro c hc
  rcases colour.mem_text hc with hletter | hdigit | rfl
  · exact .inl hletter
  · exact .inr (.inl hdigit)
  · exact .inr (.inr (by decide))

/-- **A size is digits and its unit.** -/
theorem FontSize.mem_text (size : FontSize) {c : Char} (hc : c ∈ size.text.toList) :
    ('0' ≤ c ∧ c ≤ '9') ∨ c ∈ ['p', 'x'] := by
  have htext : size.text.toList = Nat.toDigits 10 size.pixels ++ ['p', 'x'] := by
    rw [text, String.toList_append, Nat.toString_eq_repr, Nat.repr_eq_ofList_toDigits,
      String.toList_ofList]
    rfl
  rw [htext] at hc
  refine (List.mem_append.1 hc).imp_left fun hc => ?_
  have hdigit := Nat.isDigit_of_mem_toDigits (by decide) (by decide) hc
  rwa [Char.isDigit, Bool.and_eq_true, decide_eq_true_iff, decide_eq_true_iff] at hdigit

/-- The characters of a size are characters of a style. -/
theorem FontSize.isStyleChar (size : FontSize) : ∀ c ∈ size.text.toList, IsStyleChar c := by
  intro c hc
  rcases size.mem_text hc with hdigit | hunit
  · exact .inr (.inl hdigit)
  · simp only [List.mem_cons, List.not_mem_nil, or_false] at hunit
    rcases hunit with rfl | rfl
    · exact .inl (by decide)
    · exact .inl (by decide)

/-! ## Outlines of blocks -/

/-- The style of a colour or of a size. -/
def styleOf (property value : String) : Attribute :=
  ⟨['s', 't', 'y', 'l', 'e'], (property ++ value).toList⟩

/-- **The outline of a block.** -/
def Kind.outline : Kind → Outline
  | .text content => ⟨['p'], [], some (normaliseLines content.toList)⟩
  | .heading level content => ⟨'h' :: level.text.toList, [], some (normaliseLines content.toList)⟩
  | .image url altText =>
    ⟨['i', 'm', 'g'], [⟨['s', 'r', 'c'], normaliseLines url.toList⟩,
      ⟨['a', 'l', 't'], normaliseLines altText.toList⟩], none⟩
  | .link url label =>
    ⟨['a'], [⟨['h', 'r', 'e', 'f'], normaliseLines url.toList⟩], some (normaliseLines label.toList)⟩
  | .color value content =>
    ⟨['s', 'p', 'a', 'n'], [styleOf "color: " value.text], some (normaliseLines content.toList)⟩
  | .fontSize size content =>
    ⟨['s', 'p', 'a', 'n'], [styleOf "font-size: " size.text],
      some (normaliseLines content.toList)⟩

/-- Every character of a property and its value is one of a style. -/
theorem isStyleChar_styleOf {property value : String}
    (hproperty : ∀ c ∈ property.toList, IsStyleChar c)
    (hvalue : ∀ c ∈ value.toList, IsStyleChar c) :
    ∀ c ∈ (styleOf property value).value, IsStyleChar c := by
  intro c hc
  rw [styleOf, String.toList_append] at hc
  rcases List.mem_append.1 hc with hc | hc
  · exact hproperty c hc
  · exact hvalue c hc

/-- The style of a colour. -/
theorem isStyleChar_color (colour : Colour) :
    ∀ c ∈ (styleOf "color: " colour.text).value, IsStyleChar c :=
  isStyleChar_styleOf (by simp [IsStyleChar]) colour.isStyleChar

/-- The style of a size. -/
theorem isStyleChar_fontSize (size : FontSize) :
    ∀ c ∈ (styleOf "font-size: " size.text).value, IsStyleChar c :=
  isStyleChar_styleOf (by simp [IsStyleChar]) size.isStyleChar

/-- An element without attributes. -/
theorem element_eq (name content : String) :
    element name "" content
      = (Outline.mk name.toList [] (some (normaliseLines content.toList))).written := by
  simp [element, Outline.written, startTagText, endTagText, writtenText]

/-- An element with a style. -/
theorem element_style_eq {property value : String}
    (h : ∀ c ∈ (styleOf property value).value, IsStyleChar c) (content : String) :
    element "span" (" style=\"" ++ property ++ value ++ "\"") content
      = (Outline.mk ['s', 'p', 'a', 'n'] [styleOf property value]
          (some (normaliseLines content.toList))).written := by
  have hescaped : (styleOf property value).written
      = ⟨['s', 't', 'y', 'l', 'e'], (property ++ value).toList⟩ :=
    congrArg (WrittenAttribute.mk _) (escapeValue_eq_self h)
  simp only [Outline.written, List.map_cons, List.map_nil, hescaped]
  simp [element, startTagText, endTagText, writtenText, WrittenAttribute.text]

/-- **A fragment is its outline written down.** -/
theorem Kind.fragment_eq (kind : Kind) : kind.fragment = kind.outline.written := by
  cases kind with
  | text content => exact element_eq "p" content
  | heading level content =>
    have hname : ("h" ++ level.text).toList = 'h' :: level.text.toList := by simp
    show element ("h" ++ level.text) "" content = _
    rw [element_eq, hname, outline]
  | image url altText =>
    show "<img src=\"".toList ++ writtenValue url ++ "\" alt=\"".toList ++ writtenValue altText
      ++ "\">".toList = _
    simp [outline, Outline.written, startTagText, WrittenAttribute.text, Attribute.written,
      writtenValue]
  | link url label =>
    show "<a href=\"".toList ++ writtenValue url ++ "\">".toList ++ writtenText label
      ++ "</a>".toList = _
    simp [outline, Outline.written, startTagText, endTagText, WrittenAttribute.text,
      Attribute.written, writtenValue, writtenText]
  | color value content =>
    have hsplit : " style=\"color: " = " style=\"" ++ "color: " := by decide
    show element "span" (" style=\"color: " ++ value.text ++ "\"") content = _
    rw [hsplit, element_style_eq (isStyleChar_color value), outline]
  | fontSize size content =>
    have hsplit : " style=\"font-size: " = " style=\"" ++ "font-size: " := by decide
    show element "span" (" style=\"font-size: " ++ size.text ++ "\"") content = _
    rw [hsplit, element_style_eq (isStyleChar_fontSize size), outline]

/-- A level is one of six digits. -/
theorem HeadingLevel.text_mem (level : HeadingLevel) :
    level.text.toList ∈ [['1'], ['2'], ['3'], ['4'], ['5'], ['6']] := by
  have hone := level.one_le
  have hsix := level.le_six
  have hvalue : level.value ∈ [1, 2, 3, 4, 5, 6] := by simp only [List.mem_cons]; omega
  rw [text]
  generalize level.value = n at hvalue
  revert n
  decide

/-- What is to be known of the names in an outline can be computed. -/
theorem Outline.isPlain_of_checks {o : Outline}
    (hname : isTagName o.name = true) (hraw : isRawText o.name = false)
    (hvoid : isVoid o.name = o.body.isNone)
    (hattributes : ∀ a ∈ o.attributes, isAttributeName a.name = true ∧ '\x00' ∉ a.value)
    (hbody : ∀ u ∈ o.body, '\x00' ∉ u) : o.IsPlain where
  name := (isTagName_iff _).1 hname
  raw := hraw
  void := hvoid
  attributes a ha := ⟨(isAttributeName_iff _).1 (hattributes a ha).1, (hattributes a ha).2⟩
  body := hbody

/-- **The outline of a block is read as it is meant.** -/
theorem Kind.isPlain_outline (kind : Kind) : kind.outline.IsPlain := by
  have hbody (content : String) : ∀ u ∈ some (normaliseLines content.toList), '\x00' ∉ u := by
    intro u hu
    rw [← Option.some_inj.1 hu]
    exact nul_notMem_normaliseLines _
  have hstyle {a : Attribute} (h : ∀ c ∈ a.value, IsStyleChar c) : '\x00' ∉ a.value :=
    fun hmem => (h _ hmem).notMem (by decide)
  cases kind with
  | text content =>
    exact Outline.isPlain_of_checks rfl rfl rfl (List.forall_mem_nil _)
      (hbody content)
  | heading level content =>
    have hlevel := level.text_mem
    rw [outline]
    generalize level.text.toList = digits at hlevel
    have hchecks : isTagName ('h' :: digits) = true ∧ isRawText ('h' :: digits) = false
        ∧ isVoid ('h' :: digits) = false := by
      revert digits
      decide
    exact Outline.isPlain_of_checks hchecks.1 hchecks.2.1 hchecks.2.2 (List.forall_mem_nil _)
      (hbody content)
  | image url altText =>
    refine Outline.isPlain_of_checks rfl rfl rfl ?_ fun u hu => by cases hu
    exact List.forall_mem_cons.2 ⟨⟨rfl, nul_notMem_normaliseLines _⟩,
      List.forall_mem_singleton.2 ⟨rfl, nul_notMem_normaliseLines _⟩⟩
  | link url label =>
    refine Outline.isPlain_of_checks rfl rfl rfl ?_ (hbody label)
    exact List.forall_mem_singleton.2 ⟨rfl, nul_notMem_normaliseLines _⟩
  | color value content =>
    refine Outline.isPlain_of_checks rfl rfl rfl ?_ (hbody content)
    exact List.forall_mem_singleton.2 ⟨rfl, hstyle (isStyleChar_color value)⟩
  | fontSize size content =>
    refine Outline.isPlain_of_checks rfl rfl rfl ?_ (hbody content)
    exact List.forall_mem_singleton.2 ⟨rfl, hstyle (isStyleChar_fontSize size)⟩

end SafePreview
