import SafePreview.Block.Basic
import SafePreview.Proofs.Json.Records

/-!
# Payloads that spell a kind

A stored block is read by its type, and each of the six types has fields of its own: some have to be
there, some may be absent or null, one goes by two names. `Kind.IsSpelled` says of a payload, key by
key, which kind it spells, and a stored block can be shown exactly if its payload spells a kind of
its type (`Block.ofWire_eq_ok_iff`). Everything else about reading follows: what stands under other
keys cannot matter, and the errors name the block and one of two causes.

All of this is said of the body of a payload (`Payload.IsBody`), which is the object under `content`
where that is all there is. A text block has a `content` of its own, so the two could be mistaken
for each other; they are not, since the one is an object and the other a text.
-/

namespace SafePreview

open Json (Members Tree)

/-! ## Checked values -/

namespace Colour

/-- A number sign and three, four, six or eight hexadecimal digits. -/
def IsHexadecimal (cs : List Char) : Prop :=
  ∃ digits, cs = '#' :: digits ∧ digits.length ∈ [3, 4, 6, 8]
    ∧ ∀ c ∈ digits, ('0' ≤ c ∧ c ≤ '9') ∨ ('a' ≤ c ∧ c ≤ 'f') ∨ ('A' ≤ c ∧ c ≤ 'F')

/-- One to thirty-two letters. -/
def IsName (cs : List Char) : Prop :=
  1 ≤ cs.length ∧ cs.length ≤ 32
    ∧ ∀ c ∈ cs, ('a' ≤ c ∧ c ≤ 'z') ∨ ('A' ≤ c ∧ c ≤ 'Z')

theorem isHex_iff {cs : List Char} : isHex cs = true ↔ IsHexadecimal cs := by
  unfold isHex
  split
  · rename_i digits
    rw [Bool.and_eq_true, List.all_eq_true, List.contains_iff_mem]
    constructor
    · rintro ⟨hdigits, hlength⟩
      exact ⟨digits, rfl, hlength, fun c hc => Text.isHexDigit_iff.1 (hdigits c hc)⟩
    · rintro ⟨_, he, hlength, hdigits⟩
      obtain rfl := (List.cons.inj he).2
      exact ⟨fun c hc => Text.isHexDigit_iff.2 (hdigits c hc), hlength⟩
  · rename_i hother
    exact iff_of_false nofun fun ⟨digits, he, _⟩ => hother digits he

theorem isKeyword_iff {cs : List Char} : isKeyword cs = true ↔ IsName cs := by
  unfold isKeyword
  rw [Bool.and_eq_true, Bool.and_eq_true, List.all_eq_true, decide_eq_true_iff,
    decide_eq_true_iff, and_assoc, and_comm, and_assoc]
  simp only [Text.isLetter_iff]
  rfl

/-- **The colour that a text spells**: blanks around it do not count, and case does not. -/
theorem ofString?_eq_some_iff {s : String} {colour : Colour} :
    ofString? s = some colour
      ↔ (IsHexadecimal (Text.trim s).toList ∨ IsName (Text.trim s).toList)
        ∧ colour.text = String.ofList ((Text.trim s).toList.map Char.toLower) := by
  rw [← isHex_iff, ← isKeyword_iff, ← Bool.or_eq_true, ← isWritten]
  unfold ofString?
  dsimp only
  split
  · rename_i hwritten
    rw [and_iff_right hwritten, Option.some.injEq]
    obtain ⟨text, _⟩ := colour
    rw [Colour.mk.injEq, eq_comm]
  · rename_i hwritten
    exact iff_of_false nofun fun h => hwritten h.1

end Colour

theorem HeadingLevel.ofNat?_eq_some_iff {n : Nat} {level : HeadingLevel} :
    ofNat? n = some level ↔ n = level.value := by
  unfold ofNat?
  split
  · rw [Option.some.injEq]
    exact ⟨fun h => h ▸ rfl, fun h => by cases level; subst h; rfl⟩
  · rename_i hout
    refine iff_of_false (Option.some_ne_none level).symm fun h => hout ?_
    exact h ▸ ⟨level.one_le, level.le_six⟩

theorem FontSize.ofNat?_eq_some_iff {n : Nat} {size : FontSize} :
    ofNat? n = some size ↔ n = size.pixels := by
  unfold ofNat?
  split
  · rw [Option.some.injEq]
    exact ⟨fun h => h ▸ rfl, fun h => by cases size; subst h; rfl⟩
  · rename_i hout
    refine iff_of_false (Option.some_ne_none size).symm fun h => hout ?_
    exact h ▸ ⟨size.one_le, size.le_limit⟩

/-! ## The body of a payload -/

namespace Payload

open Json (Record Shape)

/-- **The body of a payload** is the object under `content`, if that is all there is, and else the
payload itself. -/
inductive IsBody : Members → Members → Prop
  | nested (inner : Members) : IsBody [("content", .object inner)] inner
  | flat (payload : Members) (h : ∀ inner, payload ≠ [("content", .object inner)]) :
    IsBody payload payload

theorem unwrap_of_ne {payload : Members} (h : ∀ inner, payload ≠ [("content", .object inner)]) :
    unwrap payload = payload := by
  unfold unwrap
  split
  · rename_i inner
    exact absurd rfl (h inner)
  · rfl

theorem IsBody.unwrap_eq {payload body : Members} (h : IsBody payload body) :
    unwrap payload = body := by
  cases h with
  | nested inner => rfl
  | flat payload h => exact unwrap_of_ne h

/-- The keys of a body ascend, if those of every object in the payload do. -/
theorem IsBody.ascends {payload body : Members} (h : IsBody payload body)
    (hpayload : (Json.Value.object payload).Canonical) : body.Ascends := by
  obtain ⟨hascends, hmembers⟩ := Json.Value.canonical_object_iff.1 hpayload
  cases h with
  | nested inner =>
    exact (Json.Value.canonical_object_iff.1 (hmembers _ (List.mem_singleton_self _))).1
  | flat payload h => exact hascends

/-- A text, or nothing, which counts as the empty text. -/
inductive IsOptionalText : Option Json.Value → String → Prop
  | absent : IsOptionalText none ""
  | given (s : String) : IsOptionalText (some (.string s)) s

/-- A text, or nothing or null, which count as the empty text. -/
inductive IsNullableText : Option Json.Value → String → Prop
  | absent : IsNullableText none ""
  | null : IsNullableText (some .null) ""
  | given (s : String) : IsNullableText (some (.string s)) s

/-! ### Reading a body -/

section

variable {α β : Type} {payload body : Members}

theorem read_eq_ok_iff {r : Record α} (h : IsBody payload body) (hr : r.Tries) {a : α} :
    read r payload = .ok a
      ↔ Record.Distinct r.fields body ∧ r.build (Record.lookup r.fields body) = .ok a := by
  rw [← Record.ofMembers_eq_ok_iff hr, read, h.unwrap_eq]
  split
  · rename_i b hb
    rw [hb, Except.ok.injEq, Except.ok.injEq]
  · rename_i m hm
    rw [hm]
    exact iff_of_false nofun nofun
  · rename_i fault hfault
    rw [hfault]
    exact iff_of_false nofun nofun

/-- What stands under a key of a body, as it is read. -/
def stands (body : Members) (key : String) : Option Tree := (body.get? key).map Tree.ofValue

/-- **A record of two fields that go by their names alone** is read field by field. -/
theorem read_pair_eq_ok_iff (h : IsBody payload body) (hbody : body.Ascends) {n m : String}
    {s : Shape α} {t : Shape β} {x : Except Json.Error α} {y : Except Json.Error β} {a : α}
    {b : β} :
    read (((Record.pure Prod.mk).seq (.fieldOr n [] s x)).seq (.fieldOr m [] t y)) payload
        = .ok (a, b)
      ↔ (Record.fieldOr n [] s x).build (stands body) = .ok a
        ∧ (Record.fieldOr m [] t y).build (stands body) = .ok b := by
  have htries := ((Record.tries_pure (Prod.mk : α → β → α × β)).seq
    (Record.tries_fieldOr n [] s x)).seq (Record.tries_fieldOr m [] t y)
  have hplain := ((Record.plain_pure (Prod.mk : α → β → α × β)).seq
    (Record.plain_fieldOr n s x)).seq (Record.plain_fieldOr m t y)
  rw [read_eq_ok_iff h htries, and_iff_right (hplain.distinct hbody.nodup),
    Record.pair_build_eq_ok_iff]
  have hn : Record.lookup _ body n = stands body n :=
    hplain.lookup_eq hbody (List.mem_cons_self : n ∈ [n, m])
  have hm : Record.lookup _ body m = stands body m :=
    hplain.lookup_eq hbody (List.mem_cons_of_mem n List.mem_cons_self : m ∈ [n, m])
  rw [Record.fieldOr_build_congr [] s x hn, Record.fieldOr_build_congr [] t y hm]

section

variable {found : String → Option Tree} {key : String} {value? : Option Json.Value}

theorem optional_text_iff (h : found key = value?.map Tree.ofValue) {s : String} :
    (Record.optional key Shape.string "").build found = .ok s ↔ IsOptionalText value? s := by
  rw [Record.optional_build_eq_ok_iff h]
  simp only [Shape.string_ofValue_iff, exists_eq_right]
  constructor
  · rintro (⟨rfl, rfl⟩ | rfl)
    · exact .absent
    · exact .given s
  · intro h
    cases h with
    | absent => exact .inl ⟨rfl, rfl⟩
    | given s => exact .inr rfl

theorem nullable_text_iff {aliases : List String} (h : found key = value?.map Tree.ofValue)
    {s : String} :
    (∃ given : Option String, (Record.fieldOr key aliases (.option .string) (.ok none)).build found
        = .ok given ∧ given.getD "" = s) ↔ IsNullableText value? s := by
  simp only [Record.fieldOr_build_eq_ok_iff h, Except.ok.injEq, Shape.option_ofValue_iff,
    Shape.string_ofValue_iff]
  constructor
  · rintro ⟨given, (⟨rfl, rfl⟩ | ⟨value, rfl, (⟨rfl, rfl⟩ | ⟨-, s, rfl, rfl⟩)⟩), rfl⟩
    · exact .absent
    · exact .null
    · exact .given s
  · intro h
    cases h with
    | absent => exact ⟨none, .inl ⟨rfl, rfl⟩, rfl⟩
    | null => exact ⟨none, .inr ⟨.null, rfl, .inl ⟨rfl, rfl⟩⟩, rfl⟩
    | given s => exact ⟨some s, .inr ⟨.string s, rfl, .inr ⟨nofun, s, rfl, rfl⟩⟩, rfl⟩

theorem required_count_iff (h : found key = value?.map Tree.ofValue) {bits : Nat} {wanted : String}
    {n : Nat} :
    (Record.required key (Shape.count bits wanted)).build found = .ok n
      ↔ value? = some (.ofNat n) ∧ n < 2 ^ bits := by
  rw [Record.required_build_eq_ok_iff h]
  simp only [Shape.count_ofValue_iff]
  constructor
  · rintro ⟨_, rfl, rfl, hn⟩
    exact ⟨rfl, hn⟩
  · rintro ⟨rfl, hn⟩
    exact ⟨_, rfl, rfl, hn⟩

end

/-! ### A field of two names -/

theorem fieldName?_image_iff {key name : String} :
    Record.fieldName? image.fields key = some name
      ↔ (key = "url" ∧ name = "url") ∨ ((key = "altText" ∨ key = "alt") ∧ name = "altText") := by
  have hfields : ∃ url altText, image.fields = [url, altText] ∧ url.name = "url" ∧ url.aliases = []
    ∧ altText.name = "altText" ∧ altText.aliases = ["alt"] := ⟨_, _, rfl, rfl, rfl, rfl, rfl⟩
  obtain ⟨url, altText, hfields, hurl, hnone, haltText, halt⟩ := hfields
  rw [hfields, Record.fieldName?_cons, Record.fieldName?_cons, Record.fieldName?_nil, hurl, hnone,
    haltText, halt]
  grind

/-- No field is there twice exactly if one of the two names is absent. -/
theorem distinct_image_iff (hbody : body.Ascends) :
    Record.Distinct image.fields body ↔ body.get? "altText" = none ∨ body.get? "alt" = none := by
  rw [Record.distinct_iff hbody.nodup]
  constructor
  · intro h
    by_contra hboth
    rw [not_or] at hboth
    exact h "altText" (Members.mem_keys_iff.2 hboth.1) "alt" (Members.mem_keys_iff.2 hboth.2)
      (by decide) "altText" (fieldName?_image_iff.2 (.inr ⟨.inl rfl, rfl⟩))
      (fieldName?_image_iff.2 (.inr ⟨.inr rfl, rfl⟩))
  · intro h a ha b hb hne name hname hname'
    rw [Members.mem_keys_iff] at ha hb
    rw [fieldName?_image_iff] at hname hname'
    rcases hname with ⟨rfl, rfl⟩ | ⟨hkey, rfl⟩
    · grind
    · grind

/-! ### The records -/

section

variable (h : IsBody payload body) (hbody : body.Ascends)

include h hbody

theorem read_text_iff {content : String} :
    read text payload = .ok content ↔ body.get? "content" = some (.string content) := by
  have hplain : Record.Plain text.fields := Record.plain_fieldOr "content" Shape.string _
  have htries : text.Tries := Record.tries_fieldOr "content" [] Shape.string _
  have hlookup : Record.lookup text.fields body "content" = stands body "content" :=
    hplain.lookup_eq hbody List.mem_cons_self
  rw [read_eq_ok_iff h htries, and_iff_right (hplain.distinct hbody.nodup)]
  exact Record.required_string_build_eq_ok_iff hlookup

theorem read_heading_iff {level : Nat} {content : String} :
    read heading payload = .ok (level, content)
      ↔ (body.get? "level" = some (.ofNat level) ∧ level < 2 ^ 8)
        ∧ body.get? "content" = some (.string content) :=
  (read_pair_eq_ok_iff h hbody).trans (and_congr
    (required_count_iff rfl) (Record.required_string_build_eq_ok_iff rfl))

theorem read_link_iff {url label : String} :
    read link payload = .ok (url, label)
      ↔ body.get? "url" = some (.string url) ∧ body.get? "text" = some (.string label) :=
  (read_pair_eq_ok_iff h hbody).trans (and_congr
    (Record.required_string_build_eq_ok_iff rfl) (Record.required_string_build_eq_ok_iff rfl))

theorem read_color_iff {value content : String} :
    read color payload = .ok (value, content)
      ↔ body.get? "value" = some (.string value) ∧ IsOptionalText (body.get? "content") content :=
  (read_pair_eq_ok_iff h hbody).trans (and_congr
    (Record.required_string_build_eq_ok_iff rfl) (optional_text_iff rfl))

theorem read_fontSize_iff {size : Nat} {content : String} :
    read fontSize payload = .ok (size, content)
      ↔ (body.get? "size" = some (.ofNat size) ∧ size < 2 ^ 16)
        ∧ IsOptionalText (body.get? "content") content :=
  (read_pair_eq_ok_iff h hbody).trans (and_congr (required_count_iff rfl) (optional_text_iff rfl))

theorem read_image_iff {url altText : String} :
    (∃ given : Option String, read image payload = .ok (url, given) ∧ given.getD "" = altText)
      ↔ (body.get? "altText" = none ∨ body.get? "alt" = none)
        ∧ body.get? "url" = some (.string url)
        ∧ IsNullableText ((body.get? "altText").or (body.get? "alt")) altText := by
  have htries : image.Tries := ((Record.tries_pure Prod.mk).seq
    (Record.tries_fieldOr "url" [] Shape.string _)).seq
      (Record.tries_fieldOr "altText" ["alt"] (Shape.option .string) _)
  have hurl (hdistinct : Record.Distinct image.fields body) :
      Record.lookup image.fields body "url" = (body.get? "url").map Tree.ofValue :=
    Record.lookup_of_one_key hbody hdistinct fun key => fieldName?_image_iff.trans
      ⟨fun hkey => hkey.elim And.left fun hother => absurd hother.2 (by decide),
        fun hkey => .inl ⟨hkey, rfl⟩⟩
  have halt (hdistinct : Record.Distinct image.fields body) :
      Record.lookup image.fields body "altText"
        = ((body.get? "altText").or (body.get? "alt")).map Tree.ofValue :=
    Record.lookup_of_two_keys hbody hdistinct (by decide) fun key => fieldName?_image_iff.trans
      ⟨fun hkey => hkey.elim (fun hother => absurd hother.2 (by decide)) And.left,
        fun hkey => .inr ⟨hkey, rfl⟩⟩
  simp only [read_eq_ok_iff h htries]
  rw [← distinct_image_iff hbody]
  constructor
  · rintro ⟨given, ⟨hdistinct, hbuild⟩, hgiven⟩
    obtain ⟨hbuildUrl, hbuildAlt⟩ := Record.pair_build_eq_ok_iff.1 hbuild
    exact ⟨hdistinct, (Record.required_string_build_eq_ok_iff (hurl hdistinct)).1 hbuildUrl,
      (nullable_text_iff (halt hdistinct)).1 ⟨given, hbuildAlt, hgiven⟩⟩
  · rintro ⟨hdistinct, hbodyUrl, hbodyAlt⟩
    obtain ⟨given, hbuildAlt, hgiven⟩ := (nullable_text_iff (halt hdistinct)).2 hbodyAlt
    exact ⟨given, ⟨hdistinct, Record.pair_build_eq_ok_iff.2
      ⟨(Record.required_string_build_eq_ok_iff (hurl hdistinct)).2 hbodyUrl, hbuildAlt⟩⟩, hgiven⟩

end

end

end Payload

/-! ## Kinds -/

namespace Kind

open Payload (IsBody)

/-- **The names of the types.** -/
def typeNames : List String := ["text", "heading", "image", "link", "color", "font-size"]

/-- **The body of a payload spells a kind.** Keys that are not named here may be there or not. -/
def IsSpelled (kind : Kind) (body : Members) : Prop :=
  match kind with
  | .text content => body.get? "content" = some (.string content)
  | .heading level content =>
    body.get? "level" = some (.ofNat level.value) ∧ body.get? "content" = some (.string content)
  | .image url altText =>
    body.get? "url" = some (.string url)
      ∧ (body.get? "altText" = none ∨ body.get? "alt" = none)
      ∧ Payload.IsNullableText ((body.get? "altText").or (body.get? "alt")) altText
  | .link url label =>
    body.get? "url" = some (.string url) ∧ body.get? "text" = some (.string label)
  | .color value content =>
    (∃ s, body.get? "value" = some (.string s)
      ∧ (Colour.IsHexadecimal (Text.trim s).toList ∨ Colour.IsName (Text.trim s).toList)
      ∧ value.text = String.ofList ((Text.trim s).toList.map Char.toLower))
      ∧ Payload.IsOptionalText (body.get? "content") content
  | .fontSize size content =>
    body.get? "size" = some (.ofNat size.pixels)
      ∧ Payload.IsOptionalText (body.get? "content") content

variable {type : String} {payload body : Members} {kind : Kind}

theorem mem_typeNames_iff :
    type ∈ typeNames ↔ type = "text" ∨ type = "heading" ∨ type = "image" ∨ type = "link"
      ∨ type = "color" ∨ type = "font-size" := by
  simp only [typeNames, List.mem_cons, List.not_mem_nil, or_false]

/-- **There is a type of that name, or there is none**, whatever the payload. -/
theorem ofPayload_eq_none_iff : ofPayload type payload = none ↔ type ∉ typeNames := by
  constructor
  · intro hnone hmem
    rcases mem_typeNames_iff.1 hmem with rfl | rfl | rfl | rfl | rfl | rfl
    all_goals exact Option.some_ne_none _ hnone
  · intro hmem
    unfold ofPayload
    split
    case h_7 => rfl
    all_goals exact absurd (by decide) hmem

/-- What is read from a payload its body spells. -/
theorem isSpelled_of_ofPayload (h : IsBody payload body) (hbody : body.Ascends)
    (hkind : ofPayload type payload = some (.ok kind)) :
    kind.typeName = type ∧ kind.IsSpelled body := by
  unfold ofPayload at hkind
  split at hkind
  · obtain ⟨content, hread, hrest⟩ := Json.bind_eq_ok_iff.1 (Option.some.inj hkind)
    obtain rfl := Except.ok.inj hrest
    exact ⟨rfl, (Payload.read_text_iff h hbody).1 hread⟩
  · obtain ⟨⟨n, content⟩, hread, hrest⟩ := Json.bind_eq_ok_iff.1 (Option.some.inj hkind)
    obtain ⟨⟨hlevel, -⟩, hcontent⟩ := (Payload.read_heading_iff h hbody).1 hread
    dsimp only at hrest
    split at hrest
    · rename_i level hn
      obtain rfl := Except.ok.inj hrest
      rw [HeadingLevel.ofNat?_eq_some_iff.1 hn] at hlevel
      exact ⟨rfl, hlevel, hcontent⟩
    · cases hrest
  · obtain ⟨⟨url, given⟩, hread, hrest⟩ := Json.bind_eq_ok_iff.1 (Option.some.inj hkind)
    obtain rfl := Except.ok.inj hrest
    obtain ⟨hone, hurl, halt⟩ := (Payload.read_image_iff h hbody).1 ⟨given, hread, rfl⟩
    exact ⟨rfl, hurl, hone, halt⟩
  · obtain ⟨⟨url, label⟩, hread, hrest⟩ := Json.bind_eq_ok_iff.1 (Option.some.inj hkind)
    obtain rfl := Except.ok.inj hrest
    exact ⟨rfl, (Payload.read_link_iff h hbody).1 hread⟩
  · obtain ⟨⟨s, content⟩, hread, hrest⟩ := Json.bind_eq_ok_iff.1 (Option.some.inj hkind)
    obtain ⟨hvalue, hcontent⟩ := (Payload.read_color_iff h hbody).1 hread
    dsimp only at hrest
    split at hrest
    · rename_i colour hs
      obtain rfl := Except.ok.inj hrest
      exact ⟨rfl, ⟨s, hvalue, Colour.ofString?_eq_some_iff.1 hs⟩, hcontent⟩
    · cases hrest
  · obtain ⟨⟨n, content⟩, hread, hrest⟩ := Json.bind_eq_ok_iff.1 (Option.some.inj hkind)
    obtain ⟨⟨hsize, -⟩, hcontent⟩ := (Payload.read_fontSize_iff h hbody).1 hread
    dsimp only at hrest
    split at hrest
    · rename_i size hn
      obtain rfl := Except.ok.inj hrest
      rw [FontSize.ofNat?_eq_some_iff.1 hn] at hsize
      exact ⟨rfl, hsize, hcontent⟩
    · cases hrest
  · cases hkind

/-- **What the body of a payload spells is read.** -/
theorem IsSpelled.ofPayload_eq (h : IsBody payload body) (hbody : body.Ascends)
    (hkind : kind.IsSpelled body) : ofPayload kind.typeName payload = some (.ok kind) := by
  cases kind with
  | text content =>
    have hread := (Payload.read_text_iff h hbody).2 hkind
    exact congrArg some (Json.bind_eq_ok_iff.2 ⟨content, hread, rfl⟩)
  | heading level content =>
    have hroom : level.value < 2 ^ 8 := Nat.lt_of_le_of_lt level.le_six (by decide)
    have hread := (Payload.read_heading_iff h hbody).2 ⟨⟨hkind.1, hroom⟩, hkind.2⟩
    refine congrArg some (Json.bind_eq_ok_iff.2 ⟨_, hread, ?_⟩)
    dsimp only
    rw [HeadingLevel.ofNat?_eq_some_iff.2 rfl]
    rfl
  | image url altText =>
    obtain ⟨hurl, hone, halt⟩ := hkind
    obtain ⟨given, hread, rfl⟩ := (Payload.read_image_iff h hbody).2 ⟨hone, hurl, halt⟩
    exact congrArg some (Json.bind_eq_ok_iff.2 ⟨_, hread, rfl⟩)
  | link url label =>
    have hread := (Payload.read_link_iff h hbody).2 hkind
    exact congrArg some (Json.bind_eq_ok_iff.2 ⟨_, hread, rfl⟩)
  | color value content =>
    obtain ⟨⟨s, hvalue, hs⟩, hcontent⟩ := hkind
    have hread := (Payload.read_color_iff h hbody).2 ⟨hvalue, hcontent⟩
    refine congrArg some (Json.bind_eq_ok_iff.2 ⟨_, hread, ?_⟩)
    dsimp only
    rw [Colour.ofString?_eq_some_iff.2 hs]
    rfl
  | fontSize size content =>
    have hroom : size.pixels < 2 ^ 16 := Nat.lt_of_le_of_lt size.le_limit (by decide)
    have hread := (Payload.read_fontSize_iff h hbody).2 ⟨⟨hkind.1, hroom⟩, hkind.2⟩
    refine congrArg some (Json.bind_eq_ok_iff.2 ⟨_, hread, ?_⟩)
    dsimp only
    rw [FontSize.ofNat?_eq_some_iff.2 rfl]
    rfl

/-- The keys that a type gives a meaning. -/
def keys : String → List String
  | "text" => ["content"]
  | "heading" => ["level", "content"]
  | "image" => ["url", "altText", "alt"]
  | "link" => ["url", "text"]
  | "color" => ["value", "content"]
  | "font-size" => ["size", "content"]
  | _ => []

/-- **What stands under other keys does not matter**, neither to the kind nor to the defect. -/
theorem ofPayload_congr {payload' body' : Members} (h : IsBody payload body)
    (h' : IsBody payload' body') (hbody : body.Ascends) (hbody' : body'.Ascends)
    (hkeys : ∀ key ∈ keys type, body.get? key = body'.get? key) :
    ofPayload type payload = ofPayload type payload' := by
  have hread {α : Type} (r : Json.Record α) (hr : Json.Record.keysOf r.fields = keys type) :
      Payload.read r payload = Payload.read r payload' := by
    unfold Payload.read
    rw [h.unwrap_eq, h'.unwrap_eq, Json.Record.ofMembers_congr hbody hbody' (hr ▸ hkeys)]
  by_cases hmem : type ∈ typeNames
  · rcases mem_typeNames_iff.1 hmem with rfl | rfl | rfl | rfl | rfl | rfl
    · simp only [ofPayload, hread Payload.text rfl]
    · simp only [ofPayload, hread Payload.heading rfl]
    · simp only [ofPayload, hread Payload.image rfl]
    · simp only [ofPayload, hread Payload.link rfl]
    · simp only [ofPayload, hread Payload.color rfl]
    · simp only [ofPayload, hread Payload.fontSize rfl]
  · rw [ofPayload_eq_none_iff.2 hmem, ofPayload_eq_none_iff.2 hmem]

end Kind

/-! ## Blocks -/

namespace Block

open Payload (IsBody)

variable {wire : WireBlock} {body : Members}

/-- **A stored block can be shown** exactly if the body of its payload spells a kind of its type. -/
theorem ofWire_eq_ok_iff (h : IsBody wire.payload body) (hbody : body.Ascends) {block : Block} :
    ofWire wire = .ok block
      ↔ ∃ kind : Kind, kind.typeName = wire.type ∧ kind.IsSpelled body
        ∧ block = ⟨wire.id, wire.project, wire.parent, wire.sortIndex, kind⟩ := by
  constructor
  · intro hblock
    unfold ofWire at hblock
    split at hblock
    · cases hblock
    · cases hblock
    · rename_i kind hkind
      obtain ⟨htype, hspelled⟩ := Kind.isSpelled_of_ofPayload h hbody hkind
      exact ⟨kind, htype, hspelled, (Except.ok.inj hblock).symm⟩
  · rintro ⟨kind, htype, hspelled, rfl⟩
    rw [ofWire, ← htype, hspelled.ofPayload_eq h hbody]

/-- **Every error names the block**, and one of two causes. -/
theorem error_cases {e : BlockError} (h : ofWire wire = .error e) :
    (wire.type ∉ Kind.typeNames ∧ e = .unsupportedType wire.id wire.type)
      ∨ (wire.type ∈ Kind.typeNames ∧ ∃ defect, e = .invalidContent wire.id defect) := by
  unfold ofWire at h
  split at h
  · rename_i hnone
    exact .inl ⟨Kind.ofPayload_eq_none_iff.1 hnone, (Except.error.inj h).symm⟩
  · rename_i defect hdefect
    refine .inr ⟨?_, defect, (Except.error.inj h).symm⟩
    by_contra hmem
    rw [Kind.ofPayload_eq_none_iff.2 hmem] at hdefect
    cases hdefect
  · cases h

/-- **Reading a stored block.** With the body of its payload, which is the payload itself or the
object under `content` if that is all there is:

* it gives a block exactly if the body spells a kind of the block's type, and the block is then of
  that kind, its identity, its project, its parent and its index as they were;
* it fails with nothing but an error that names the block: that there is no such type exactly if
  there is none, whatever the payload is, and else a defect of the content;
* it depends on the keys alone that the type gives a meaning;
* a payload that is not itself an object under `content` may be put into one. -/
theorem ofWire_reads_bodies (hpayload : (Json.Value.object wire.payload).Canonical)
    (hbody : IsBody wire.payload body) :
    (∀ block, ofWire wire = .ok block
        ↔ ∃ kind : Kind, kind.typeName = wire.type ∧ kind.IsSpelled body
          ∧ block = ⟨wire.id, wire.project, wire.parent, wire.sortIndex, kind⟩)
      ∧ (∀ e, ofWire wire = .error e →
        (wire.type ∉ Kind.typeNames ∧ e = .unsupportedType wire.id wire.type)
          ∨ (wire.type ∈ Kind.typeNames ∧ ∃ defect, e = .invalidContent wire.id defect))
      ∧ (wire.type ∉ Kind.typeNames → ∀ payload,
        ofWire { wire with payload } = .error (.unsupportedType wire.id wire.type))
      ∧ (∀ payload body', (Json.Value.object payload).Canonical → IsBody payload body' →
        (∀ key ∈ Kind.keys wire.type, body.get? key = body'.get? key) →
        ofWire { wire with payload } = ofWire wire)
      ∧ ((∀ inner, wire.payload ≠ [("content", .object inner)]) →
        ofWire { wire with payload := [("content", .object wire.payload)] } = ofWire wire) := by
  have hascends := hbody.ascends hpayload
  refine ⟨fun block => ofWire_eq_ok_iff hbody hascends, fun e => error_cases,
    fun htype payload => ?_, fun payload body' hpayload' hbody' hkeys => ?_, fun hflat => ?_⟩
  · rw [ofWire, Kind.ofPayload_eq_none_iff.2 htype]
  · rw [ofWire, ofWire,
      Kind.ofPayload_congr hbody hbody' hascends (hbody'.ascends hpayload') hkeys]
  · have hkeys := (Json.Value.canonical_object_iff.1 hpayload).1
    have hsame : Kind.ofPayload wire.type [("content", .object wire.payload)]
        = Kind.ofPayload wire.type wire.payload :=
      Kind.ofPayload_congr (.nested wire.payload) (.flat wire.payload hflat) hkeys hkeys
        fun _ _ => rfl
    rw [ofWire, ofWire, hsame]

/-- A heading of the second level, its payload inside an object and with a key of no meaning. -/
def innerHeading : Members :=
  [("content", .string "Contents"), ("level", .ofNat 2), ("note", .null)]

theorem ofWire_innerHeading :
    (Json.Value.object [("content", .object innerHeading)]).Canonical
      ∧ IsBody [("content", .object innerHeading)] innerHeading
      ∧ ofWire ⟨⟨"b1"⟩, none, some ⟨"b0"⟩, 3, "heading", [("content", .object innerHeading)]⟩
        = .ok ⟨⟨"b1"⟩, none, some ⟨"b0"⟩, 3, .heading ⟨2, by decide, by decide⟩ "Contents"⟩ := by
  have hcanonical : (Json.Value.object [("content", .object innerHeading)]).Canonical := by
    simp only [innerHeading, Json.Value.Canonical, Json.Value.CanonicalMembers, Json.Value.ofNat,
      and_true]
    decide
  have hspelled : (Kind.heading ⟨2, by decide, by decide⟩ "Contents").IsSpelled innerHeading :=
    ⟨rfl, rfl⟩
  refine ⟨hcanonical, .nested innerHeading, ?_⟩
  exact ((ofWire_reads_bodies hcanonical (.nested innerHeading)).1 _).2
    ⟨_, rfl, hspelled, rfl⟩

end Block

end SafePreview
