import SafePreview.Block.Wire
import SafePreview.Proofs.Json.Records

/-!
# Stored blocks written and read again

A stored block has several spellings: an id may be a number or its digits, a project or a parent may
be left out or null, an index may be left out. One of them is written. `WireBlock.IsHeldIn` says
which blocks an object holds, whatever the spelling, and it is exactly what is read from it
(`WireBlock.shape_ofValue_iff`); `WireBlock.IsWrittenAs` says what is written, key by key.

That a block is read back from what was written then needs two things of it: its index has to fit 64
bits, and no key of its payload may be one of the five that have a meaning of their own. Both hold
of every block that was read (`WireBlock.IsHeldIn.isStorable`), the second since those five keys are
taken out before the rest becomes the payload.
-/

namespace SafePreview

open Json (Members Tree Value)

/-! ## Ids and indices -/

/-- **A value that names something**: a text, or a whole number of 64 bits, which stands for its
digits. -/
inductive IsIdentifier : Value → String → Prop
  | text (s : String) : IsIdentifier (.string s) s
  | number (n : Int) (hlow : -2 ^ 63 ≤ n) (hhigh : n ≤ 2 ^ 63 - 1) :
    IsIdentifier (.ofInt n) (toString n)

/-- A value that may name something; null and nothing do not. -/
inductive IsOptionalIdentifier : Option Value → Option String → Prop
  | absent : IsOptionalIdentifier none none
  | null : IsOptionalIdentifier (some .null) none
  | given {v : Value} {s : String} (h : IsIdentifier v s) : IsOptionalIdentifier (some v) (some s)

/-- A whole number of 64 bits; nothing counts as zero. -/
inductive IsIndex : Option Value → Int → Prop
  | absent : IsIndex none 0
  | given (n : Int) (hlow : -2 ^ 63 ≤ n) (hhigh : n ≤ 2 ^ 63 - 1) : IsIndex (some (.ofInt n)) n

theorem IsIndex.bounds {v? : Option Value} {n : Int} (h : IsIndex v? n) :
    -2 ^ 63 ≤ n ∧ n ≤ 2 ^ 63 - 1 := by
  cases h with
  | absent => decide
  | given n hlow hhigh => exact ⟨hlow, hhigh⟩

namespace Json.Shape

/-- The first of two shapes decides, and else the second. -/
theorem firstOf_pair_eq_ok_iff {α : Type} {choice : String} {f g : Shape α} {v : Value}
    (hv : v.Canonical) {a : α} :
    firstOf choice [f, g] (Tree.ofValue v) = .ok a
      ↔ f (Tree.ofValue v) = .ok a
        ∨ (∀ b, f (Tree.ofValue v) ≠ .ok b) ∧ g (Tree.ofValue v) = .ok a := by
  unfold firstOf
  rw [Tree.value_ofValue v hv, List.findSome?_cons, List.findSome?_cons, List.findSome?_nil]
  cases f (Tree.ofValue v) with
  | ok b => exact ⟨fun h => .inl h, fun h => h.elim id fun h => absurd rfl (h.1 b)⟩
  | error e =>
    cases g (Tree.ofValue v) with
    | ok b => exact ⟨fun h => .inr ⟨nofun, h⟩, fun h => h.elim nofun And.right⟩
    | error e' => exact iff_of_false nofun fun h => h.elim nofun fun h => nomatch h.2

theorem identifier_ofValue_iff {v : Value} (hv : v.Canonical) {s : String} :
    identifier (Tree.ofValue v) = .ok s ↔ IsIdentifier v s := by
  rw [identifier, firstOf_pair_eq_ok_iff hv, string_ofValue_iff, map_eq_ok_iff]
  simp only [int64_ofValue_iff, Ne, string_ofValue_iff]
  constructor
  · rintro (rfl | ⟨-, n, ⟨rfl, hlow, hhigh⟩, rfl⟩)
    · exact .text s
    · exact .number n hlow hhigh
  · intro h
    cases h with
    | text s => exact .inl rfl
    | number n hlow hhigh => exact .inr ⟨nofun, n, ⟨rfl, hlow, hhigh⟩, rfl⟩

variable {ι : Type} {text : ι → String} {shape : Shape ι}

/-- A name made of an identifier. -/
theorem map_identifier_ofValue_iff {mk : String → ι} (htext : ∀ s, text (mk s) = s)
    (hmk : ∀ i, mk (text i) = i) {v : Value} (hv : v.Canonical) {i : ι} :
    (identifier (Tree.ofValue v)).map mk = .ok i ↔ IsIdentifier v (text i) := by
  rw [map_eq_ok_iff, ← identifier_ofValue_iff hv]
  constructor
  · rintro ⟨s, hs, rfl⟩
    exact (htext s).symm ▸ hs
  · exact fun h => ⟨text i, h, hmk i⟩

/-- A name that may be left out or null. -/
theorem optional_identifier_iff
    (hshape : ∀ v : Value, v.Canonical → ∀ i,
      shape (Tree.ofValue v) = .ok i ↔ IsIdentifier v (text i))
    {found : String → Option Tree} {name : String} {value? : Option Value}
    (h : found name = value?.map Tree.ofValue) (hvalue : ∀ v, value? = some v → v.Canonical)
    {i? : Option ι} :
    (Record.optional name (.option shape) none).build found = .ok i?
      ↔ IsOptionalIdentifier value? (i?.map text) := by
  rw [Record.optional_build_eq_ok_iff h]
  constructor
  · rintro (⟨rfl, rfl⟩ | ⟨v, rfl, hv⟩)
    · exact .absent
    · rcases option_ofValue_iff.1 hv with ⟨rfl, rfl⟩ | ⟨-, i, hi, rfl⟩
      · exact .null
      · exact .given ((hshape v (hvalue v rfl) i).1 hi)
  · intro hoptional
    cases i? with
    | none =>
      cases hoptional with
      | absent => exact .inl ⟨rfl, rfl⟩
      | null => exact .inr ⟨.null, rfl, rfl⟩
    | some i =>
      cases hoptional with
      | @given v _ hi =>
        refine .inr ⟨v, rfl, option_ofValue_iff.2 (.inr ⟨?_, i, ?_, rfl⟩)⟩
        · rintro rfl
          cases hi
        · exact (hshape v (hvalue v rfl) i).2 hi

/-- An index that may be left out. -/
theorem optional_int64_iff {found : String → Option Tree} {name : String} {value? : Option Value}
    (h : found name = value?.map Tree.ofValue) {n : Int} :
    (Record.optional name int64 0).build found = .ok n ↔ IsIndex value? n := by
  rw [Record.optional_build_eq_ok_iff h]
  constructor
  · rintro (⟨rfl, rfl⟩ | ⟨v, rfl, hv⟩)
    · exact .absent
    · obtain ⟨rfl, hlow, hhigh⟩ := int64_ofValue_iff.1 hv
      exact .given n hlow hhigh
  · intro hindex
    cases hindex with
    | absent => exact .inl ⟨rfl, rfl⟩
    | given n hlow hhigh => exact .inr ⟨_, rfl, int64_ofValue_iff.2 ⟨rfl, hlow, hhigh⟩⟩

end Json.Shape

theorem BlockId.shape_ofValue_iff (v : Value) (hv : v.Canonical) (id : BlockId) :
    BlockId.shape (Tree.ofValue v) = .ok id ↔ IsIdentifier v id.text :=
  Json.Shape.map_identifier_ofValue_iff (fun _ => rfl) (fun _ => rfl) hv

theorem ProjectId.shape_ofValue_iff (v : Value) (hv : v.Canonical) (id : ProjectId) :
    ProjectId.shape (Tree.ofValue v) = .ok id ↔ IsIdentifier v id.text :=
  Json.Shape.map_identifier_ofValue_iff (fun _ => rfl) (fun _ => rfl) hv

namespace WireBlock

open Json (Record Shape)

/-- **The keys with a meaning of their own.** -/
def headKeys : List String := ["id", "projectId", "parentId", "sortIndex", "type"]

/-- What stands under a key where those are left out. -/
theorem get?_filter_headKeys (members : Members) (key : String) :
    Members.get? (members.filter (·.1 ∉ headKeys)) key
      = if key ∈ headKeys then none else members.get? key := by
  rw [Members.get?_filter (· ∉ headKeys)]
  by_cases hkey : key ∈ headKeys
  · rw [if_pos hkey, if_neg fun hout => absurd hkey (of_decide_eq_true hout)]
  · rw [if_neg hkey, if_pos (decide_eq_true hkey)]

/-- **An object holds a stored block**, in one of its spellings. -/
structure IsHeldIn (members : Members) (block : WireBlock) : Prop where
  id : ∃ v, members.get? "id" = some v ∧ IsIdentifier v block.id.text
  project : IsOptionalIdentifier (members.get? "projectId") (block.project.map (·.text))
  parent : IsOptionalIdentifier (members.get? "parentId") (block.parent.map (·.text))
  sortIndex : IsIndex (members.get? "sortIndex") block.sortIndex
  type : members.get? "type" = some (.string block.type)
  /-- All other members are its payload, as they are. -/
  payload : block.payload = members.filter (·.1 ∉ headKeys)

/-- **An object is how a stored block is written**: a project that is absent is left out, and a
parent that is absent is null. -/
structure IsWrittenAs (block : WireBlock) (members : Members) : Prop where
  id : members.get? "id" = some (.string block.id.text)
  project : members.get? "projectId" = block.project.map fun project => .string project.text
  parent : members.get? "parentId"
    = some (Value.ofOption (fun parent : BlockId => .string parent.text) block.parent)
  sortIndex : members.get? "sortIndex" = some (.ofInt block.sortIndex)
  type : members.get? "type" = some (.string block.type)
  /-- All other keys stand for what they stand for in the payload. -/
  payload : ∀ key ∉ headKeys, members.get? key = block.payload.get? key

/-! ## What is read -/

theorem Head.tries_record : Head.record.Tries :=
  (((((Record.tries_pure Head.mk).seq (Record.tries_fieldOr "id" [] BlockId.shape _)).seq
    (Record.tries_fieldOr "projectId" [] (Shape.option ProjectId.shape) _)).seq
    (Record.tries_fieldOr "parentId" [] (Shape.option BlockId.shape) _)).seq
    (Record.tries_fieldOr "sortIndex" [] Shape.int64 _)).seq
    (Record.tries_fieldOr "type" [] Shape.string _)

theorem Head.plain_record : Record.Plain Head.record.fields :=
  (((((Record.plain_pure Head.mk).seq (Record.plain_fieldOr "id" BlockId.shape _)).seq
    (Record.plain_fieldOr "projectId" (Shape.option ProjectId.shape) _)).seq
    (Record.plain_fieldOr "parentId" (Shape.option BlockId.shape) _)).seq
    (Record.plain_fieldOr "sortIndex" Shape.int64 _)).seq
    (Record.plain_fieldOr "type" Shape.string _)

/-- A head is built field by field. -/
theorem Head.record_build_eq_ok_iff {found : String → Option Tree} {head : Head} :
    Head.record.build found = .ok head
      ↔ (Record.required "id" BlockId.shape).build found = .ok head.id
        ∧ (Record.optional "projectId" (.option ProjectId.shape) none).build found
          = .ok head.project
        ∧ (Record.optional "parentId" (.option BlockId.shape) none).build found = .ok head.parent
        ∧ (Record.optional "sortIndex" .int64 0).build found = .ok head.sortIndex
        ∧ (Record.required "type" Shape.string).build found = .ok head.type := by
  constructor
  · intro h
    obtain ⟨four, hfour, type, htype, rfl⟩ := Record.seq_build_eq_ok_iff.1 h
    obtain ⟨three, hthree, sortIndex, hsortIndex, rfl⟩ := Record.seq_build_eq_ok_iff.1 hfour
    obtain ⟨two, htwo, parent, hparent, rfl⟩ := Record.seq_build_eq_ok_iff.1 hthree
    obtain ⟨one, hone, project, hproject, rfl⟩ := Record.seq_build_eq_ok_iff.1 htwo
    obtain ⟨_, hnone, id, hid, rfl⟩ := Record.seq_build_eq_ok_iff.1 hone
    obtain rfl := Except.ok.inj hnone
    exact ⟨hid, hproject, hparent, hsortIndex, htype⟩
  · rintro ⟨hid, hproject, hparent, hsortIndex, htype⟩
    have hone := Record.seq_build_eq_ok_iff (f := .pure Head.mk).2 ⟨_, rfl, _, hid, rfl⟩
    have htwo := Record.seq_build_eq_ok_iff.2 ⟨_, hone, _, hproject, rfl⟩
    have hthree := Record.seq_build_eq_ok_iff.2 ⟨_, htwo, _, hparent, rfl⟩
    have hfour := Record.seq_build_eq_ok_iff.2 ⟨_, hthree, _, hsortIndex, rfl⟩
    exact Record.seq_build_eq_ok_iff.2 ⟨_, hfour, _, htype, rfl⟩

/-- What a head is built from, key by key. -/
theorem Head.build_lookup_iff {members : Members} (h : (Value.object members).Canonical)
    {head : Head} :
    Head.record.build (Record.lookup Head.record.fields members) = .ok head
      ↔ (∃ v, members.get? "id" = some v ∧ IsIdentifier v head.id.text)
        ∧ IsOptionalIdentifier (members.get? "projectId") (head.project.map (·.text))
        ∧ IsOptionalIdentifier (members.get? "parentId") (head.parent.map (·.text))
        ∧ IsIndex (members.get? "sortIndex") head.sortIndex
        ∧ members.get? "type" = some (.string head.type) := by
  obtain ⟨hascends, hvalues⟩ := Value.canonical_object_iff.1 h
  have hlookup (key : String) (hkey : key ∈ headKeys) :
      Record.lookup Head.record.fields members key = (members.get? key).map Tree.ofValue :=
    Head.plain_record.lookup_eq hascends hkey
  have hvalue (key : String) (v : Value) (hv : members.get? key = some v) : v.Canonical :=
    hvalues _ (Members.mem_of_get? hv)
  have hid : (Record.required "id" BlockId.shape).build (Record.lookup Head.record.fields members)
        = .ok head.id ↔ ∃ v, members.get? "id" = some v ∧ IsIdentifier v head.id.text := by
    rw [Record.required_build_eq_ok_iff (hlookup "id" (by decide))]
    exact exists_congr fun v => and_congr_right fun hv =>
      BlockId.shape_ofValue_iff v (hvalue "id" v hv) head.id
  rw [Head.record_build_eq_ok_iff, hid,
    Shape.optional_identifier_iff ProjectId.shape_ofValue_iff (hlookup "projectId" (by decide))
      (hvalue "projectId"),
    Shape.optional_identifier_iff BlockId.shape_ofValue_iff (hlookup "parentId" (by decide))
      (hvalue "parentId"),
    Shape.optional_int64_iff (hlookup "sortIndex" (by decide)),
    Record.required_string_build_eq_ok_iff (hlookup "type" (by decide))]

/-- **What is read from a canonical value** are the stored blocks that the object holds. -/
theorem shape_ofValue_iff {v : Value} (hv : v.Canonical) {block : WireBlock} :
    WireBlock.shape.ofValue v = .ok block
      ↔ ∃ members, v = .object members ∧ block.IsHeldIn members := by
  have hrest {members : Members} (hmembers : (Value.object members).Canonical) :
      Members.ofList (Record.othersOf Head.record.fields members)
        = members.filter (·.1 ∉ headKeys) := by
    rw [Head.plain_record.othersOf_eq]
    exact ((Value.canonical_object_iff.1 hmembers).1.filter _).ofList_eq
  show ((Head.record.openShape "struct RawBlock").ofValue v >>= fun found => Except.ok
    (WireBlock.mk found.1.id found.1.project found.1.parent found.1.sortIndex found.1.type
      (Members.ofList found.2))) = .ok block ↔ _
  rw [Json.bind_eq_ok_iff]
  constructor
  · rintro ⟨⟨head, others⟩, hopen, hblock⟩
    obtain ⟨members, rfl, -, hbuild, rfl⟩ :=
      (Record.openShape_eq_ok_iff Head.tries_record hv).1 hopen
    obtain rfl := Except.ok.inj hblock
    obtain ⟨hid, hproject, hparent, hsortIndex, htype⟩ := (Head.build_lookup_iff hv).1 hbuild
    exact ⟨members, rfl, hid, hproject, hparent, hsortIndex, htype, hrest hv⟩
  · rintro ⟨members, rfl, hid, hproject, hparent, hsortIndex, htype, hpayload⟩
    have hbuild : Head.record.build (Record.lookup Head.record.fields members)
        = .ok ⟨block.id, block.project, block.parent, block.sortIndex, block.type⟩ :=
      (Head.build_lookup_iff hv).2 ⟨hid, hproject, hparent, hsortIndex, htype⟩
    have hdistinct := Head.plain_record.distinct (Value.canonical_object_iff.1 hv).1.nodup
    refine ⟨_, (Record.openShape_eq_ok_iff Head.tries_record hv).2
      ⟨members, rfl, hdistinct, hbuild, rfl⟩, ?_⟩
    rw [hrest hv, ← hpayload]

/-! ## What is written -/

/-- **What a block needs to be read back**: an index of 64 bits, and a canonical payload without
keys that have a meaning of their own. -/
structure IsStorable (block : WireBlock) : Prop where
  low : -2 ^ 63 ≤ block.sortIndex
  high : block.sortIndex ≤ 2 ^ 63 - 1
  canonical : (Value.object block.payload).Canonical
  apart : ∀ key ∈ headKeys, block.payload.get? key = none

/-- **Every block that was read has it.** -/
theorem IsHeldIn.isStorable {members : Members} {block : WireBlock} (h : block.IsHeldIn members)
    (hmembers : (Value.object members).Canonical) : block.IsStorable := by
  obtain ⟨hascends, hvalues⟩ := Value.canonical_object_iff.1 hmembers
  refine ⟨h.sortIndex.bounds.1, h.sortIndex.bounds.2, Value.canonical_object_iff.2 ?_,
    fun key hkey => ?_⟩
  · rw [h.payload]
    exact ⟨hascends.filter _, fun member hmember => hvalues member (List.mem_of_mem_filter hmember)⟩
  · rw [h.payload, get?_filter_headKeys, if_pos hkey]

/-- The members that are written for the head. -/
def headMembers (block : WireBlock) : Members :=
  [("id", block.id.toValue)]
    ++ (match block.project with
      | some project => [("projectId", project.toValue)]
      | none => [])
    ++ [("parentId", Value.ofOption BlockId.toValue block.parent),
      ("sortIndex", Value.ofInt block.sortIndex), ("type", .string block.type)]

theorem toValue_eq (block : WireBlock) :
    block.toValue = .object (Members.ofList (block.headMembers ++ block.payload)) := rfl

theorem keys_headMembers_sublist (block : WireBlock) :
    (block.headMembers.map (·.1)).Sublist headKeys := by
  unfold headMembers
  split
  · exact .refl _
  · exact .cons_cons "id" (.cons "projectId" (.refl _))

theorem get?_headMembers_of_notMem (block : WireBlock) {key : String} (h : key ∉ headKeys) :
    block.headMembers.get? key = none := by
  by_contra hne
  exact h (block.keys_headMembers_sublist.subset (Members.mem_keys_iff.2 hne))

theorem nodup_keys_written {block : WireBlock} (h : block.IsStorable) :
    ((block.headMembers ++ block.payload).map (·.1)).Nodup := by
  have hhead : headKeys.Nodup := by decide
  rw [List.map_append, List.nodup_append]
  refine ⟨hhead.sublist block.keys_headMembers_sublist,
    (Value.canonical_object_iff.1 h.canonical).1.nodup, ?_⟩
  rintro key hkey _ hpayload rfl
  exact Members.mem_keys_iff.1 hpayload (h.apart key (block.keys_headMembers_sublist.subset hkey))

/-- What stands under a key of what is written. -/
theorem get?_written {block : WireBlock} (h : block.IsStorable) (key : String) :
    Members.get? (Members.ofList (block.headMembers ++ block.payload)) key
      = (block.headMembers.get? key).or (block.payload.get? key) := by
  rw [Members.get?_ofList (nodup_keys_written h), Members.get?_append]

theorem get?_written_of_mem {block : WireBlock} (h : block.IsStorable) {key : String}
    (hkey : key ∈ headKeys) :
    Members.get? (Members.ofList (block.headMembers ++ block.payload)) key
      = block.headMembers.get? key := by
  rw [get?_written h, h.apart key hkey, Option.or_none]

/-- What stands in the head that is written. -/
theorem get?_headMembers (block : WireBlock) :
    block.headMembers.get? "id" = some (.string block.id.text)
      ∧ block.headMembers.get? "projectId" = block.project.map (fun project => .string project.text)
      ∧ block.headMembers.get? "parentId"
        = some (Value.ofOption (fun parent : BlockId => .string parent.text) block.parent)
      ∧ block.headMembers.get? "sortIndex" = some (.ofInt block.sortIndex)
      ∧ block.headMembers.get? "type" = some (.string block.type) := by
  unfold headMembers
  cases block.project with
  | none => exact ⟨rfl, rfl, rfl, rfl, rfl⟩
  | some project => exact ⟨rfl, rfl, rfl, rfl, rfl⟩

/-- **A block is written key by key.** -/
theorem IsStorable.isWrittenAs {block : WireBlock} (h : block.IsStorable) :
    block.IsWrittenAs (Members.ofList (block.headMembers ++ block.payload)) := by
  obtain ⟨hid, hproject, hparent, hsortIndex, htype⟩ := block.get?_headMembers
  refine ⟨(get?_written_of_mem h (by decide)).trans hid,
    (get?_written_of_mem h (by decide)).trans hproject,
    (get?_written_of_mem h (by decide)).trans hparent,
    (get?_written_of_mem h (by decide)).trans hsortIndex,
    (get?_written_of_mem h (by decide)).trans htype, fun key hkey => ?_⟩
  rw [get?_written h, block.get?_headMembers_of_notMem hkey, Option.none_or]

theorem canonical_headMembers (block : WireBlock) :
    ∀ member ∈ block.headMembers, member.2.Canonical := by
  have hproject : ∀ member ∈ (match block.project with
      | some project => [("projectId", project.toValue)]
      | none => []), member.2.Canonical := by
    cases block.project with
    | none => exact List.forall_mem_nil _
    | some project => exact List.forall_mem_singleton.2 trivial
  have hparent : (Value.ofOption BlockId.toValue block.parent).Canonical := by
    cases block.parent with
    | none => trivial
    | some parent => trivial
  refine List.forall_mem_append.2 ⟨List.forall_mem_append.2 ⟨?_, hproject⟩, ?_⟩
  · exact List.forall_mem_singleton.2 trivial
  · exact List.forall_mem_cons.2 ⟨hparent, List.forall_mem_cons.2
      ⟨trivial, List.forall_mem_singleton.2 trivial⟩⟩

theorem IsStorable.canonical_toValue {block : WireBlock} (h : block.IsStorable) :
    block.toValue.Canonical := by
  rw [toValue_eq, Value.canonical_object_iff]
  refine ⟨Members.ascends_ofList _, fun member hmember => ?_⟩
  rcases List.mem_append.1 (Members.mem_ofList hmember) with hmember | hmember
  · exact block.canonical_headMembers member hmember
  · exact (Value.canonical_object_iff.1 h.canonical).2 member hmember

/-- **What is written holds the block.** -/
theorem IsWrittenAs.isHeldIn {block : WireBlock} {written : Members}
    (hwritten : block.IsWrittenAs written) (h : block.IsStorable) (hascends : written.Ascends) :
    block.IsHeldIn written where
  id := ⟨_, hwritten.id, .text block.id.text⟩
  project := by
    rw [hwritten.project]
    cases block.project with
    | none => exact .absent
    | some project => exact .given (.text project.text)
  parent := by
    rw [hwritten.parent]
    cases block.parent with
    | none => exact .null
    | some parent => exact .given (.text parent.text)
  sortIndex := by
    rw [hwritten.sortIndex]
    exact .given block.sortIndex h.low h.high
  type := hwritten.type
  payload := by
    refine Members.ext_of_ascends (Value.canonical_object_iff.1 h.canonical).1
      (hascends.filter _) fun key => ?_
    rw [get?_filter_headKeys]
    split
    · rename_i hkey
      exact h.apart key hkey
    · rename_i hkey
      exact (hwritten.payload key hkey).symm

/-- **A stored block survives being written and read.** What is read from a value are the blocks
that it holds, whichever spelling it uses for the ids, the project, the parent and the index. For
every block that was read:

* reading what is written gives that block again, and writing it again gives the same value;
* what is written is an object that holds the block too, in the one spelling of each;
* every key without a meaning of its own stands for the same value in both;
* no key of the payload is one that has a meaning of its own. -/
theorem shape_toValue {v : Value} (hv : v.Canonical) :
    (∀ block : WireBlock, WireBlock.shape.ofValue v = .ok block
        ↔ ∃ members, v = .object members ∧ block.IsHeldIn members)
      ∧ ∀ block : WireBlock, WireBlock.shape.ofValue v = .ok block →
        WireBlock.shape.ofValue block.toValue = .ok block
        ∧ (WireBlock.shape.ofValue block.toValue).map toValue = .ok block.toValue
        ∧ (∃ members written : Members, v = .object members ∧ block.toValue = .object written
          ∧ block.IsHeldIn written ∧ block.IsWrittenAs written
          ∧ ∀ key ∉ headKeys, written.get? key = members.get? key)
        ∧ ∀ key ∈ headKeys, block.payload.get? key = none := by
  refine ⟨fun block => shape_ofValue_iff hv, fun block h => ?_⟩
  obtain ⟨members, rfl, hheld⟩ := (shape_ofValue_iff hv).1 h
  have hstorable := hheld.isStorable hv
  have hwritten := hstorable.isWrittenAs
  have hagain : block.IsHeldIn (Members.ofList (block.headMembers ++ block.payload)) :=
    hwritten.isHeldIn hstorable (Members.ascends_ofList _)
  have hread : WireBlock.shape.ofValue block.toValue = .ok block :=
    (shape_ofValue_iff hstorable.canonical_toValue).2 ⟨_, block.toValue_eq, hagain⟩
  refine ⟨hread, by rw [hread]; rfl,
    ⟨members, _, rfl, block.toValue_eq, hagain, hwritten, fun key hkey => ?_⟩, hstorable.apart⟩
  rw [hwritten.payload key hkey, hheld.payload, get?_filter_headKeys, if_neg hkey]

/-- A stored text whose id is a number, whose project is null and whose index is left out. -/
def numberedText : Value :=
  .object [("content", .string "Contents"), ("id", .ofInt (-7)), ("note", .array [.null]),
    ("parentId", .string "b0"), ("projectId", .null), ("type", .string "text")]

theorem shape_toValue_numberedText :
    numberedText.Canonical
      ∧ ∃ block, WireBlock.shape.ofValue numberedText = .ok block
        ∧ WireBlock.shape.ofValue block.toValue = .ok block
        ∧ block.toValue = .object [("content", .string "Contents"), ("id", .string "-7"),
          ("note", .array [.null]), ("parentId", .string "b0"), ("sortIndex", .ofInt 0),
          ("type", .string "text")] := by
  have hcanonical : numberedText.Canonical := by
    simp only [numberedText, Value.Canonical, Value.CanonicalMembers, Value.CanonicalItems,
      Value.ofInt, and_true]
    decide
  have hread : WireBlock.shape.ofValue numberedText = .ok ⟨⟨"-7"⟩, none, some ⟨"b0"⟩, 0, "text",
      [("content", .string "Contents"), ("note", .array [.null])]⟩ := rfl
  exact ⟨hcanonical, _, hread, ((shape_toValue hcanonical).2 _ hread).1, rfl⟩

end WireBlock

end SafePreview
