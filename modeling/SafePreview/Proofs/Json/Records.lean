import Mathlib.Data.List.Pairwise
import SafePreview.Proofs.Json.Held

/-!
# Reading records from held objects

A record visits the members of an object one after another, tries each known one at once, and builds
its result afterwards from the trees that it found. For an object that is held the order of the
members cannot matter, and this module says what is left: the result is built from what stands under
the names of the fields, provided that no field is there twice (`Record.ofMembers_eq_ok_iff`). Twice
can only be said of a field that goes by several names, since no key is repeated.

That trying a member adds nothing to building from it holds of records that are put together in the
usual way (`Record.Tries`): whatever such a record builds from it accepts.
-/

namespace SafePreview.Json

namespace Record

/-! ## What a visit finds -/

/-- The name of the field that goes by a key. -/
def fieldName? (fields : List Field) (key : String) : Option String :=
  (field? fields key).map (·.name)

theorem fieldName?_of_some {fields : List Field} {key : String} {f : Field}
    (h : field? fields key = some f) : fieldName? fields key = some f.name :=
  congrArg (Option.map _) h

theorem fieldName?_of_none {fields : List Field} {key : String} (h : field? fields key = none) :
    fieldName? fields key = none := congrArg (Option.map _) h

theorem fieldName?_nil (key : String) : fieldName? [] key = none := rfl

theorem fieldName?_cons (f : Field) (fields : List Field) (key : String) :
    fieldName? (f :: fields) key
      = if f.name = key ∨ key ∈ f.aliases then some f.name else fieldName? fields key := by
  unfold fieldName? field?
  rw [List.find?_cons]
  split
  · rename_i h
    rw [if_pos (of_decide_eq_true h), Option.map_some]
  · rename_i h
    rw [if_neg (of_decide_eq_false h)]

/-- The field that goes by a key is one of the fields, and the key is one of its names. -/
theorem of_field?_eq_some {fields : List Field} {key : String} {f : Field}
    (h : field? fields key = some f) : f ∈ fields ∧ (f.name = key ∨ key ∈ f.aliases) := by
  have hfound := List.find?_some h
  exact ⟨List.mem_of_find?_eq_some h, of_decide_eq_true hfound⟩

/-- The keys by which the fields go. -/
def keysOf (fields : List Field) : List String := fields.flatMap fun f => f.name :: f.aliases

theorem mem_keysOf {fields : List Field} {key : String} (h : (fieldName? fields key).isSome) :
    key ∈ keysOf fields := by
  rw [fieldName?, Option.isSome_map] at h
  obtain ⟨f, hfield⟩ := Option.isSome_iff_exists.1 h
  obtain ⟨hf, hkey⟩ := of_field?_eq_some hfield
  exact List.mem_flatMap.2 ⟨f, hf, List.mem_cons.2 (hkey.imp_left Eq.symm)⟩

/-- Members that are fields, each under the name of its field. -/
def knownOf (fields : List Field) (members : Members) : List (String × Tree) :=
  members.filterMap fun member =>
    (fieldName? fields member.1).map fun name => (name, Tree.ofValue member.2)

/-- Members that are no fields. -/
def othersOf (fields : List Field) (members : Members) : Members :=
  members.filter fun member => (fieldName? fields member.1).isNone

/-- Each member that is a field is accepted, and each that is none passes the other test. -/
structure Passes (fields : List Field) (other : Tree → Except Error Unit) (members : Members) :
    Prop where
  known : ∀ member ∈ members, ∀ f, field? fields member.1 = some f →
    f.accepts (Tree.ofValue member.2) = .ok ()
  others : ∀ member ∈ members, field? fields member.1 = none →
    other (Tree.ofValue member.2) = .ok ()

section

variable {fields : List Field} {other : Tree → Except Error Unit}

theorem passes_nil : Passes fields other [] := ⟨fun _ h => absurd h List.not_mem_nil,
  fun _ h => absurd h List.not_mem_nil⟩

theorem passes_cons_of_some {member : String × Value} {f : Field}
    (h : field? fields member.1 = some f) (rest : Members) :
    Passes fields other (member :: rest)
      ↔ f.accepts (Tree.ofValue member.2) = .ok () ∧ Passes fields other rest := by
  constructor
  · intro hpasses
    obtain ⟨hfirst, hknown⟩ := List.forall_mem_cons.1 hpasses.known
    exact ⟨hfirst f h, hknown, (List.forall_mem_cons.1 hpasses.others).2⟩
  · rintro ⟨haccepts, hknown, hothers⟩
    refine ⟨List.forall_mem_cons.2 ⟨fun g hg => ?_, hknown⟩,
      List.forall_mem_cons.2 ⟨fun hnone => ?_, hothers⟩⟩
    · rw [h] at hg
      exact Option.some.inj hg ▸ haccepts
    · rw [h] at hnone
      cases hnone

theorem passes_cons_of_none {member : String × Value} (h : field? fields member.1 = none)
    (rest : Members) :
    Passes fields other (member :: rest)
      ↔ other (Tree.ofValue member.2) = .ok () ∧ Passes fields other rest := by
  constructor
  · intro hpasses
    obtain ⟨hfirst, hothers⟩ := List.forall_mem_cons.1 hpasses.others
    exact ⟨hfirst h, (List.forall_mem_cons.1 hpasses.known).2, hothers⟩
  · rintro ⟨hfirst, hknown, hothers⟩
    refine ⟨List.forall_mem_cons.2 ⟨fun f hf => ?_, hknown⟩,
      List.forall_mem_cons.2 ⟨fun _ => hfirst, hothers⟩⟩
    rw [h] at hf
    cases hf

theorem knownOf_cons_of_some {member : String × Value} {f : Field}
    (h : field? fields member.1 = some f) (rest : Members) :
    knownOf fields (member :: rest)
      = (f.name, Tree.ofValue member.2) :: knownOf fields rest :=
  List.filterMap_cons_some (congrArg (Option.map _) (fieldName?_of_some h))

theorem knownOf_cons_of_none {member : String × Value} (h : field? fields member.1 = none)
    (rest : Members) : knownOf fields (member :: rest) = knownOf fields rest :=
  List.filterMap_cons_none (congrArg (Option.map _) (fieldName?_of_none h))

theorem othersOf_cons_of_some {member : String × Value} {f : Field}
    (h : field? fields member.1 = some f) (rest : Members) :
    othersOf fields (member :: rest) = othersOf fields rest :=
  List.filter_cons_of_neg (by simp [fieldName?_of_some h])

theorem othersOf_cons_of_none {member : String × Value} (h : field? fields member.1 = none)
    (rest : Members) : othersOf fields (member :: rest) = member :: othersOf fields rest :=
  List.filter_cons_of_pos (by simp [fieldName?_of_none h])

/-! ## One member after another -/

section

variable {key : String} {f : Field} {t : Tree} {rest : List (Option String × Tree)} {v : Visit}

theorem visit_cons_of_none (h : field? fields key = none) :
    visit fields other ((some key, t) :: rest) v
      = other t >>= fun _ => visit fields other rest ⟨v.known, v.others ++ [(key, t)]⟩ := by
  rw [visit, h]

theorem any_known_iff : v.known.any (·.1 = f.name) = true ↔ f.name ∈ v.known.map (·.1) := by
  rw [List.any_eq_true, List.mem_map]
  exact exists_congr fun entry => and_congr_right fun _ => decide_eq_true_iff

theorem visit_cons_of_mem (h : field? fields key = some f) (hmet : f.name ∈ v.known.map (·.1)) :
    visit fields other ((some key, t) :: rest) v
      = .error (.mismatch (.duplicateField f.name)) := by
  rw [visit, h]
  exact if_pos (any_known_iff.2 hmet)

theorem visit_cons_of_not_mem (h : field? fields key = some f)
    (hnew : f.name ∉ v.known.map (·.1)) :
    visit fields other ((some key, t) :: rest) v
      = f.accepts t >>= fun _ => visit fields other rest ⟨v.known ++ [(f.name, t)], v.others⟩ := by
  rw [visit, h]
  exact if_neg fun hmet => hnew (any_known_iff.1 hmet)

end

/-- **What a visit comes to.** It ends well exactly if every member passes and no field is met
twice; and then it has found the fields and the others, in order. -/
theorem visit_eq_ok_iff {members : Members} {v w : Visit} (hnodup : (v.known.map (·.1)).Nodup) :
    visit fields other (Tree.ofMembers members) v = .ok w
      ↔ Passes fields other members
        ∧ ((v.known ++ knownOf fields members).map (·.1)).Nodup
        ∧ w = ⟨v.known ++ knownOf fields members, v.others
          ++ (othersOf fields members).map fun member => (member.1, Tree.ofValue member.2)⟩ := by
  induction members generalizing v with
  | nil =>
    show Except.ok v = .ok w ↔ _
    rw [Except.ok.injEq, and_iff_right passes_nil, knownOf, List.filterMap_nil, List.append_nil,
      and_iff_right hnodup, eq_comm]
    exact (List.append_nil v.others).symm ▸ Iff.rfl
  | cons member rest ih =>
    obtain ⟨key, value⟩ := member
    rw [Tree.ofMembers]
    cases hfield : field? fields key with
    | none =>
      rw [visit_cons_of_none hfield, test_bind_eq_ok_iff, passes_cons_of_none hfield,
        knownOf_cons_of_none hfield, othersOf_cons_of_none hfield, List.map_cons]
      have hrest := @ih ⟨v.known, v.others ++ [(key, Tree.ofValue value)]⟩ hnodup
      rw [List.append_assoc, List.singleton_append] at hrest
      simp only [hrest, and_assoc]
    | some f =>
      rw [passes_cons_of_some hfield, knownOf_cons_of_some hfield, othersOf_cons_of_some hfield]
      by_cases hmet : f.name ∈ v.known.map (·.1)
      · -- a second member of the field: the visit ends, and the names are not distinct
        rw [visit_cons_of_mem hfield hmet]
        refine iff_of_false nofun fun ⟨_, hdistinct, _⟩ => ?_
        rw [List.map_append, List.map_cons, List.nodup_append] at hdistinct
        exact hdistinct.2.2 _ hmet _ List.mem_cons_self rfl
      · have hone : ((v.known ++ [(f.name, Tree.ofValue value)]).map (·.1)).Nodup := by
          rw [List.map_append, List.nodup_append]
          refine ⟨hnodup, List.nodup_singleton _, fun a ha b hb he => hmet ?_⟩
          have hname : a = f.name := he.trans (List.mem_singleton.1 hb)
          exact hname ▸ ha
        rw [visit_cons_of_not_mem hfield hmet, test_bind_eq_ok_iff]
        have hrest := @ih ⟨v.known ++ [(f.name, Tree.ofValue value)], v.others⟩ hone
        rw [List.append_assoc, List.singleton_append] at hrest
        simp only [hrest, and_assoc]

end

/-! ## The fields among held members -/

/-- **No field is there twice**, whatever names it goes by. -/
def Distinct (fields : List Field) (members : Members) : Prop :=
  ((knownOf fields members).map (·.1)).Nodup

/-- Two keys that are not both names of one field. -/
def Apart (fields : List Field) (a b : String) : Prop :=
  ∀ name, fieldName? fields a = some name → fieldName? fields b ≠ some name

instance (fields : List Field) : Std.Symm (Apart fields) :=
  ⟨fun _ _ h name hb ha => h name ha hb⟩

/-- What stands under the name of a field. -/
def lookup (fields : List Field) (members : Members) : String → Option Tree :=
  Visit.get? ⟨knownOf fields members, []⟩

section

variable {fields : List Field} {members : Members}

theorem map_fst_knownOf (fields : List Field) (members : Members) :
    (knownOf fields members).map (·.1) = (members.map (·.1)).filterMap (fieldName? fields) := by
  rw [knownOf, List.map_filterMap, List.filterMap_map]
  refine congrArg (List.filterMap · members) (funext fun member => ?_)
  show ((fieldName? fields member.1).map _).map _ = fieldName? fields member.1
  rw [Option.map_map]
  exact Option.map_id'

theorem mem_knownOf_iff {name : String} {t : Tree} :
    (name, t) ∈ knownOf fields members
      ↔ ∃ member ∈ members, fieldName? fields member.1 = some name
        ∧ Tree.ofValue member.2 = t := by
  rw [knownOf, List.mem_filterMap]
  refine exists_congr fun member => and_congr_right fun _ => ?_
  rw [Option.map_eq_some_iff]
  constructor
  · rintro ⟨found, hfound, he⟩
    obtain ⟨rfl, rfl⟩ := Prod.mk.inj he
    exact ⟨hfound, rfl⟩
  · rintro ⟨hname, rfl⟩
    exact ⟨name, hname, rfl⟩

/-- **No field is there twice** exactly if no two keys that are there are names of one field. -/
theorem distinct_iff (hkeys : (members.map (·.1)).Nodup) :
    Distinct fields members
      ↔ ∀ a ∈ members.map (·.1), ∀ b ∈ members.map (·.1), a ≠ b → Apart fields a b := by
  have hpairs : Distinct fields members ↔ (members.map (·.1)).Pairwise (Apart fields) := by
    rw [Distinct, map_fst_knownOf, List.Nodup, List.pairwise_filterMap]
    refine iff_of_eq (congrArg (List.Pairwise · _) (funext₂ fun a b => propext ?_))
    exact ⟨fun h name ha hb => h name ha name hb rfl, fun h m ha n hb he => h m ha (he ▸ hb)⟩
  rw [hpairs]
  exact ⟨fun h a ha b hb hne => h.forall ha hb hne, hkeys.pairwise_of_forall_ne⟩

theorem mem_knownOf_of_lookup {name : String} {t : Tree} (h : lookup fields members name = some t) :
    (name, t) ∈ knownOf fields members := by
  obtain ⟨entry, hfind, rfl⟩ := Option.map_eq_some_iff.1 h
  have hfound := List.find?_some hfind
  have hname : entry.1 = name := of_decide_eq_true hfound
  exact hname ▸ List.mem_of_find?_eq_some hfind

theorem lookup_of_mem_knownOf (hdistinct : Distinct fields members) {name : String} {t : Tree}
    (h : (name, t) ∈ knownOf fields members) : lookup fields members name = some t := by
  have hsome : (lookup fields members name).isSome := by
    rw [lookup, Visit.get?, Option.isSome_map, List.find?_isSome]
    exact ⟨(name, t), h, decide_eq_true rfl⟩
  obtain ⟨u, hu⟩ := Option.isSome_iff_exists.1 hsome
  have hsame : (name, u) = (name, t) :=
    List.inj_on_of_nodup_map hdistinct (mem_knownOf_of_lookup hu) h rfl
  rw [hu, (Prod.mk.inj hsame).2]

/-- **What stands under the name of a field** is the value of a key by which the field goes. -/
theorem lookup_eq_some_iff (hascends : members.Ascends) (hdistinct : Distinct fields members)
    {name : String} {t : Tree} :
    lookup fields members name = some t
      ↔ ∃ key value, members.get? key = some value ∧ fieldName? fields key = some name
        ∧ Tree.ofValue value = t := by
  have hmem : lookup fields members name = some t ↔ (name, t) ∈ knownOf fields members :=
    ⟨mem_knownOf_of_lookup, lookup_of_mem_knownOf hdistinct⟩
  rw [hmem, mem_knownOf_iff]
  constructor
  · rintro ⟨⟨key, value⟩, hmember, h⟩
    exact ⟨key, value, hascends.get?_eq_some_iff.2 hmember, h⟩
  · rintro ⟨key, value, hget, h⟩
    exact ⟨(key, value), Members.mem_of_get? hget, h⟩

/-- A field that goes by one key alone. -/
theorem lookup_of_one_key (hascends : members.Ascends) (hdistinct : Distinct fields members)
    {name : String} (hname : ∀ key, fieldName? fields key = some name ↔ key = name) :
    lookup fields members name = (members.get? name).map Tree.ofValue := by
  refine Option.ext fun t => ?_
  rw [lookup_eq_some_iff hascends hdistinct, Option.map_eq_some_iff]
  constructor
  · rintro ⟨key, value, hget, hkey, ht⟩
    exact ⟨value, (hname key).1 hkey ▸ hget, ht⟩
  · rintro ⟨value, hget, ht⟩
    exact ⟨name, value, hget, (hname name).2 rfl, ht⟩

/-- **A field that goes by either of two keys.** Only one of them can be there. -/
theorem lookup_of_two_keys (hascends : members.Ascends) (hdistinct : Distinct fields members)
    {name other : String} (hne : name ≠ other)
    (hname : ∀ key, fieldName? fields key = some name ↔ key = name ∨ key = other) :
    lookup fields members name
      = ((members.get? name).or (members.get? other)).map Tree.ofValue := by
  have hapart (value : Value) (h : members.get? other = some value) : members.get? name = none := by
    by_contra hsome
    refine (distinct_iff hascends.nodup).1 hdistinct name (Members.mem_keys_iff.2 hsome) other
      (Members.mem_keys_iff.2 ?_) hne name ((hname name).2 (.inl rfl)) ((hname other).2 (.inr rfl))
    exact h ▸ Option.some_ne_none value
  refine Option.ext fun t => ?_
  rw [lookup_eq_some_iff hascends hdistinct, Option.map_eq_some_iff]
  constructor
  · rintro ⟨key, value, hget, hkey, ht⟩
    rcases (hname key).1 hkey with rfl | rfl
    · exact ⟨value, by rw [hget, Option.some_or], ht⟩
    · exact ⟨value, by rw [hapart value hget, Option.none_or, hget], ht⟩
  · rintro ⟨value, hget, ht⟩
    rcases Option.or_eq_some_iff.1 hget with hget | ⟨-, hget⟩
    · exact ⟨name, value, hget, (hname name).2 (.inl rfl), ht⟩
    · exact ⟨other, value, hget, (hname other).2 (.inr rfl), ht⟩

/-! ### Fields that go by their names alone -/

/-- **Fields without other names.** -/
def Plain (fields : List Field) : Prop := ∀ f ∈ fields, f.aliases = []

theorem plain_pure {α : Type} (a : α) : Plain (Record.pure a).fields :=
  fun _ hf => absurd hf List.not_mem_nil

theorem plain_fieldOr {α : Type} (name : String) (shape : Shape α) (absent : Except Error α) :
    Plain (fieldOr name [] shape absent).fields := fun _ hf => List.mem_singleton.1 hf ▸ rfl

theorem Plain.seq {α β : Type} {f : Record (α → β)} {r : Record α} (hf : Plain f.fields)
    (hr : Plain r.fields) : Plain (f.seq r).fields := List.forall_mem_append.2 ⟨hf, hr⟩

theorem Plain.fieldName?_eq_some_iff (h : Plain fields) {key name : String} :
    fieldName? fields key = some name ↔ key = name ∧ name ∈ fields.map (·.name) := by
  constructor
  · intro hname
    obtain ⟨f, hfield, rfl⟩ := Option.map_eq_some_iff.1 hname
    obtain ⟨hf, hkey⟩ := of_field?_eq_some hfield
    rw [h f hf] at hkey
    exact ⟨(hkey.resolve_right List.not_mem_nil).symm, List.mem_map_of_mem hf⟩
  · rintro ⟨rfl, hmem⟩
    obtain ⟨f, hf, hkey⟩ := List.mem_map.1 hmem
    have hsome : (field? fields key).isSome :=
      List.find?_isSome.2 ⟨f, hf, decide_eq_true (.inl hkey)⟩
    obtain ⟨g, hg⟩ := Option.isSome_iff_exists.1 hsome
    obtain ⟨hmem, hname⟩ := of_field?_eq_some hg
    rw [h g hmem] at hname
    rw [fieldName?, hg, Option.map_some, hname.resolve_right List.not_mem_nil]

/-- All other keys are those that are none of their names. -/
theorem Plain.othersOf_eq (h : Plain fields) (members : Members) :
    othersOf fields members = members.filter fun member => member.1 ∉ fields.map (·.name) := by
  refine List.filter_congr fun member _ => ?_
  rw [Bool.eq_iff_iff, Option.isNone_iff_eq_none, decide_eq_true_iff,
    Option.eq_none_iff_forall_ne_some]
  constructor
  · exact fun hnone hmem => hnone _ (h.fieldName?_eq_some_iff.2 ⟨rfl, hmem⟩)
  · intro hmem name hname
    obtain ⟨rfl, hname⟩ := h.fieldName?_eq_some_iff.1 hname
    exact hmem hname

/-- Keys that are not repeated name no such field twice. -/
theorem Plain.distinct (h : Plain fields) (hkeys : (members.map (·.1)).Nodup) :
    Distinct fields members := by
  refine (distinct_iff hkeys).2 fun a _ b _ hne name ha hb => hne ?_
  exact (h.fieldName?_eq_some_iff.1 ha).1.trans (h.fieldName?_eq_some_iff.1 hb).1.symm

/-- **Under the name of such a field** stands the value of that key. -/
theorem Plain.lookup_eq (h : Plain fields) (hascends : members.Ascends) {name : String}
    (hname : name ∈ fields.map (·.name)) :
    lookup fields members name = (members.get? name).map Tree.ofValue :=
  lookup_of_one_key hascends (h.distinct hascends.nodup) fun key => by
    rw [h.fieldName?_eq_some_iff, and_iff_left hname]

end

/-! ## Building -/

section

variable {α β : Type} {found : String → Option Tree} {name : String} {aliases : List String}
  {shape : Shape α} {absent : Except Error α} {value? : Option Value} {a : α}

/-- **Whatever a record builds from it accepts**: the test of a field asks no more than what is
built from it. -/
def Tries (r : Record α) : Prop :=
  ∀ ⦃found : String → Option Tree⦄ ⦃a : α⦄, r.build found = .ok a →
    ∀ f ∈ r.fields, ∀ t, found f.name = some t → f.accepts t = .ok ()

theorem tries_pure (a : α) : (Record.pure a).Tries := fun _ _ _ _ hf => absurd hf List.not_mem_nil

/-- A field is built from what stands under its name, and from nothing else. -/
theorem fieldOr_build_congr {found' : String → Option Tree} (aliases : List String)
    (shape : Shape α) (absent : Except Error α) (h : found name = found' name) :
    (fieldOr name aliases shape absent).build found
      = (fieldOr name aliases shape absent).build found' := by
  simp only [fieldOr, h]

theorem fieldOr_build_of_some {t : Tree} (h : found name = some t) :
    (fieldOr name aliases shape absent).build found = shape t := by
  simp only [fieldOr, h]

theorem fieldOr_build_of_none (h : found name = none) :
    (fieldOr name aliases shape absent).build found = absent := by
  simp only [fieldOr, h]

theorem tries_fieldOr (name : String) (aliases : List String) (shape : Shape α)
    (absent : Except Error α) : (fieldOr name aliases shape absent).Tries := by
  intro found a hbuild f hf t ht
  obtain rfl := List.mem_singleton.1 hf
  exact map_eq_ok_iff.2 ⟨a, (fieldOr_build_of_some ht).symm.trans hbuild, rfl⟩

theorem seq_build_eq_ok_iff {f : Record (α → β)} {r : Record α} {b : β} :
    (f.seq r).build found = .ok b
      ↔ ∃ g, f.build found = .ok g ∧ ∃ a, r.build found = .ok a ∧ g a = b := by
  show (f.build found >>= fun g => r.build found >>= fun a => Except.ok (g a)) = .ok b ↔ _
  simp only [bind_eq_ok_iff, Except.ok.injEq]

theorem Tries.seq {f : Record (α → β)} {r : Record α} (hf : f.Tries) (hr : r.Tries) :
    (f.seq r).Tries := by
  intro found b hbuild field hfield t ht
  obtain ⟨g, hg, a, ha, -⟩ := seq_build_eq_ok_iff.1 hbuild
  rcases List.mem_append.1 hfield with hfield | hfield
  · exact hf hg field hfield t ht
  · exact hr ha field hfield t ht

/-- Two fields of their own are built one beside the other. -/
theorem pair_build_eq_ok_iff {r : Record α} {q : Record β} {b : β} :
    (((Record.pure Prod.mk).seq r).seq q).build found = .ok (a, b)
      ↔ r.build found = .ok a ∧ q.build found = .ok b := by
  constructor
  · intro h
    obtain ⟨g, hg, b', hb, he⟩ := seq_build_eq_ok_iff.1 h
    obtain ⟨pair, hpair, a', ha, rfl⟩ := seq_build_eq_ok_iff.1 hg
    obtain rfl := Except.ok.inj hpair
    obtain ⟨rfl, rfl⟩ := Prod.mk.inj he
    exact ⟨ha, hb⟩
  · rintro ⟨ha, hb⟩
    exact seq_build_eq_ok_iff.2 ⟨Prod.mk a, seq_build_eq_ok_iff.2 ⟨Prod.mk, rfl, a, ha, rfl⟩, b,
      hb, rfl⟩

/-- A field is built from the value that stands under its name, or it is absent. -/
theorem fieldOr_build_eq_ok_iff (h : found name = value?.map Tree.ofValue) :
    (fieldOr name aliases shape absent).build found = .ok a
      ↔ (value? = none ∧ absent = .ok a)
        ∨ ∃ value, value? = some value ∧ shape (Tree.ofValue value) = .ok a := by
  cases value? with
  | none =>
    rw [fieldOr_build_of_none h, and_iff_right rfl]
    exact (or_iff_left fun ⟨_, hvalue, _⟩ => nomatch hvalue).symm
  | some value =>
    rw [fieldOr_build_of_some h, or_iff_right fun habsent => nomatch habsent.1]
    exact ⟨fun ha => ⟨value, rfl, ha⟩, fun ⟨_, hvalue, ha⟩ => Option.some.inj hvalue ▸ ha⟩

theorem required_build_eq_ok_iff (h : found name = value?.map Tree.ofValue) :
    (required name shape).build found = .ok a
      ↔ ∃ value, value? = some value ∧ shape (Tree.ofValue value) = .ok a :=
  (fieldOr_build_eq_ok_iff h).trans (or_iff_right fun habsent => nomatch habsent.2)

theorem optional_build_eq_ok_iff {default : α} (h : found name = value?.map Tree.ofValue) :
    (optional name shape default).build found = .ok a
      ↔ (value? = none ∧ default = a)
        ∨ ∃ value, value? = some value ∧ shape (Tree.ofValue value) = .ok a := by
  rw [optional, fieldOr_build_eq_ok_iff h, Except.ok.injEq]

/-- A text that has to be there. -/
theorem required_string_build_eq_ok_iff (h : found name = value?.map Tree.ofValue) {s : String} :
    (required name Shape.string).build found = .ok s ↔ value? = some (.string s) := by
  rw [required_build_eq_ok_iff h]
  simp only [Shape.string_ofValue_iff, exists_eq_right]

end

/-! ## Reading -/

section

variable {α : Type} {r : Record α} {members : Members}

/-- **What a record is built from passes.** -/
theorem Tries.passes (hr : r.Tries) (hdistinct : Distinct r.fields members) {a : α}
    (hbuild : r.build (lookup r.fields members) = .ok a) {other : Tree → Except Error Unit}
    (hother : ∀ member ∈ members, other (Tree.ofValue member.2) = .ok ()) :
    Passes r.fields other members := by
  refine ⟨fun member hmember f hf => ?_, fun member hmember _ => hother member hmember⟩
  have hknown : (f.name, Tree.ofValue member.2) ∈ knownOf r.fields members :=
    mem_knownOf_iff.2 ⟨member, hmember, fieldName?_of_some hf, rfl⟩
  exact hr hbuild f (of_field?_eq_some hf).1 _ (lookup_of_mem_knownOf hdistinct hknown)

/-- The visit of a record's object, what was found being enough to build from. -/
theorem visit_and_build_eq_ok_iff (hr : r.Tries) (other : Tree → Except Error Unit)
    (hother : ∀ member ∈ members, other (Tree.ofValue member.2) = .ok ()) {v : Visit} {a : α} :
    visit r.fields other (Tree.ofMembers members) ⟨[], []⟩ = .ok v ∧ r.build v.get? = .ok a
      ↔ Distinct r.fields members ∧ r.build (lookup r.fields members) = .ok a
        ∧ v = ⟨knownOf r.fields members,
          (othersOf r.fields members).map fun member => (member.1, Tree.ofValue member.2)⟩ := by
  rw [visit_eq_ok_iff (v := ⟨[], []⟩) List.nodup_nil, List.nil_append, List.nil_append]
  constructor
  · rintro ⟨⟨-, hdistinct, rfl⟩, hbuild⟩
    exact ⟨hdistinct, hbuild, rfl⟩
  · rintro ⟨hdistinct, hbuild, rfl⟩
    exact ⟨⟨hr.passes hdistinct hbuild hother, hdistinct, rfl⟩, hbuild⟩

theorem liftFault_skip_ofValue (v : Value) : liftFault (Tree.ofValue v).skip = .ok () :=
  congrArg liftFault (Tree.skip_ofValue v)

/-- **A record from held members**: no field is there twice, and it is built from what stands under
the names of its fields. -/
theorem ofMembers_eq_ok_iff (hr : r.Tries) {a : α} :
    r.ofMembers (Tree.ofMembers members) .held = .ok a
      ↔ Distinct r.fields members ∧ r.build (lookup r.fields members) = .ok a := by
  have hvisit := @visit_and_build_eq_ok_iff _ r members hr (fun t => liftFault t.skip)
    fun member _ => liftFault_skip_ofValue member.2
  show (visit r.fields (fun t => liftFault t.skip) (Tree.ofMembers members) ⟨[], []⟩
    >>= fun v => r.build v.get?) = .ok a ↔ _
  rw [bind_eq_ok_iff]
  constructor
  · rintro ⟨v, h⟩
    obtain ⟨hdistinct, hbuild, -⟩ := hvisit.1 h
    exact ⟨hdistinct, hbuild⟩
  · rintro ⟨hdistinct, hbuild⟩
    exact ⟨_, hvisit.2 ⟨hdistinct, hbuild, rfl⟩⟩

/-- Canonical members are read as themselves. -/
theorem mapM_value_ofValue (members : Members) (h : ∀ member ∈ members, member.2.Canonical) :
    (members.map fun member => (member.1, Tree.ofValue member.2)).mapM
        (fun member : String × Tree => do return (member.1, ← Shape.value member.2))
      = (.ok members : Except Error Members) := by
  induction members with
  | nil => rfl
  | cons member rest ih =>
    obtain ⟨hfirst, hrest⟩ := List.forall_mem_cons.1 h
    rw [List.map_cons, List.mapM_cons, Shape.value, Tree.value_ofValue member.2 hfirst, ih hrest]
    rfl

/-- **A record and all that is none of its fields, from a canonical value**: the value is an object,
no field is there twice, the record is built from what stands under the names of its fields, and
the rest is as it was. -/
theorem openShape_eq_ok_iff (hr : r.Tries) {wanted : String} {v : Value} (hv : v.Canonical) {a : α}
    {others : Members} :
    (r.openShape wanted).ofValue v = .ok (a, others)
      ↔ ∃ members, v = .object members ∧ Distinct r.fields members
        ∧ r.build (lookup r.fields members) = .ok a ∧ others = othersOf r.fields members := by
  cases v with
  | object members =>
    have hcanonical := (Value.canonical_object_iff.1 hv).2
    have hvalue (member : String × Value) (hmember : member ∈ members) :
        (do let _ ← liftFault (Tree.ofValue member.2).value) = (.ok () : Except Error Unit) := by
      rw [Tree.value_ofValue member.2 (hcanonical member hmember)]
      rfl
    have hvisit := @visit_and_build_eq_ok_iff _ r members hr
      (fun t => do let _ ← liftFault t.value) hvalue
    show (visit r.fields (fun t => do let _ ← liftFault t.value) (Tree.ofMembers members) ⟨[], []⟩
      >>= fun v => r.build v.get? >>= fun a => v.others.mapM (fun member => do
          return (member.1, ← Shape.value member.2)) >>= fun others => Except.ok (a, others))
        = .ok (a, others) ↔ _
    have hothers := mapM_value_ofValue (othersOf r.fields members) fun member hmember =>
      hcanonical member (List.mem_of_mem_filter hmember)
    rw [bind_eq_ok_iff]
    constructor
    · rintro ⟨v, hv, hrest⟩
      obtain ⟨b, hbuild, hrest⟩ := bind_eq_ok_iff.1 hrest
      obtain ⟨hdistinct, hbuild, rfl⟩ := hvisit.1 ⟨hv, hbuild⟩
      rw [hothers] at hrest
      obtain ⟨rfl, rfl⟩ := Prod.mk.inj (Except.ok.inj hrest)
      exact ⟨members, rfl, hdistinct, hbuild, rfl⟩
    · rintro ⟨_, hobject, hdistinct, hbuild, rfl⟩
      obtain rfl := Value.object.inj hobject
      obtain ⟨hv, hbuild⟩ := hvisit.2 ⟨hdistinct, hbuild, rfl⟩
      refine ⟨_, hv, bind_eq_ok_iff.2 ⟨a, hbuild, ?_⟩⟩
      rw [hothers]
      rfl
  | null => exact iff_of_false nofun nofun
  | bool b => exact iff_of_false nofun nofun
  | number n => exact iff_of_false nofun nofun
  | string s => exact iff_of_false nofun nofun
  | array items => exact iff_of_false nofun nofun

/-! ### What cannot matter -/

/-- What a visit finds depends on the fields alone, if all the rest passes. -/
theorem map_known_visit_filter {fields : List Field} {other : Tree → Except Error Unit}
    (hother : ∀ member ∈ members, other (Tree.ofValue member.2) = .ok ()) {v w : Visit}
    (h : v.known = w.known) :
    (visit fields other (Tree.ofMembers members) v).map (·.known)
      = (visit fields other (Tree.ofMembers
          (members.filter fun member => (fieldName? fields member.1).isSome)) w).map (·.known) := by
  induction members generalizing v w with
  | nil => exact congrArg Except.ok h
  | cons member rest ih =>
    obtain ⟨key, value⟩ := member
    obtain ⟨hfirst, hrest⟩ := List.forall_mem_cons.1 hother
    cases hfield : field? fields key with
    | none =>
      rw [List.filter_cons_of_neg (by simp [fieldName?_of_none hfield]), Tree.ofMembers,
        visit_cons_of_none hfield, hfirst]
      exact ih hrest h
    | some f =>
      rw [List.filter_cons_of_pos (by simp [fieldName?_of_some hfield]), Tree.ofMembers,
        Tree.ofMembers]
      by_cases hmet : f.name ∈ v.known.map (·.1)
      · rw [visit_cons_of_mem hfield hmet, visit_cons_of_mem hfield (h ▸ hmet)]
      · rw [visit_cons_of_not_mem hfield hmet, visit_cons_of_not_mem hfield (h ▸ hmet)]
        cases f.accepts (Tree.ofValue value) with
        | error e => rfl
        | ok _ => exact ih hrest (congrArg (· ++ [(f.name, Tree.ofValue value)]) h)

/-- A record is built from what the visit found for its fields. -/
theorem ofMembers_held (r : Record α) (members : Members) :
    r.ofMembers (Tree.ofMembers members) .held
      = (visit r.fields (fun t => liftFault t.skip) (Tree.ofMembers members) ⟨[], []⟩).map
          (·.known) >>= fun known => r.build (Visit.get? ⟨known, []⟩) := by
  unfold ofMembers
  cases visit r.fields (fun t => liftFault t.skip) (Tree.ofMembers members) ⟨[], []⟩ with
  | error e => rfl
  | ok v => rfl

/-- **Members that are no fields make no difference**, neither to the result nor to the error. -/
theorem ofMembers_congr {others : Members} (hmembers : members.Ascends) (hothers : others.Ascends)
    (h : ∀ key ∈ keysOf r.fields, members.get? key = others.get? key) :
    r.ofMembers (Tree.ofMembers members) .held = r.ofMembers (Tree.ofMembers others) .held := by
  have hfields : members.filter (fun member => (fieldName? r.fields member.1).isSome)
      = others.filter fun member => (fieldName? r.fields member.1).isSome := by
    refine Members.ext_of_ascends (hmembers.filter _) (hothers.filter _) fun key => ?_
    rw [Members.get?_filter fun key => (fieldName? r.fields key).isSome,
      Members.get?_filter fun key => (fieldName? r.fields key).isSome]
    split
    · rename_i hkey
      exact h key (mem_keysOf hkey)
    · rfl
  have hfiltered (members : Members) := @map_known_visit_filter members r.fields
    (fun t => liftFault t.skip) (fun member _ => liftFault_skip_ofValue member.2)
    ⟨[], []⟩ ⟨[], []⟩ rfl
  rw [ofMembers_held, ofMembers_held, hfiltered members, hfiltered others, hfields]

end

end Record

end SafePreview.Json
