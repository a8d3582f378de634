import Mathlib.Data.List.Nodup
import SafePreview.Json.Value

/-!
# The members of an object

An object whose keys ascend is known by what is bound to each key (`Members.ext_of_ascends`). So
whoever puts members together in any order, as `Members.ofList` does, may forget the order and look
at the keys one at a time: at each stands what was put there (`Members.get?_ofList`), and the result
ascends.
-/

namespace SafePreview.Json

namespace Members

/-- **Members in canonical order**: the keys ascend, and none is there twice. -/
def Ascends (members : Members) : Prop := (members.map (·.1)).Pairwise (· < ·)

@[simp] theorem get?_nil (key : String) : get? [] key = none := rfl

theorem get?_cons (k : String) (v : Value) (rest : Members) (key : String) :
    get? ((k, v) :: rest) key = if k = key then some v else get? rest key := by
  rw [get?, List.find?_cons]
  by_cases hkey : k = key
  · rw [if_pos hkey, decide_eq_true hkey]
    rfl
  · rw [if_neg hkey, decide_eq_false hkey]
    rfl

/-- What is bound to a key is a member. -/
theorem mem_of_get? {members : Members} {key : String} {value : Value}
    (h : members.get? key = some value) : (key, value) ∈ members := by
  obtain ⟨⟨k, v⟩, hfind, rfl⟩ := Option.map_eq_some_iff.1 h
  have hfound := List.find?_some hfind
  have hkey : k = key := of_decide_eq_true hfound
  exact hkey ▸ List.mem_of_find?_eq_some hfind

/-- A key that no member has is bound to nothing. -/
theorem get?_eq_none_iff {members : Members} {key : String} :
    members.get? key = none ↔ ∀ member ∈ members, member.1 ≠ key := by
  rw [get?, Option.map_eq_none_iff, List.find?_eq_none]
  exact forall₂_congr fun member _ => by rw [decide_eq_true_iff]

/-- The keys are those to which something is bound. -/
theorem mem_keys_iff {members : Members} {key : String} :
    key ∈ members.map (·.1) ↔ members.get? key ≠ none := by
  rw [Ne, get?_eq_none_iff, List.mem_map]
  simp only [not_forall, not_not, exists_prop]

/-- **Members that pass a test of their keys** are bound as before. -/
theorem get?_filter (p : String → Bool) (members : Members) (key : String) :
    get? (members.filter (p ·.1)) key = if p key then members.get? key else none := by
  induction members with
  | nil => exact (ite_self none).symm
  | cons member rest ih =>
    obtain ⟨k, v⟩ := member
    rw [List.filter_cons, get?_cons]
    by_cases hkey : k = key
    · subst hkey
      rw [if_pos rfl]
      split
      · rw [get?_cons, if_pos rfl]
      · rename_i hout
        rw [ih, if_neg hout]
    · rw [if_neg hkey]
      split
      · rw [get?_cons, if_neg hkey, ih]
      · exact ih

theorem get?_append (a b : Members) (key : String) :
    get? (a ++ b) key = (a.get? key).or (b.get? key) := by
  rw [get?, List.find?_append, Option.map_or]
  rfl

/-! ## Ascending members -/

theorem ascends_cons {k : String} {v : Value} {rest : Members} :
    Ascends ((k, v) :: rest) ↔ (∀ member ∈ rest, k < member.1) ∧ rest.Ascends := by
  rw [Ascends, List.map_cons, List.pairwise_cons, List.forall_mem_map]
  rfl

theorem Ascends.nodup {members : Members} (h : members.Ascends) :
    (members.map (·.1)).Nodup :=
  h.imp fun {a b} (hlt : a < b) (he : a = b) => String.lt_irrefl b (he ▸ hlt)

theorem Ascends.filter {members : Members} (h : members.Ascends) (p : String × Value → Bool) :
    Ascends (members.filter p) := h.sublist (List.filter_sublist.map _)

/-- **A member is bound to its key.** -/
theorem Ascends.get?_eq_some_iff {members : Members} (h : members.Ascends) {key : String}
    {value : Value} : members.get? key = some value ↔ (key, value) ∈ members := by
  refine ⟨mem_of_get?, fun hmem => ?_⟩
  induction members with
  | nil => exact absurd hmem List.not_mem_nil
  | cons member rest ih =>
    obtain ⟨k, v⟩ := member
    obtain ⟨hlt, hrest⟩ := ascends_cons.1 h
    rw [get?_cons]
    rcases List.mem_cons.1 hmem with he | hmem
    · obtain ⟨rfl, rfl⟩ := Prod.mk.inj he
      exact if_pos rfl
    · rw [if_neg fun he => String.lt_irrefl _ (he ▸ hlt _ hmem)]
      exact ih hrest hmem

/-- **Ascending members are known by what is bound to each key.** -/
theorem ext_of_ascends {a b : Members} (ha : a.Ascends) (hb : b.Ascends)
    (h : ∀ key, a.get? key = b.get? key) : a = b := by
  have hmem (member : String × Value) : member ∈ a ↔ member ∈ b := by
    obtain ⟨k, v⟩ := member
    rw [← ha.get?_eq_some_iff, ← hb.get?_eq_some_iff, h]
  have hperm : a.Perm b :=
    (List.perm_ext_iff_of_nodup (List.Nodup.of_map _ ha.nodup)
      (List.Nodup.of_map _ hb.nodup)).2 hmem
  refine hperm.eq_of_pairwise (fun x y _ _ hxy hyx => ?_) (List.pairwise_map.1 ha)
    (List.pairwise_map.1 hb)
  exact absurd (String.lt_trans hxy hyx) (String.lt_irrefl _)

/-! ## Members put together -/

theorem get?_insert (key : String) (value : Value) (members : Members) (k : String) :
    get? (members.insert key value) k = if key = k then some value else members.get? k := by
  induction members with
  | nil => exact get?_cons key value [] k
  | cons member rest ih =>
    obtain ⟨k', v'⟩ := member
    rw [insert]
    split
    · exact get?_cons key value _ k
    · split
      · rename_i hsame
        subst hsame
        rw [get?_cons, get?_cons]
        split
        · rfl
        · rfl
      · rename_i hne
        rw [get?_cons, get?_cons, ih]
        by_cases hk : k' = k
        · rw [if_pos hk, if_neg fun he => hne (he.trans hk.symm), if_pos hk]
        · rw [if_neg hk, if_neg hk]

/-- A key that is put in is there, and else only those that were. -/
theorem mem_insert {key : String} {value : Value} {members : Members} {member : String × Value}
    (h : member ∈ members.insert key value) : member = (key, value) ∨ member ∈ members := by
  induction members with
  | nil => exact .inl (List.mem_singleton.1 h)
  | cons other rest ih =>
    rw [insert] at h
    split at h
    · exact List.mem_cons.1 h
    · split at h
      · exact (List.mem_cons.1 h).imp_right (List.mem_cons_of_mem _)
      · rcases List.mem_cons.1 h with rfl | h
        · exact .inr List.mem_cons_self
        · exact (ih h).imp_right (List.mem_cons_of_mem _)

theorem Ascends.insert {members : Members} (h : members.Ascends) (key : String) (value : Value) :
    (members.insert key value).Ascends := by
  induction members with
  | nil => exact List.pairwise_singleton _ _
  | cons member rest ih =>
    obtain ⟨k, v⟩ := member
    obtain ⟨hlt, hrest⟩ := ascends_cons.1 h
    rw [Members.insert]
    split
    · rename_i hfront
      refine ascends_cons.2 ⟨fun other hother => ?_, h⟩
      rcases List.mem_cons.1 hother with rfl | hother
      · exact hfront
      · exact String.lt_trans hfront (hlt other hother)
    · rename_i hfront
      split
      · rename_i hsame
        exact ascends_cons.2 ⟨hsame ▸ hlt, hrest⟩
      · rename_i hne
        refine ascends_cons.2 ⟨fun other hother => ?_, ih hrest⟩
        rcases mem_insert hother with rfl | hother
        · exact Std.lt_of_le_of_ne (String.not_lt.1 hfront) (Ne.symm hne)
        · exact hlt other hother

/-- What members put one after another come to, on top of others. -/
theorem get?_foldl_insert {members : Members} (hnodup : (members.map (·.1)).Nodup)
    (sorted : Members) (key : String) :
    get? (members.foldl (fun sorted member => sorted.insert member.1 member.2) sorted) key
      = (members.get? key).or (sorted.get? key) := by
  induction members generalizing sorted with
  | nil => rfl
  | cons member rest ih =>
    obtain ⟨k, v⟩ := member
    obtain ⟨hfirst, hnodup⟩ := List.nodup_cons.1 hnodup
    rw [List.foldl_cons, ih hnodup, get?_cons, get?_insert]
    by_cases hkey : k = key
    · subst hkey
      have hnone : get? rest k = none :=
        get?_eq_none_iff.2 fun member hmember he =>
          hfirst (List.mem_map.2 ⟨member, hmember, he⟩)
      rw [hnone, if_pos rfl, if_pos rfl]
      rfl
    · rw [if_neg hkey, if_neg hkey]

/-- **At each key stands what was put there.** -/
theorem get?_ofList {members : Members} (hnodup : (members.map (·.1)).Nodup) (key : String) :
    get? (ofList members) key = members.get? key := by
  rw [ofList, get?_foldl_insert hnodup]
  exact Option.or_none

theorem mem_foldl_insert {members sorted : Members} {member : String × Value}
    (h : member ∈ members.foldl (fun sorted member => sorted.insert member.1 member.2) sorted) :
    member ∈ members ∨ member ∈ sorted := by
  induction members generalizing sorted with
  | nil => exact .inr h
  | cons other rest ih =>
    rcases ih h with h | h
    · exact .inl (List.mem_cons_of_mem other h)
    · exact (mem_insert h).imp_left fun he => List.mem_cons.2 (.inl he)

/-- What is there was put there. -/
theorem mem_ofList {members : Members} {member : String × Value} (h : member ∈ ofList members) :
    member ∈ members := (mem_foldl_insert h).resolve_right List.not_mem_nil

theorem ascends_foldl_insert (members : Members) {sorted : Members} (h : sorted.Ascends) :
    Ascends (members.foldl (fun sorted member => sorted.insert member.1 member.2) sorted) := by
  induction members generalizing sorted with
  | nil => exact h
  | cons member rest ih => exact ih (h.insert member.1 member.2)

/-- **Members put together ascend.** -/
theorem ascends_ofList (members : Members) : Ascends (ofList members) :=
  ascends_foldl_insert members .nil

/-- **Members that ascend are put together as they are.** -/
theorem Ascends.ofList_eq {members : Members} (h : members.Ascends) : ofList members = members :=
  ext_of_ascends (ascends_ofList members) h (get?_ofList h.nodup)

end Members

end SafePreview.Json
