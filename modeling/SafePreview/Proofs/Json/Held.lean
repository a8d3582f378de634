import Mathlib.Algebra.Group.Int.Defs
import Mathlib.Algebra.Group.Nat.Defs
import SafePreview.Json.Shape
import SafePreview.Proofs.Json.Members

/-!
# Reading values that are held

A shape takes trees apart, and a tree may break off. The tree of a value that is held does not: it
can be passed over, and the value that is read from it is that value again, if it was canonical
(`Tree.value_ofValue`). What is left for the shapes here is to say which values they accept, and
each of these statements names the values themselves.
-/

namespace SafePreview.Json

/-! ## Results -/

/-- A result that was changed is the change of a result. -/
theorem map_eq_ok_iff {ε α β : Type} {x : Except ε α} {f : α → β} {b : β} :
    x.map f = .ok b ↔ ∃ a, x = .ok a ∧ f a = b := by
  cases x with
  | error e => exact iff_of_false nofun fun ⟨_, h, _⟩ => nomatch h
  | ok a =>
    show Except.ok (f a) = .ok b ↔ _
    simp

/-- Two steps give a result exactly if the second gives it from what the first gives. -/
theorem bind_eq_ok_iff {ε α β : Type} {x : Except ε α} {f : α → Except ε β} {b : β} :
    x >>= f = .ok b ↔ ∃ a, x = .ok a ∧ f a = .ok b := by
  cases x with
  | error e => exact iff_of_false nofun fun ⟨_, h, _⟩ => nomatch h
  | ok a =>
    show f a = .ok b ↔ _
    simp

/-- A step behind a test gives a result exactly if the test is passed and the step gives it. -/
theorem test_bind_eq_ok_iff {ε β : Type} {x : Except ε Unit} {f : Unit → Except ε β} {b : β} :
    x >>= f = .ok b ↔ x = .ok () ∧ f () = .ok b :=
  bind_eq_ok_iff.trans ⟨fun ⟨(), h⟩ => h, fun h => ⟨(), h⟩⟩

/-! ## Trees of held values -/

namespace Tree

mutual

/-- **A held value can be passed over.** -/
theorem skip_ofValue : ∀ v : Value, (ofValue v).skip = .ok ()
  | .null => rfl
  | .bool _ => rfl
  | .number _ => rfl
  | .string _ => rfl
  | .array items => by
    rw [ofValue, skip, skipItems_ofItems items]
    rfl
  | .object members => by
    rw [ofValue, skip, skipMembers_ofMembers members]
    rfl

theorem skipItems_ofItems : ∀ items : List Value, skipItems (ofItems items) = .ok ()
  | [] => rfl
  | item :: rest => by
    rw [ofItems, skipItems, skip_ofValue item]
    exact skipItems_ofItems rest

theorem skipMembers_ofMembers : ∀ members : List (String × Value),
    skipMembers (ofMembers members) = .ok ()
  | [] => rfl
  | (_, v) :: rest => by
    rw [ofMembers, skipMembers, skip_ofValue v]
    exact skipMembers_ofMembers rest

end

mutual

/-- **A canonical value is read as itself.** -/
theorem value_ofValue : ∀ v : Value, v.Canonical → (ofValue v).value = .ok v
  | .null, _ => rfl
  | .bool _, _ => rfl
  | .number _, _ => rfl
  | .string _, _ => rfl
  | .array items, h => by
    rw [Value.Canonical] at h
    rw [ofValue, value, itemValues_ofItems items h]
    rfl
  | .object members, h => by
    rw [Value.Canonical] at h
    rw [ofValue, value, memberValues_ofMembers members h.2]
    exact congrArg (fun ms => Except.ok (Value.object ms)) (Members.Ascends.ofList_eq h.1)

theorem itemValues_ofItems : ∀ items : List Value, Value.CanonicalItems items →
    itemValues (ofItems items) = .ok items
  | [], _ => rfl
  | item :: rest, h => by
    rw [Value.CanonicalItems] at h
    rw [ofItems, itemValues, value_ofValue item h.1, itemValues_ofItems rest h.2]
    rfl

theorem memberValues_ofMembers : ∀ members : List (String × Value),
    Value.CanonicalMembers members → memberValues (ofMembers members) = .ok members
  | [], _ => rfl
  | (_, v) :: rest, h => by
    rw [Value.CanonicalMembers] at h
    rw [ofMembers, memberValues, value_ofValue v h.1, memberValues_ofMembers rest h.2]
    rfl

end

end Tree

/-- The values of a canonical object are canonical. -/
theorem Value.CanonicalMembers.mem {members : Members} (h : CanonicalMembers members)
    {member : String × Value} (hmember : member ∈ members) : member.2.Canonical := by
  induction members with
  | nil => exact absurd hmember List.not_mem_nil
  | cons other rest ih =>
    rw [CanonicalMembers] at h
    rcases List.mem_cons.1 hmember with rfl | hmember
    · exact h.1
    · exact ih h.2 hmember

/-- **An object is canonical** if its keys ascend and its values are canonical. -/
theorem Value.canonical_object_iff {members : Members} :
    (Value.object members).Canonical
      ↔ members.Ascends ∧ ∀ member ∈ members, member.2.Canonical := by
  rw [Canonical]
  refine and_congr Iff.rfl ⟨fun h member hmember => h.mem hmember, fun h => ?_⟩
  induction members with
  | nil =>
    rw [CanonicalMembers]
    trivial
  | cons member rest ih =>
    obtain ⟨hfirst, hrest⟩ := List.forall_mem_cons.1 h
    rw [CanonicalMembers]
    exact ⟨hfirst, ih hrest⟩

/-! ## Shapes of held values -/

namespace Shape

/-- The texts. -/
theorem string_ofValue_iff {v : Value} {s : String} :
    Shape.string (Tree.ofValue v) = .ok s ↔ v = .string s := by
  cases v with
  | string t =>
    show Except.ok t = .ok s ↔ _
    rw [Except.ok.injEq, Value.string.injEq]
  | null => exact iff_of_false nofun nofun
  | bool b => exact iff_of_false nofun nofun
  | number n => exact iff_of_false nofun nofun
  | array items => exact iff_of_false nofun nofun
  | object members => exact iff_of_false nofun nofun

/-- The whole numbers within bounds. -/
theorem integer_ofValue_iff {low high : Int} {wanted : String} {v : Value} {n : Int} :
    Shape.integer low high wanted (Tree.ofValue v) = .ok n
      ↔ v = .ofInt n ∧ low ≤ n ∧ n ≤ high := by
  cases v with
  | number number =>
    cases number with
    | integer m =>
      have hsame : Value.number (.integer m) = .ofInt n ↔ m = n := by
        rw [Value.ofInt, Value.number.injEq, Number.integer.injEq]
      show (if low ≤ m ∧ m ≤ high then Except.ok m else _) = _ ↔ _
      rw [hsame]
      split
      · rename_i hbounds
        rw [Except.ok.injEq]
        exact ⟨fun he => ⟨he, he ▸ hbounds⟩, And.left⟩
      · rename_i hbounds
        exact iff_of_false nofun fun ⟨he, hbounds'⟩ => hbounds (he ▸ hbounds')
    | double x => exact iff_of_false nofun fun ⟨h, _⟩ => nomatch h
  | null => exact iff_of_false nofun fun ⟨h, _⟩ => nomatch h
  | bool b => exact iff_of_false nofun fun ⟨h, _⟩ => nomatch h
  | string s => exact iff_of_false nofun fun ⟨h, _⟩ => nomatch h
  | array items => exact iff_of_false nofun fun ⟨h, _⟩ => nomatch h
  | object members => exact iff_of_false nofun fun ⟨h, _⟩ => nomatch h

/-- The counts that have room. -/
theorem count_ofValue_iff {bits : Nat} {wanted : String} {v : Value} {n : Nat} :
    Shape.count bits wanted (Tree.ofValue v) = .ok n ↔ v = .ofNat n ∧ n < 2 ^ bits := by
  have hpow : Int.pow 2 bits = ((2 ^ bits : Nat) : Int) := (Int.natCast_pow 2 bits).symm
  rw [Shape.count, map_eq_ok_iff, hpow]
  constructor
  · rintro ⟨m, hm, rfl⟩
    obtain ⟨rfl, hlow, hhigh⟩ := integer_ofValue_iff.1 hm
    obtain ⟨k, rfl⟩ := Int.eq_ofNat_of_zero_le hlow
    exact ⟨rfl, by omega⟩
  · rintro ⟨rfl, hn⟩
    exact ⟨n, integer_ofValue_iff.2 ⟨rfl, by omega, by omega⟩, rfl⟩

/-- The whole numbers of 64 bits. -/
theorem int64_ofValue_iff {v : Value} {n : Int} :
    Shape.int64 (Tree.ofValue v) = .ok n ↔ v = .ofInt n ∧ -2 ^ 63 ≤ n ∧ n ≤ 2 ^ 63 - 1 :=
  integer_ofValue_iff

/-- Null, or what the shape accepts. -/
theorem option_ofValue_iff {α : Type} {shape : Shape α} {v : Value} {found : Option α} :
    Shape.option shape (Tree.ofValue v) = .ok found
      ↔ (v = .null ∧ found = none)
        ∨ (v ≠ .null ∧ ∃ a, shape (Tree.ofValue v) = .ok a ∧ some a = found) := by
  have hother (hne : v ≠ .null)
      (h : Shape.option shape (Tree.ofValue v) = (shape (Tree.ofValue v)).map some) :
      Shape.option shape (Tree.ofValue v) = .ok found
        ↔ (v = .null ∧ found = none)
          ∨ (v ≠ .null ∧ ∃ a, shape (Tree.ofValue v) = .ok a ∧ some a = found) := by
    rw [h, map_eq_ok_iff, or_iff_right fun hnull => hne hnull.1, and_iff_right hne]
  cases v with
  | null =>
    show Except.ok none = .ok found ↔ _
    rw [Except.ok.injEq, or_iff_left fun h => h.1 rfl, and_iff_right rfl, eq_comm]
  | bool b => exact hother nofun rfl
  | number n => exact hother nofun rfl
  | string s => exact hother nofun rfl
  | array items => exact hother nofun rfl
  | object members => exact hother nofun rfl

end Shape

end SafePreview.Json
