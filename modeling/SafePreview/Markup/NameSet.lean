import SafePreview.Text.Character

/-!
# Sets of names

A set of names is a list in strictly ascending order, so that two sets with the same members are
the same list and a set is written in one way only. `insert` keeps the order and drops repetitions.
Names given from outside are normalised first: blanks around them are cut off, letters are put in
lower case, and a name with nothing left is no name.
-/

namespace SafePreview.Markup

/-- The list with a name put in its place, unless it is there. -/
def insertName (name : String) : List String → List String
  | [] => [name]
  | n :: rest =>
    if name < n then name :: n :: rest
    else if name = n then n :: rest
    else n :: insertName name rest

theorem mem_insertName {name : String} {names : List String} {n : String} :
    n ∈ insertName name names ↔ n = name ∨ n ∈ names := by
  induction names with
  | nil => simp [insertName]
  | cons m rest ih =>
    unfold insertName
    split
    · simp
    · split
      · rename_i h
        subst h
        simp
      · simp only [List.mem_cons, ih]
        constructor <;> rintro (h | h | h) <;> simp [h]

theorem pairwise_insertName {name : String} {names : List String}
    (h : names.Pairwise (· < ·)) : (insertName name names).Pairwise (· < ·) := by
  induction names with
  | nil => simp [insertName]
  | cons m rest ih =>
    rw [List.pairwise_cons] at h
    unfold insertName
    split
    · rename_i hlt
      refine List.pairwise_cons.2 ⟨fun n hn => ?_, List.pairwise_cons.2 h⟩
      rcases List.mem_cons.1 hn with rfl | hn
      · exact hlt
      · exact String.lt_trans hlt (h.1 n hn)
    · rename_i hlt
      split
      · exact List.pairwise_cons.2 h
      · rename_i hne
        refine List.pairwise_cons.2 ⟨fun n hn => ?_, ih h.2⟩
        rcases mem_insertName.1 hn with rfl | hn
        · exact Std.lt_of_le_of_ne (String.not_lt.1 hlt) (Ne.symm hne)
        · exact h.1 n hn

/-- **A set of names**, in strictly ascending order. -/
structure NameSet where
  names : List String
  ascending : names.Pairwise (· < ·)
deriving DecidableEq

namespace NameSet

/-- The set without members. -/
def empty : NameSet := ⟨[], List.Pairwise.nil⟩

/-- The set with one more member. -/
def insert (set : NameSet) (name : String) : NameSet :=
  ⟨insertName name set.names, pairwise_insertName set.ascending⟩

/-- Whether a name is in the set. -/
def contains (set : NameSet) (name : String) : Bool := set.names.contains name

/-- A name from outside, or nothing if it is blank. -/
def normalise? (name : String) : Option String :=
  let normal := Text.lower (Text.trim name)
  if normal.isEmpty then none else some normal

/-- **The set with names from outside**, each normalised. -/
def insertAll (set : NameSet) (names : List String) : NameSet :=
  (names.filterMap normalise?).foldl insert set

@[simp] theorem contains_empty (name : String) : empty.contains name = false := rfl

@[simp] theorem contains_insert (set : NameSet) (name n : String) :
    (set.insert name).contains n = (n = name || set.contains n) := by
  simp only [contains, insert, List.contains_eq_mem, Bool.decide_or, mem_insertName]

end NameSet

end SafePreview.Markup
