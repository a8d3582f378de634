import SafePreview.Proofs.Session.Mailbox

/-!
# What callers are told

The effects of a life tell of many callers at once. `Link.answersTo` takes out what one of them was
told, and `Link.ofCaller` what belongs to it in any list in which each thing has its caller with it:
contents that are asked for, contents that were taken, receipts. Callers that stand at the same
places of two lists have as much in one as in the other (`Link.length_ofCaller`), which is how an
account of lists becomes one of a single caller.

Receipts are tied to the contents that were taken by their places: the `i`th content taken has the
`i`th receipt, and its revision is the place, counted from the next revision of the session on.
-/

namespace SafePreview

open Markup (SafeMarkup)

namespace Link

/-- **What a caller was told**, in order. -/
def answersTo (caller : Nat) (effects : List Effect) : List Answer :=
  effects.filterMap fun
    | .answered other answer => if other = caller then some answer else none
    | _ => none

theorem answersTo_append (caller : Nat) (first more : List Effect) :
    answersTo caller (first ++ more) = answersTo caller first ++ answersTo caller more :=
  List.filterMap_append

theorem receipts_append (first more : List Effect) :
    receipts (first ++ more) = receipts first ++ receipts more := List.filterMap_append

/-- Who is not among those answered is told nothing. -/
theorem answersTo_eq_nil {caller : Nat} {effects : List Effect}
    (h : ∀ answer, .answered caller answer ∉ effects) :
    answersTo caller effects = [] := by
  refine List.filterMap_eq_nil_iff.2 fun effect hmem => ?_
  cases effect with
  | answered other answer =>
    refine if_neg fun hsame => h answer ?_
    rw [← hsame]
    exact hmem
  | accepted receipt markup => rfl
  | read message => rfl

/-! ## What belongs to one caller -/

/-- What belongs to one caller, where each thing has its caller with it. -/
def ofCaller {α : Type} (caller : Nat) (things : List (Nat × α)) : List (Nat × α) :=
  things.filter (·.1 = caller)

theorem ofCaller_cons_self {α : Type} {caller other : Nat} (h : other = caller) (a : α)
    (things : List (Nat × α)) :
    ofCaller caller ((other, a) :: things) = (other, a) :: ofCaller caller things :=
  List.filter_cons_of_pos (decide_eq_true h)

theorem ofCaller_cons_of_ne {α : Type} {caller other : Nat} (h : other ≠ caller) (a : α)
    (things : List (Nat × α)) : ofCaller caller ((other, a) :: things) = ofCaller caller things :=
  List.filter_cons_of_neg (mt of_decide_eq_true h)

theorem ofCaller_append {α : Type} (caller : Nat) (first more : List (Nat × α)) :
    ofCaller caller (first ++ more) = ofCaller caller first ++ ofCaller caller more :=
  List.filter_append _ _

theorem mem_ofCaller {α : Type} {caller : Nat} {things : List (Nat × α)} {thing : Nat × α} :
    thing ∈ ofCaller caller things ↔ thing ∈ things ∧ thing.1 = caller := by
  rw [ofCaller, List.mem_filter, decide_eq_true_iff]

theorem ofCaller_perm {α : Type} (caller : Nat) {things others : List (Nat × α)}
    (h : things.Perm others) : (ofCaller caller things).Perm (ofCaller caller others) :=
  h.filter _

/-- Who has nothing in a list is not in it. -/
theorem ofCaller_eq_nil_iff {α : Type} {caller : Nat} {things : List (Nat × α)} :
    ofCaller caller things = [] ↔ caller ∉ things.map (·.1) := by
  rw [ofCaller, List.filter_eq_nil_iff, List.mem_map]
  constructor
  · rintro h ⟨thing, hmem, hcaller⟩
    exact h thing hmem (decide_eq_true hcaller)
  · exact fun h thing hmem hcaller => h ⟨thing, hmem, of_decide_eq_true hcaller⟩

/-- Lists of the same callers have as much of one of them. -/
theorem length_ofCaller {α β : Type} (caller : Nat) {things : List (Nat × α)}
    {others : List (Nat × β)} (h : things.map (·.1) = others.map (·.1)) :
    (ofCaller caller things).length = (ofCaller caller others).length := by
  have hcount {γ : Type} (list : List (Nat × γ)) :
      (ofCaller caller list).length = (list.map (·.1)).countP (· = caller) := by
    rw [List.countP_map, ofCaller, List.countP_eq_length_filter]
    rfl
  rw [hcount, hcount, h]

/-! ## Refusals -/

/-- One more refusal, to a caller or to another. -/
theorem answersTo_refused_cons (caller other : Nat) (markup : SafeMarkup)
    {effects : List Effect} {asks : List (Nat × SafeMarkup)}
    (h : answersTo caller effects = (ofCaller caller asks).map fun _ => .refused) :
    answersTo caller (.answered other .refused :: effects)
      = (ofCaller caller ((other, markup) :: asks)).map fun _ => .refused := by
  by_cases hcaller : other = caller
  · have htold : answersTo caller (.answered other .refused :: effects)
        = .refused :: answersTo caller effects := List.filterMap_cons_some (if_pos hcaller)
    rw [ofCaller_cons_self hcaller, htold, h, List.map_cons]
  · have htold : answersTo caller (.answered other .refused :: effects)
        = answersTo caller effects := List.filterMap_cons_none (if_neg hcaller)
    rw [ofCaller_cons_of_ne hcaller, htold, h]

/-- Those whose commands are in the channel are refused, each once. -/
theorem answersTo_queued (caller : Nat) (commands : List Command) :
    answersTo caller (farewell commands [] [])
      = (ofCaller caller (commands.filterMap Command.ask?)).map fun _ => .refused := by
  induction commands with
  | nil => rfl
  | cons command commands ih =>
    cases command with
    | update other markup => exact answersTo_refused_cons caller other markup ih
    | close other => exact ih

/-- So are those who stand in line. -/
theorem answersTo_waiting {caller : Nat} {commands : List Command}
    (h : .close caller ∉ commands) :
    answersTo caller (farewell [] commands [])
      = (ofCaller caller (commands.filterMap Command.ask?)).map fun _ => .refused := by
  induction commands with
  | nil => rfl
  | cons command commands ih =>
    have hmore := ih fun hmem => h (List.mem_cons_of_mem _ hmem)
    cases command with
    | update other markup => exact answersTo_refused_cons caller other markup hmore
    | close other =>
      have hne : other ≠ caller := fun hsame => h (hsame ▸ List.mem_cons_self)
      have htold : answersTo caller (farewell [] (.close other :: commands) [])
          = answersTo caller (farewell [] commands []) := List.filterMap_cons_none (if_neg hne)
      exact htold.trans hmore

/-! ## Receipts -/

/-- The receipts are for the callers whose contents were taken, in the same order, -/
theorem map_fst_receipts {told : List (Nat × Receipt)} {taken : List (Nat × SafeMarkup)} {n : Nat}
    (h : told.map (fun receipt => (receipt.1, receipt.2.revision))
      = taken.mapIdx fun i ask => (ask.1, n + i)) : told.map (·.1) = taken.map (·.1) := by
  have hplaced : (taken.mapIdx fun i ask => (ask.1, n + i)).map (·.1) = taken.map (·.1) := by
    refine List.ext_getElem? fun i => ?_
    rw [List.getElem?_map, List.getElem?_mapIdx, List.getElem?_map, Option.map_map]
    rfl
  rw [← hplaced, ← h, List.map_map]
  rfl

/-- and each has the place of its content for a revision. -/
theorem exists_place {told : List (Nat × Receipt)} {taken : List (Nat × SafeMarkup)} {n : Nat}
    (h : told.map (fun receipt => (receipt.1, receipt.2.revision))
      = taken.mapIdx fun i ask => (ask.1, n + i)) {caller : Nat} {receipt : Receipt}
    (hmem : (caller, receipt) ∈ told) :
    ∃ i markup, taken[i]? = some (caller, markup) ∧ receipt.revision = n + i := by
  have hplaced : (caller, receipt.revision)
      ∈ told.map fun receipt => (receipt.1, receipt.2.revision) := List.mem_map.2 ⟨_, hmem, rfl⟩
  rw [h, List.mem_mapIdx] at hplaced
  obtain ⟨i, hi, hplace⟩ := hplaced
  rw [Prod.mk.injEq] at hplace
  refine ⟨i, taken[i].2, ?_, hplace.2.symm⟩
  rw [List.getElem?_eq_getElem hi, ← hplace.1]

/-- The revisions of the receipts are all numbers from the next one on, without a gap. -/
theorem map_revision_receipts {told : List (Nat × Receipt)} {taken : List (Nat × SafeMarkup)}
    {n : Nat} (h : told.map (fun receipt => (receipt.1, receipt.2.revision))
      = taken.mapIdx fun i ask => (ask.1, n + i)) :
    told.map (·.2.revision) = List.range' n taken.length := by
  have hplaced : (taken.mapIdx fun i ask => (ask.1, n + i)).map (·.2)
      = List.range' n taken.length := by
    refine List.ext_getElem (by simp) fun i _ _ => ?_
    rw [List.getElem_map, List.getElem_mapIdx, List.getElem_range', Nat.one_mul]
  rw [← hplaced, ← h, List.map_map]
  rfl

end Link

end SafePreview
