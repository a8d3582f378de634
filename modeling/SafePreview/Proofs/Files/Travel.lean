import Mathlib.Logic.Relation
import SafePreview.Files.Route

/-!
# Where a path leads

`walk` goes through a path in one go and says where it ends, or why it does not. This module says
the same one step at a time, as somebody who travels through the tree would meet it: `Answers` is
what a directory says to a name, `Meets` what the traveller is told who has to keep a path short,
`Goes` is one step, and `Ends` lists all that can end the travels. The last two exclude each other
and there is nothing else, so `walk` gives an answer exactly if the travels end with it
(`walk_eq_iff`). Every statement about what is met on a path is one about travels.

A traveller who has taken a step to a name does not stand on a link, and never will
(`Goes.isSolid`): links are followed before anybody could stand there. A place that such a path
leads to is therefore one without links.
-/

namespace SafePreview.Files

/-! ## What stands at a place -/

namespace Node

/-- What stands at a place stands there as seen from anywhere above it. -/
theorem at?_append (node : Node) (place more : Place) :
    node.at? (place ++ more) = (node.at? place).bind fun found => found.at? more := by
  induction place generalizing node with
  | nil =>
    cases node with
    | file bytes => rfl
    | link target => rfl
    | directory entries => rfl
  | cons name place ih =>
    cases node with
    | file bytes => rfl
    | link target => rfl
    | directory entries =>
      rw [List.cons_append, at?, at?]
      cases lookup? entries name with
      | none => rfl
      | some child => exact ih child

/-- What a directory holds under a name stands one place below it. -/
theorem at?_concat {node : Node} {place : Place} {entries : List (String × Node)} (name : String)
    (hstands : node.at? place = some (.directory entries)) :
    node.at? (place ++ [name]) = lookup? entries name := by
  rw [at?_append, hstands, Option.bind_some, at?]
  cases lookup? entries name with
  | none => rfl
  | some child =>
    cases child with
    | file bytes => rfl
    | link target => rfl
    | directory entries => rfl

/-- **A directory** stands at a place. -/
def IsDirectory (tree : Node) (place : Place) : Prop :=
  ∃ entries, tree.at? place = some (.directory entries)

/-- **Something other than a link** stands at a place. -/
def IsSolid (tree : Node) (place : Place) : Prop :=
  ∃ node, tree.at? place = some node ∧ ∀ target, node ≠ .link target

variable {tree : Node} {place more : Place}

theorem IsDirectory.isSolid (h : tree.IsDirectory place) : tree.IsSolid place := by
  obtain ⟨entries, hstands⟩ := h
  exact ⟨_, hstands, nofun⟩

/-- Above a directory there are only directories. -/
theorem IsDirectory.of_append (h : tree.IsDirectory (place ++ more)) : tree.IsDirectory place := by
  obtain ⟨entries, hstands⟩ := h
  rw [at?_append, Option.bind_eq_some_iff] at hstands
  obtain ⟨node, hnode, hbelow⟩ := hstands
  cases node with
  | directory entries => exact ⟨entries, hnode⟩
  | file bytes =>
    cases more with
    | nil => cases hbelow
    | cons name more => cases hbelow
  | link target =>
    cases more with
    | nil => cases hbelow
    | cons name more => cases hbelow

/-- Above anything there is a directory. -/
theorem isDirectory_of_concat {name : String} {node : Node}
    (h : tree.at? (place ++ [name]) = some node) : tree.IsDirectory place := by
  rw [at?_append, Option.bind_eq_some_iff] at h
  obtain ⟨above, habove, hbelow⟩ := h
  cases above with
  | directory entries => exact ⟨entries, habove⟩
  | file bytes => cases hbelow
  | link target => cases hbelow

/-- One place up from something other than a link there is no link either. -/
theorem IsSolid.dropLast (h : tree.IsSolid place) : tree.IsSolid place.dropLast := by
  rcases List.eq_nil_or_concat place with rfl | ⟨above, name, rfl⟩
  · exact h
  · obtain ⟨node, hstands, -⟩ := h
    rw [List.concat_eq_append] at hstands ⊢
    rw [List.dropLast_concat]
    exact (isDirectory_of_concat hstands).isSolid

end Node

/-! ## Travels -/

/-- **Somebody on the way**: the links that may still be followed, the place, and the steps that are
left. -/
structure Traveller where
  links : Nat
  place : Place
  steps : List Step

/-- **The answer of a directory** to a name. -/
inductive Answers (tree : Node) (place : Place) (name : String) : Except Fault Node → Prop
  /-- There is no directory to ask. -/
  | blocked (blocked : ¬ tree.IsDirectory place) : Answers tree place name (.error .notDirectory)
  /-- No entry has a name as long as that. -/
  | long (stands : tree.IsDirectory place) (long : maxName < name.utf8ByteSize) :
      Answers tree place name (.error .nameTooLong)
  | missing {entries : List (String × Node)} (stands : tree.at? place = some (.directory entries))
      (short : name.utf8ByteSize ≤ maxName) (absent : Node.lookup? entries name = none) :
      Answers tree place name (.error .missing)
  | found {entries : List (String × Node)} {child : Node}
      (stands : tree.at? place = some (.directory entries))
      (short : name.utf8ByteSize ≤ maxName) (found : Node.lookup? entries name = some child) :
      Answers tree place name (.ok child)

/-- Whether a path of this length may be asked about. -/
def IsShort (limit? : Option Nat) (size : Nat) : Prop := ∀ limit ∈ limit?, size < limit

/-- Whether there is room for the slash that is put behind a name to ask for a directory. -/
def HasRoom (limit? : Option Nat) (place : Place) (name : String) (rest : List Step) : Prop :=
  asksForDirectory rest = true → IsShort limit? (Place.size (place ++ [name]) + 1)

/-- **What is met under a name**, where these steps come behind it. -/
inductive Meets (tree : Node) (limit? : Option Nat) (place : Place) (name : String)
    (rest : List Step) : Except Fault (Option String) → Prop
  /-- The path with the name is too long already. What stands there is not asked. -/
  | overlong (long : ¬ IsShort limit? (Place.size (place ++ [name]))) :
      Meets tree limit? place name rest (.error .nameTooLong)
  /-- A link. -/
  | link {target : String} (short : IsShort limit? (Place.size (place ++ [name])))
      (found : Answers tree place name (.ok (.link target))) :
      Meets tree limit? place name rest (.ok (some target))
  /-- No link, and the path is too long with a slash behind it. -/
  | cramped {answer : Except Fault Node} (short : IsShort limit? (Place.size (place ++ [name])))
      (answers : Answers tree place name answer) (noLink : ∀ target, answer ≠ .ok (.link target))
      (cramped : ¬ HasRoom limit? place name rest) :
      Meets tree limit? place name rest (.error .nameTooLong)
  /-- The directory says why it has no such entry. -/
  | refused {fault : Fault} (short : IsShort limit? (Place.size (place ++ [name])))
      (room : HasRoom limit? place name rest) (refuses : Answers tree place name (.error fault)) :
      Meets tree limit? place name rest (.error fault)
  /-- A regular file where a directory is asked for. -/
  | noDirectory {bytes : ByteArray} (short : IsShort limit? (Place.size (place ++ [name])))
      (room : HasRoom limit? place name rest) (found : Answers tree place name (.ok (.file bytes)))
      (asks : asksForDirectory rest = true) :
      Meets tree limit? place name rest (.error .notDirectory)
  /-- Something to stand on. -/
  | footing {child : Node} (short : IsShort limit? (Place.size (place ++ [name])))
      (room : HasRoom limit? place name rest) (found : Answers tree place name (.ok child))
      (solid : ∀ target, child ≠ .link target)
      (suits : asksForDirectory rest = true → ∃ entries, child = .directory entries) :
      Meets tree limit? place name rest (.ok none)

/-- **One step of somebody on the way.** -/
inductive Goes (tree : Node) (limit? : Option Nat) : Traveller → Traveller → Prop
  | stay {links : Nat} {place : Place} {rest : List Step} :
      Goes tree limit? ⟨links, place, .here :: rest⟩ ⟨links, place, rest⟩
  /-- Above the root of the tree there is nothing. -/
  | up {links : Nat} {place : Place} {rest : List Step} :
      Goes tree limit? ⟨links, place, .up :: rest⟩ ⟨links, place.dropLast, rest⟩
  | down {links : Nat} {place : Place} {rest : List Step} {name : String}
      (meets : Meets tree limit? place name rest (.ok none)) :
      Goes tree limit? ⟨links, place, .into name :: rest⟩ ⟨links, place ++ [name], rest⟩
  /-- The steps of a link come before those that are left. -/
  | follow {links : Nat} {place : Place} {rest : List Step} {name target : String} {route : Route}
      (meets : Meets tree limit? place name rest (.ok (some target)))
      (reads : Route.ofString target = .ok route) :
      Goes tree limit? ⟨links + 1, place, .into name :: rest⟩
        ⟨links, if route.absolute then [] else place, route.steps ++ rest⟩

/-- **What ends the travels.** -/
inductive Ends (tree : Node) (limit? : Option Nat) : Traveller → Except Fault Place → Prop
  /-- No steps are left. -/
  | arrives {links : Nat} {place : Place} : Ends tree limit? ⟨links, place, []⟩ (.ok place)
  /-- The name cannot be had, or its path is too long. -/
  | stopped {links : Nat} {place : Place} {rest : List Step} {name : String} {fault : Fault}
      (meets : Meets tree limit? place name rest (.error fault)) :
      Ends tree limit? ⟨links, place, .into name :: rest⟩ (.error fault)
  /-- There is a link, and no more links may be followed. -/
  | tired {place : Place} {rest : List Step} {name target : String}
      (meets : Meets tree limit? place name rest (.ok (some target))) :
      Ends tree limit? ⟨0, place, .into name :: rest⟩ (.error .tooManyLinks)
  /-- There is a link, and what that says is no path. -/
  | astray {links : Nat} {place : Place} {rest : List Step} {name target : String} {fault : Fault}
      (meets : Meets tree limit? place name rest (.ok (some target)))
      (reads : Route.ofString target = .error fault) :
      Ends tree limit? ⟨links + 1, place, .into name :: rest⟩ (.error fault)

/-- **Travels**: any number of steps. -/
def Leads (tree : Node) (limit? : Option Nat) : Traveller → Traveller → Prop :=
  Relation.ReflTransGen (Goes tree limit?)

variable {tree : Node} {limit? : Option Nat} {t t' : Traveller} {place : Place} {name : String}
  {rest : List Step} {outcome : Except Fault Place}

/-! ## What is met -/

/-- **A directory answers what it is found to say.** -/
theorem Answers.ask_eq {answer : Except Fault Node} (h : Answers tree place name answer) :
    tree.ask place name = answer := by
  cases h with
  | blocked hblocked =>
    unfold Node.ask
    split
    · rename_i entries hstands
      exact absurd ⟨entries, hstands⟩ hblocked
    · rfl
  | long hstands hlong =>
    obtain ⟨entries, hstands⟩ := hstands
    rw [Node.ask, hstands]
    exact if_pos hlong
  | missing hstands hshort habsent =>
    rw [Node.ask, hstands]
    dsimp only
    rw [if_neg (Nat.not_lt.2 hshort), habsent]
  | found hstands hshort hfound =>
    rw [Node.ask, hstands]
    dsimp only
    rw [if_neg (Nat.not_lt.2 hshort), hfound]

/-- There is always an answer. -/
theorem answers_ask (tree : Node) (place : Place) (name : String) :
    Answers tree place name (tree.ask place name) := by
  by_cases hdirectory : tree.IsDirectory place
  · by_cases hlong : maxName < name.utf8ByteSize
    · have h := Answers.long hdirectory hlong
      exact h.ask_eq ▸ h
    · obtain ⟨entries, hstands⟩ := hdirectory
      cases hlookup : Node.lookup? entries name with
      | none =>
        have h := Answers.missing hstands (Nat.not_lt.1 hlong) hlookup
        exact h.ask_eq ▸ h
      | some child =>
        have h := Answers.found hstands (Nat.not_lt.1 hlong) hlookup
        exact h.ask_eq ▸ h
  · have h : Answers tree place name _ := .blocked hdirectory
    exact h.ask_eq ▸ h

/-- The test that is made of the length of a path. -/
theorem exceeds_eq_false_iff {size : Nat} : exceeds limit? size = false ↔ IsShort limit? size := by
  cases limit? with
  | none => exact ⟨fun _ _ hmem => (Option.not_mem_none _ hmem).elim, fun _ => rfl⟩
  | some limit =>
    rw [exceeds, Option.any_some, decide_eq_false_iff_not, Nat.not_le]
    exact ⟨fun h _ hmem => Option.mem_some.1 hmem ▸ h, fun h => h limit rfl⟩

theorem exceeds_eq_true_iff {size : Nat} : exceeds limit? size = true ↔ ¬ IsShort limit? size := by
  rw [← exceeds_eq_false_iff, Bool.not_eq_false]

/-- The test that is made before a slash is put behind a path. -/
theorem hasRoom_iff : HasRoom limit? place name rest ↔
    (asksForDirectory rest && exceeds limit? (Place.size (place ++ [name]) + 1)) = false := by
  cases hasks : asksForDirectory rest with
  | false => simp [HasRoom, hasks]
  | true => simp [HasRoom, hasks, exceeds_eq_false_iff]

/-- **What is met is what the tree says.** -/
theorem Meets.meet_eq {met : Except Fault (Option String)}
    (h : Meets tree limit? place name rest met) : meet tree limit? place name rest = met := by
  cases h with
  | overlong hlong => exact if_pos (exceeds_eq_true_iff.2 hlong)
  | link hshort hfound => simp only [meet, exceeds_eq_false_iff.2 hshort, hfound.ask_eq]; rfl
  | @cramped answer hshort hanswers hnoLink hcramped =>
    rw [hasRoom_iff, Bool.not_eq_false] at hcramped
    simp only [meet, exceeds_eq_false_iff.2 hshort, hanswers.ask_eq, hcramped]
    cases answer with
    | error fault => rfl
    | ok child =>
      cases child with
      | file bytes => rfl
      | directory entries => rfl
      | link target => exact absurd rfl (hnoLink target)
  | refused hshort hroom hrefuses =>
    simp only [meet, exceeds_eq_false_iff.2 hshort, hrefuses.ask_eq, hasRoom_iff.1 hroom]
    rfl
  | noDirectory hshort hroom hfound hasks =>
    rw [hasRoom_iff, hasks] at hroom
    simp only [meet, exceeds_eq_false_iff.2 hshort, hfound.ask_eq, hasks, hroom]
    rfl
  | @footing child hshort hroom hfound hsolid hsuits =>
    simp only [meet, exceeds_eq_false_iff.2 hshort, hfound.ask_eq, hasRoom_iff.1 hroom]
    cases child with
    | directory entries => rfl
    | link target => exact absurd rfl (hsolid target)
    | file bytes =>
      cases hasks : asksForDirectory rest with
      | false => rfl
      | true =>
        obtain ⟨entries, hchild⟩ := hsuits hasks
        cases hchild

/-- **Something is met under every name.** -/
theorem exists_meets (tree : Node) (limit? : Option Nat) (place : Place) (name : String)
    (rest : List Step) : ∃ met, Meets tree limit? place name rest met := by
  by_cases hshort : IsShort limit? (Place.size (place ++ [name]))
  · by_cases hroom : HasRoom limit? place name rest
    · have hanswers := answers_ask tree place name
      cases hanswer : tree.ask place name with
      | error fault => exact ⟨_, .refused hshort hroom (hanswer ▸ hanswers)⟩
      | ok child =>
        rw [hanswer] at hanswers
        cases child with
        | link target => exact ⟨_, .link hshort hanswers⟩
        | directory entries =>
          exact ⟨_, .footing hshort hroom hanswers nofun fun _ => ⟨entries, rfl⟩⟩
        | file bytes =>
          by_cases hasks : asksForDirectory rest = true
          · exact ⟨_, .noDirectory hshort hroom hanswers hasks⟩
          · exact ⟨_, .footing hshort hroom hanswers nofun fun h => absurd h hasks⟩
    · by_cases hlink : ∃ target, tree.ask place name = .ok (.link target)
      · obtain ⟨target, hlink⟩ := hlink
        exact ⟨_, .link hshort (hlink ▸ answers_ask tree place name)⟩
      · exact ⟨_, .cramped hshort (answers_ask tree place name) (not_exists.1 hlink) hroom⟩
  · exact ⟨_, .overlong hshort⟩

/-- A regular file is in the way, and what comes behind it is too long: the length is what is told
of, if there is a limit. -/
example :
    meet (.directory [("f", .file .empty)]) (some 6) ["f"] "name" [] = .error .nameTooLong ∧
      meet (.directory [("f", .file .empty)]) none ["f"] "name" [] = .error .notDirectory :=
  ⟨rfl, rfl⟩

/-! ## Travels and walks -/

/-- **A step does not change where a walk ends.** -/
theorem Goes.walk_eq (h : Goes tree limit? t t') :
    walk tree limit? t.links t.place t.steps = walk tree limit? t'.links t'.place t'.steps := by
  cases h with
  | stay => rw [walk]
  | up => rw [walk]
  | down hmeets => rw [walk, hmeets.meet_eq]
  | follow hmeets hreads =>
    rw [walk, hmeets.meet_eq]
    dsimp only
    rw [hreads]

theorem Leads.walk_eq (h : Leads tree limit? t t') :
    walk tree limit? t.links t.place t.steps = walk tree limit? t'.links t'.place t'.steps := by
  induction h with
  | refl => rfl
  | tail _ hgoes ih => exact ih.trans hgoes.walk_eq

/-- **What ends the travels is what a walk says.** -/
theorem Ends.walk_eq (h : Ends tree limit? t outcome) :
    walk tree limit? t.links t.place t.steps = outcome := by
  cases h with
  | arrives => rw [walk]
  | stopped hmeets => rw [walk, hmeets.meet_eq]
  | tired hmeets => rw [walk, hmeets.meet_eq]
  | astray hmeets hreads =>
    rw [walk, hmeets.meet_eq]
    dsimp only
    rw [hreads]

/-- **Somebody on the way ends the travels or takes a step.** -/
theorem ends_or_goes (tree : Node) (limit? : Option Nat) (t : Traveller) :
    (∃ outcome, Ends tree limit? t outcome) ∨ ∃ t', Goes tree limit? t t' := by
  obtain ⟨links, place, steps⟩ := t
  cases steps with
  | nil => exact .inl ⟨_, .arrives⟩
  | cons step rest =>
    cases step with
    | here => exact .inr ⟨_, .stay⟩
    | up => exact .inr ⟨_, .up⟩
    | into name =>
      obtain ⟨met, hmeets⟩ := exists_meets tree limit? place name rest
      cases met with
      | error fault => exact .inl ⟨_, .stopped hmeets⟩
      | ok target? =>
        cases target? with
        | none => exact .inr ⟨_, .down hmeets⟩
        | some target =>
          cases links with
          | zero => exact .inl ⟨_, .tired hmeets⟩
          | succ links =>
            cases hreads : Route.ofString target with
            | error fault => exact .inl ⟨_, .astray hmeets hreads⟩
            | ok route => exact .inr ⟨_, .follow hmeets hreads⟩

/-- A step follows a link or leaves fewer steps. -/
theorem Goes.lex (h : Goes tree limit? t t') :
    Prod.Lex (· < ·) (· < ·) (t'.links, t'.steps.length) (t.links, t.steps.length) := by
  cases h with
  | stay => exact .right _ (Nat.lt_succ_self _)
  | up => exact .right _ (Nat.lt_succ_self _)
  | down _ => exact .right _ (Nat.lt_succ_self _)
  | follow _ _ => exact .left _ _ (Nat.lt_succ_self _)

/-- **All travels end.** -/
theorem exists_ends (tree : Node) (limit? : Option Nat) (t : Traveller) :
    ∃ t' outcome, Leads tree limit? t t' ∧ Ends tree limit? t' outcome := by
  rcases ends_or_goes tree limit? t with ⟨outcome, hends⟩ | ⟨next, hgoes⟩
  · exact ⟨t, outcome, .refl, hends⟩
  · have hlex := hgoes.lex
    obtain ⟨t', outcome, hleads, hends⟩ := exists_ends tree limit? next
    exact ⟨t', outcome, .head hgoes hleads, hends⟩
termination_by (t.links, t.steps.length)
decreasing_by exact hlex

/-- **A walk says what ends the travels.** -/
theorem walk_eq_iff : walk tree limit? t.links t.place t.steps = outcome ↔
    ∃ t', Leads tree limit? t t' ∧ Ends tree limit? t' outcome := by
  constructor
  · rintro rfl
    obtain ⟨t', outcome, hleads, hends⟩ := exists_ends tree limit? t
    exact ⟨t', hleads, (hleads.walk_eq.trans hends.walk_eq) ▸ hends⟩
  · rintro ⟨t', hleads, hends⟩
    exact hleads.walk_eq.trans hends.walk_eq

/-! ## Where travellers stand -/

/-- What is found under a name was found in a directory, and stands one place below it. -/
theorem Answers.stands {child : Node} (h : Answers tree place name (.ok child)) :
    tree.IsDirectory place ∧ tree.at? (place ++ [name]) = some child := by
  cases h with
  | found hstands _ hfound => exact ⟨⟨_, hstands⟩, (Node.at?_concat _ hstands).trans hfound⟩

/-- **Nobody stands on a link** after a step to a name. -/
theorem Goes.isSolid_of_into (h : Goes tree limit? t t') (hinto : t.steps = .into name :: rest) :
    tree.IsDirectory t.place ∧ tree.IsSolid t'.place := by
  cases h with
  | stay => cases hinto
  | up => cases hinto
  | down hmeets =>
    cases hmeets with
    | footing _ _ hfound hsolid _ =>
      exact ⟨hfound.stands.1, _, hfound.stands.2, hsolid⟩
  | @follow _ place _ _ _ route hmeets _ =>
    cases hmeets with
    | link _ hfound =>
      have hdirectory : tree.IsDirectory ([] ++ place) := hfound.stands.1
      refine ⟨hdirectory, ?_⟩
      dsimp only
      split
      · exact hdirectory.of_append.isSolid
      · exact hdirectory.isSolid

/-- **Who stands on no link never will.** -/
theorem Goes.isSolid (h : Goes tree limit? t t') (hsolid : tree.IsSolid t.place) :
    tree.IsSolid t'.place := by
  cases h with
  | stay => exact hsolid
  | up => exact hsolid.dropLast
  | down hmeets => exact ((Goes.down hmeets).isSolid_of_into rfl).2
  | follow hmeets hreads => exact ((Goes.follow hmeets hreads).isSolid_of_into rfl).2

theorem Leads.isSolid (h : Leads tree limit? t t') (hsolid : tree.IsSolid t.place) :
    tree.IsSolid t'.place := by
  induction h with
  | refl => exact hsolid
  | tail _ hgoes ih => exact hgoes.isSolid ih

/-- **Travels that take a step to a name first** begin in a directory and lead to no link. -/
theorem Leads.stands (h : Leads tree limit? t t') (hinto : t.steps = .into name :: rest)
    (hsteps : t.steps ≠ t'.steps) : tree.IsDirectory t.place ∧ tree.IsSolid t'.place := by
  rcases Relation.ReflTransGen.cases_head h with rfl | ⟨_, hgoes, hleads⟩
  · exact absurd rfl hsteps
  · have hstands := hgoes.isSolid_of_into hinto
    exact ⟨hstands.1, Leads.isSolid hleads hstands.2⟩

end SafePreview.Files
