import Mathlib.Data.Set.Basic
import SafePreview.Markup.Policy
import SafePreview.Proofs.Json.Records
import SafePreview.Proofs.Text.Case

/-!
# What the calls on a policy come to

A policy is put together by calls, and each call puts names on one of four lists. The names come
from outside: with blanks around them, in any case of letters, twice, or blank altogether; and the
calls come in any order, so that a tag may be denied before it is allowed. None of this matters.
What a policy is depends on the names that were meant, list by list, and on nothing else.

The shape of a set of names does most of the work. It is a list in strictly ascending order, so two
policies with the same names on each list are the same policy (`Policy.ext_namesOn`), and all there
is to know of a call is which names it adds (`Policy.namesOn_put`). Lists that are only ever added
to cannot tell in which order that was done.

Reading a written policy is a matter of its own. The reader normalises every name once more, and
that changes nothing only if the name was normal before. No set of names says so by itself; a policy
that was put together by calls has it because every name on it came in through a call
(`Policy.IsNormal.putAll`) and a name is a spelling of itself (`IsSpelling.normal`).
-/

namespace SafePreview.Markup

/-- **A spelling of a name**: a name with blanks around it, in any case of letters. What is blank
altogether spells no name. -/
def IsSpelling (written name : String) : Prop := name = Text.lower (Text.trim written) ∧ name ≠ ""

theorem normalise?_eq_some_iff {written name : String} :
    NameSet.normalise? written = some name ↔ IsSpelling written name := by
  simp only [NameSet.normalise?, Option.ite_none_left_eq_some, Option.some.injEq, IsSpelling,
    String.isEmpty_iff]
  constructor
  · rintro ⟨hne, rfl⟩
    exact ⟨rfl, hne⟩
  · rintro ⟨rfl, hne⟩
    exact ⟨hne, rfl⟩

/-- A spelling spells one name. -/
theorem IsSpelling.unique {written a b : String} (ha : IsSpelling written a)
    (hb : IsSpelling written b) : a = b := ha.1.trans hb.1.symm

/-- **A name is a spelling of itself.** -/
theorem IsSpelling.normal {written name : String} (h : IsSpelling written name) :
    IsSpelling name name := by
  refine ⟨?_, h.2⟩
  rw [h.1, Text.trim_lower, Text.trim_trim, Text.lower_lower]

namespace NameSet

/-- **Sets of names with the same members are the same.** -/
theorem ext_mem {a b : NameSet} (h : ∀ name, name ∈ a.names ↔ name ∈ b.names) : a = b := by
  have hnodup (set : NameSet) : set.names.Nodup :=
    set.ascending.imp fun hlt => Std.ne_of_lt hlt
  have hperm : a.names.Perm b.names := (List.perm_ext_iff_of_nodup (hnodup a) (hnodup b)).2 h
  have hnames : a.names = b.names :=
    hperm.eq_of_pairwise
      (fun x y _ _ hxy hyx => absurd (String.lt_trans hxy hyx) (String.lt_irrefl x))
      a.ascending b.ascending
  cases a
  cases b
  congr

theorem mem_foldl_insert {set : NameSet} {names : List String} {name : String} :
    name ∈ (names.foldl insert set).names ↔ name ∈ set.names ∨ name ∈ names := by
  induction names generalizing set with
  | nil => simp
  | cons n rest ih =>
    rw [List.foldl_cons, ih, insert, mem_insertName, List.mem_cons, or_comm (a := name = n),
      or_assoc]

/-- **What is added are the names that were spelled.** -/
theorem mem_insertAll {set : NameSet} {names : List String} {name : String} :
    name ∈ (set.insertAll names).names
      ↔ name ∈ set.names ∨ ∃ written ∈ names, IsSpelling written name := by
  rw [insertAll, mem_foldl_insert, List.mem_filterMap]
  simp only [normalise?_eq_some_iff]

end NameSet

namespace Policy

/-! ## Calls -/

/-- **The lists of a policy.** -/
inductive Listing where
  | allowedTags
  | allowedAttributes
  | deniedTags
  | deniedAttributes
deriving DecidableEq

/-- The names on a list of a policy. -/
def namesOn (policy : Policy) : Listing → Set String
  | .allowedTags => {name | name ∈ policy.allowedTags.names}
  | .allowedAttributes => {name | name ∈ policy.allowedAttributes.names}
  | .deniedTags => {name | name ∈ policy.deniedTags.names}
  | .deniedAttributes => {name | name ∈ policy.deniedAttributes.names}

/-- **A call** that puts names on a list. -/
structure Call where
  listing : Listing
  names : List String

/-- The policy after a call. -/
def put (policy : Policy) (call : Call) : Policy :=
  match call.listing with
  | .allowedTags => policy.allowTags call.names
  | .allowedAttributes => policy.allowAttributes call.names
  | .deniedTags => policy.denyTags call.names
  | .deniedAttributes => policy.denyAttributes call.names

/-- **The policy after calls**, one after another. -/
def putAll (policy : Policy) (calls : List Call) : Policy := calls.foldl put policy

/-- **What a call gives** for a list: the names that it spells, if it is meant for that list. -/
def Call.given (call : Call) (listing : Listing) : Set String :=
  {name | call.listing = listing ∧ ∃ written ∈ call.names, IsSpelling written name}

/-- **The names that calls give** for a list, whichever call gives them and however it spells
them. -/
def given (calls : List Call) (listing : Listing) : Set String :=
  {name | ∃ call ∈ calls, name ∈ call.given listing}

/-- **Policies with the same names on each list are the same.** -/
theorem ext_namesOn {a b : Policy} (h : ∀ listing, a.namesOn listing = b.namesOn listing) :
    a = b := by
  have htags := NameSet.ext_mem (Set.ext_iff.1 (h .allowedTags))
  have hattributes := NameSet.ext_mem (Set.ext_iff.1 (h .allowedAttributes))
  have hdeniedTags := NameSet.ext_mem (Set.ext_iff.1 (h .deniedTags))
  have hdeniedAttributes := NameSet.ext_mem (Set.ext_iff.1 (h .deniedAttributes))
  cases a
  cases b
  congr

/-- A call adds to its own list what it gives, and to no other list anything. -/
theorem namesOn_put (policy : Policy) (call : Call) (listing : Listing) :
    (policy.put call).namesOn listing = policy.namesOn listing ∪ call.given listing := by
  obtain ⟨target, names⟩ := call
  ext name
  have hadded (set : NameSet) :
      name ∈ (set.insertAll names).names
        ↔ name ∈ set.names ∨ ∃ written ∈ names, IsSpelling written name := NameSet.mem_insertAll
  cases target <;> cases listing <;>
    simp [namesOn, put, Call.given, allowTags, allowAttributes, denyTags, denyAttributes, hadded]

/-- **Calls add what they give, list by list.** -/
theorem namesOn_putAll (policy : Policy) (calls : List Call) (listing : Listing) :
    (policy.putAll calls).namesOn listing = policy.namesOn listing ∪ given calls listing := by
  induction calls generalizing policy with
  | nil =>
    show policy.namesOn listing = _
    ext name
    simp [given]
  | cons call calls ih =>
    show ((policy.put call).putAll calls).namesOn listing = _
    rw [ih, namesOn_put, Set.union_assoc]
    ext name
    simp [given]

/-! ## What may stay -/

theorem permitsTag_iff (policy : Policy) (tag : String) :
    policy.permitsTag tag = true
      ↔ tag ∈ policy.namesOn .allowedTags ∧ tag ∉ policy.namesOn .deniedTags
        ∧ tag ∉ strippedTags := by
  simp only [permitsTag, NameSet.contains, Bool.and_eq_true, Bool.not_eq_true',
    List.contains_eq_mem, decide_eq_true_eq, decide_eq_false_iff_not]
  exact ⟨fun h => ⟨h.2, h.1.2, h.1.1⟩, fun h => ⟨⟨h.2.2, h.2.1⟩, h.1⟩⟩

theorem permitsAttribute_iff (policy : Policy) (name : String) :
    policy.permitsAttribute name = true
      ↔ name ∈ policy.namesOn .allowedAttributes
        ∧ name ∉ policy.namesOn .deniedAttributes
        ∧ name ∉ strippedAttributes ∧ ¬ "on".toList <+: name.toList := by
  simp only [permitsAttribute, isHandler, NameSet.contains, Bool.and_eq_true, Bool.not_eq_true',
    List.contains_eq_mem, decide_eq_true_eq, ← Bool.not_eq_true, List.isPrefixOf_iff_prefix]
  exact ⟨fun h => ⟨h.2, h.1.2, h.1.1.2, h.1.1.1⟩, fun h => ⟨⟨⟨h.2.2.2, h.2.2.1⟩, h.2.1⟩, h.1⟩⟩

/-! ## Written policies -/

/-- **A policy whose names are all normal.** -/
def IsNormal (policy : Policy) : Prop :=
  ∀ listing, ∀ name ∈ policy.namesOn listing, IsSpelling name name

/-- Names that came in through a call are normal. -/
theorem IsNormal.putAll {policy : Policy} (h : policy.IsNormal) (calls : List Call) :
    (policy.putAll calls).IsNormal := by
  intro listing name hname
  rw [namesOn_putAll] at hname
  rcases hname with hname | ⟨call, -, -, written, -, hspells⟩
  · exact h listing name hname
  · exact hspells.normal

theorem namesOn_empty (listing : Listing) : empty.namesOn listing = ∅ := by
  refine Set.eq_empty_iff_forall_notMem.2 fun name hname => ?_
  cases listing <;> exact List.not_mem_nil hname

theorem isNormal_empty : empty.IsNormal := fun listing _ hname =>
  absurd (namesOn_empty listing ▸ hname) (Set.notMem_empty _)

/-- **The policies that there are to begin with** were put together by calls too. -/
theorem isNormal_of_mem {start : Policy} (h : start ∈ [empty, preview, strict]) :
    start.IsNormal := by
  simp only [List.mem_cons, List.not_mem_nil, or_false] at h
  rcases h with rfl | rfl | rfl
  · exact isNormal_empty
  · exact isNormal_empty.putAll [⟨.allowedTags, _⟩, ⟨.allowedAttributes, _⟩, ⟨.deniedTags, _⟩,
      ⟨.deniedAttributes, _⟩]
  · exact isNormal_empty.putAll [⟨.allowedTags, _⟩, ⟨.allowedAttributes, _⟩, ⟨.deniedTags, _⟩,
      ⟨.deniedAttributes, _⟩]

/-- Reading a list of names puts every name on it once more, normalised. -/
theorem namesOn_ofLists (lists : Lists) (listing : Listing) :
    (ofLists lists).namesOn listing
      = given [⟨.allowedTags, lists.allowedTags⟩, ⟨.allowedAttributes, lists.allowedAttributes⟩,
        ⟨.deniedTags, lists.deniedTags⟩, ⟨.deniedAttributes, lists.deniedAttributes⟩] listing := by
  have hcalls := namesOn_putAll empty [⟨.allowedTags, lists.allowedTags⟩,
    ⟨.allowedAttributes, lists.allowedAttributes⟩, ⟨.deniedTags, lists.deniedTags⟩,
    ⟨.deniedAttributes, lists.deniedAttributes⟩] listing
  rw [namesOn_empty, Set.empty_union] at hcalls
  exact hcalls

/-- **A policy with normal names is read back from its lists.** -/
theorem IsNormal.ofLists_lists {policy : Policy} (h : policy.IsNormal) :
    ofLists policy.lists = policy := by
  refine ext_namesOn fun listing => ?_
  have hself (name : String) :
      (∃ written ∈ policy.namesOn listing, IsSpelling written name)
        ↔ name ∈ policy.namesOn listing := by
    constructor
    · rintro ⟨written, hwritten, hspells⟩
      exact hspells.unique (h listing written hwritten) ▸ hwritten
    · exact fun hname => ⟨name, hname, h listing name hname⟩
  rw [namesOn_ofLists]
  ext name
  rw [← hself name]
  cases listing <;> simp [given, Call.given, lists, namesOn]

/-! ### As JSON -/

open Json

/-- A list of names is read as it is written. -/
theorem list_string_ofValue (names : List String) :
    Shape.list Shape.string (Tree.ofValue (.ofList .string names)) = .ok names := by
  have hitems : (Tree.ofItems (names.map .string)).mapM Shape.string = .ok names := by
    induction names with
    | nil => rfl
    | cons name names ih =>
      rw [List.map_cons, Tree.ofItems, List.mapM_cons, ih]
      rfl
  rw [Value.ofList, Tree.ofValue]
  show (Tree.ofItems (names.map .string)).mapM Shape.string >>= _ = _
  rw [hitems]
  rfl

theorem Lists.tries_record : Lists.record.Tries :=
  ((((Record.tries_pure Lists.mk).seq (Record.tries_fieldOr "allowed_tags" [] _ _)).seq
    (Record.tries_fieldOr "allowed_attributes" [] _ _)).seq
    (Record.tries_fieldOr "denied_tags" [] _ _)).seq
    (Record.tries_fieldOr "denied_attributes" [] _ _)

theorem Lists.plain_record : Record.Plain Lists.record.fields :=
  ((((Record.plain_pure Lists.mk).seq (Record.plain_fieldOr "allowed_tags" _ _)).seq
    (Record.plain_fieldOr "allowed_attributes" _ _)).seq
    (Record.plain_fieldOr "denied_tags" _ _)).seq
    (Record.plain_fieldOr "denied_attributes" _ _)

/-- The members that are written for a policy. -/
def members (policy : Policy) : Members :=
  [("allowed_attributes", .ofList .string policy.lists.allowedAttributes),
    ("allowed_tags", .ofList .string policy.lists.allowedTags),
    ("denied_attributes", .ofList .string policy.lists.deniedAttributes),
    ("denied_tags", .ofList .string policy.lists.deniedTags)]

/-- Under the key of a list the list is found. -/
theorem build_lookup_members (policy : Policy) (key : String) {names : List String}
    (hkey : key ∈ Lists.record.fields.map (·.name))
    (hget : policy.members.get? key = some (.ofList .string names)) :
    (Record.optional key (.list .string) []).build
      (Record.lookup Lists.record.fields policy.members) = .ok names := by
  have hascends : policy.members.Ascends := by
    show ["allowed_attributes", "allowed_tags", "denied_attributes", "denied_tags"].Pairwise (· < ·)
    decide
  exact (Record.optional_build_eq_ok_iff (Lists.plain_record.lookup_eq hascends hkey)).2
    (.inr ⟨_, hget, list_string_ofValue names⟩)

/-- **The lists of a policy are read as they are written.** -/
theorem record_ofValue_toValue (policy : Policy) :
    (Lists.record.shape "struct PolicyLists").ofValue policy.toValue = .ok policy.lists := by
  have hkeys : (policy.members.map (·.1)).Nodup := by
    show ["allowed_attributes", "allowed_tags", "denied_attributes", "denied_tags"].Nodup
    decide
  have htags := policy.build_lookup_members "allowed_tags" (by decide) rfl
  have hattributes := policy.build_lookup_members "allowed_attributes" (by decide) rfl
  have hdeniedTags := policy.build_lookup_members "denied_tags" (by decide) rfl
  have hdeniedAttributes := policy.build_lookup_members "denied_attributes" (by decide) rfl
  have hone := Record.seq_build_eq_ok_iff (f := .pure Lists.mk).2 ⟨_, rfl, _, htags, rfl⟩
  have htwo := Record.seq_build_eq_ok_iff.2 ⟨_, hone, _, hattributes, rfl⟩
  have hthree := Record.seq_build_eq_ok_iff.2 ⟨_, htwo, _, hdeniedTags, rfl⟩
  have hbuild := Record.seq_build_eq_ok_iff.2 ⟨_, hthree, _, hdeniedAttributes, rfl⟩
  exact (Record.ofMembers_eq_ok_iff Lists.tries_record).2
    ⟨Lists.plain_record.distinct hkeys, hbuild⟩

/-- **A policy with normal names survives being written and read.** -/
theorem IsNormal.shape_ofValue {policy : Policy} (h : policy.IsNormal) :
    Policy.shape.ofValue policy.toValue = .ok policy := by
  show ((Lists.record.shape "struct PolicyLists").ofValue policy.toValue).map ofLists = _
  rw [record_ofValue_toValue]
  exact congrArg Except.ok h.ofLists_lists

/-! ## What calls come to -/

/-- **What a policy is depends on the names that its calls give, list by list**, and not on their
order, on how they are spread over calls, or on how often and how they are spelled.

A tag may stay exactly if it is among the allowed names, not among the denied ones and none that no
policy lets in; so a denial wins, whether it comes before or after. An attribute may stay by the
same rule unless it handles an event. And whatever the calls were, the policy is read back from its
lists, as lists of names and as JSON. -/
theorem putAll_depends_on_given :
    (∀ (start : Policy) (calls others : List Call),
      (∀ listing, given calls listing = given others listing) →
        start.putAll calls = start.putAll others)
    ∧ ∀ start ∈ [empty, preview, strict], ∀ calls : List Call,
      (∀ tag, (start.putAll calls).permitsTag tag = true
        ↔ tag ∈ start.namesOn .allowedTags ∪ given calls .allowedTags
          ∧ tag ∉ start.namesOn .deniedTags ∪ given calls .deniedTags
          ∧ tag ∉ strippedTags)
      ∧ (∀ name, (start.putAll calls).permitsAttribute name = true
        ↔ name ∈ start.namesOn .allowedAttributes ∪ given calls .allowedAttributes
          ∧ name ∉ start.namesOn .deniedAttributes ∪ given calls .deniedAttributes
          ∧ name ∉ strippedAttributes ∧ ¬ "on".toList <+: name.toList)
      ∧ ofLists (start.putAll calls).lists = start.putAll calls
      ∧ Policy.shape.ofValue (start.putAll calls).toValue = .ok (start.putAll calls) := by
  refine ⟨fun start calls others hgiven => ?_, fun start hstart calls => ?_⟩
  · refine ext_namesOn fun listing => ?_
    rw [namesOn_putAll, namesOn_putAll, hgiven listing]
  · have hnormal := (isNormal_of_mem hstart).putAll calls
    refine ⟨fun tag => ?_, fun name => ?_, hnormal.ofLists_lists, hnormal.shape_ofValue⟩
    · rw [permitsTag_iff, namesOn_putAll, namesOn_putAll]
    · rw [permitsAttribute_iff, namesOn_putAll, namesOn_putAll]

/-! ### Two ways to say the same

A tag is denied before it is allowed in one, and after in the other; the names are spelled and
spread differently. -/

/-- The names that calls give for a list, one by one. -/
def spelled (calls : List Call) (listing : Listing) : List String :=
  (calls.filter (·.listing = listing)).flatMap fun call =>
    call.names.filterMap NameSet.normalise?

theorem mem_given_iff {calls : List Call} {listing : Listing} {name : String} :
    name ∈ given calls listing ↔ name ∈ spelled calls listing := by
  simp [given, Call.given, spelled, normalise?_eq_some_iff, and_assoc]

/-- The denial first. -/
def denyThenAllow : List Call :=
  [⟨.deniedTags, ["Mark"]⟩, ⟨.allowedTags, [" P ", "mark", "SVG"]⟩, ⟨.allowedTags, ["  ", "p"]⟩,
    ⟨.allowedAttributes, ["lang", "onClick"]⟩]

/-- The denial last. -/
def allowThenDeny : List Call :=
  [⟨.allowedAttributes, ["ONCLICK\n"]⟩, ⟨.allowedTags, ["svg", "MARK", "p"]⟩,
    ⟨.allowedAttributes, ["Lang"]⟩, ⟨.deniedTags, ["mark", "\tmark"]⟩]

theorem putAll_denyThenAllow :
    (∀ listing, given denyThenAllow listing = given allowThenDeny listing)
      ∧ strict.putAll denyThenAllow = strict.putAll allowThenDeny
      ∧ (strict.putAll denyThenAllow).permitsTag "p" = true
      ∧ (strict.putAll denyThenAllow).permitsTag "mark" = false
      ∧ (strict.putAll denyThenAllow).permitsTag "svg" = false
      ∧ (strict.putAll denyThenAllow).permitsAttribute "onclick" = false
      ∧ ofLists (strict.putAll denyThenAllow).lists = strict.putAll denyThenAllow := by
  have hfirst : spelled denyThenAllow .allowedTags = ["p", "mark", "svg", "p"]
      ∧ spelled denyThenAllow .allowedAttributes = ["lang", "onclick"]
      ∧ spelled denyThenAllow .deniedTags = ["mark"]
      ∧ spelled denyThenAllow .deniedAttributes = [] := by decide +kernel
  have hlast : spelled allowThenDeny .allowedTags = ["svg", "mark", "p"]
      ∧ spelled allowThenDeny .allowedAttributes = ["onclick", "lang"]
      ∧ spelled allowThenDeny .deniedTags = ["mark", "mark"]
      ∧ spelled allowThenDeny .deniedAttributes = [] := by decide +kernel
  have hsame (listing : Listing) : given denyThenAllow listing = given allowThenDeny listing := by
    ext name
    rw [mem_given_iff, mem_given_iff]
    cases listing <;> simp only [hfirst, hlast, List.mem_cons] <;> tauto
  obtain ⟨hdepends, hrules⟩ := putAll_depends_on_given
  obtain ⟨htag, hattribute, hread, -⟩ := hrules strict (by simp) denyThenAllow
  refine ⟨hsame, hdepends strict _ _ hsame, ?_, ?_, ?_, ?_, hread⟩
  · refine (htag "p").2 ⟨.inr ?_, ?_, by decide⟩
    · rw [mem_given_iff, hfirst.1]
      decide
    · have hstrict : "p" ∉ strict.deniedTags.names := by decide +kernel
      rw [Set.mem_union, mem_given_iff, hfirst.2.2.1]
      exact not_or.2 ⟨hstrict, by decide⟩
  · rw [← Bool.not_eq_true, htag]
    have hdenied : "mark" ∈ given denyThenAllow .deniedTags := by
      rw [mem_given_iff, hfirst.2.2.1]
      decide
    exact fun h => h.2.1 (.inr hdenied)
  · rw [← Bool.not_eq_true, htag]
    exact fun h => h.2.2 (by decide)
  · rw [← Bool.not_eq_true, hattribute]
    exact fun h => h.2.2.2 (by decide)

end Policy

end SafePreview.Markup
