import Mathlib.Data.List.Basic
import SafePreview.Proofs.Markup.Nesting
import SafePreview.Proofs.Markup.Newlines

/-!
# The account leaves nothing out

What the writer takes out it counts, and what it does not count is in the output. The first half of
this module says what is counted, without the writer: the start tags of a stream, the attributes of
a tag that are the first of their name (`firstOfName`), and which of these are safe. The second half
says that the writer's account agrees.

Which start tags are written is read off the output and not off the writer's reasons: a start tag is
written if what the writer writes for it has a start tag (`Writer.writtenTag?`). What one token
comes to is said once, in three cases (`Writer.ComesTo`), and each of them keeps the account
(`Writer.ComesTo.accounts`). That a tag is not written because it is inside something that is taken
out, because it may not stay, or because too much is open, makes no difference to the account, so
there is one case for all three.

A tag that comes too deep is counted without being looked at. It could not have been there to run
anything: only a tag that may stay comes that far, and none of those that never may do.
-/

namespace SafePreview.Markup

/-! ## Start tags -/

/-- **A start tag** as it is read. -/
structure Tag where
  name : List Char
  attributes : List Attribute
deriving DecidableEq, Repr

/-- The start tag that a token is. -/
def Token.startTag? : Token → Option Tag
  | .startTag name attributes _ => some ⟨name, attributes⟩
  | _ => none

/-- **The start tags of a stream**, in order. -/
def startTags (ts : List Token) : List Tag := ts.filterMap Token.startTag?

/-- **The start tags of a text**, in order. -/
def readTags (cs : List Char) : List Tag := startTags (tokens cs)

/-- A start tag is a tag. -/
theorem startTags_filter_isTag (ts : List Token) :
    startTags (ts.filter (·.isTag)) = startTags ts := by
  induction ts with
  | nil => rfl
  | cons t ts ih =>
    cases t with
    | text content => exact ih
    | startTag name attributes selfClosing => exact congrArg (⟨name, attributes⟩ :: ·) ih
    | endTag name => exact ih

theorem readTags_eq (cs : List Char) : readTags cs = startTags (tags cs) :=
  (startTags_filter_isTag (tokens cs)).symm

theorem readTags_nil : readTags [] = [] := by
  rw [readTags_eq, tags_nil]
  rfl

/-- **A text without start tags**, whatever is behind it. -/
def HasNoStart (w : List Char) : Prop := ∀ cs, readTags (w ++ cs) = readTags cs

theorem HasNoStart.readTags_eq_nil {w : List Char} (h : HasNoStart w) : readTags w = [] := by
  rw [← List.append_nil w, h, readTags_nil]

theorem HasNoStart.append {v w : List Char} (hv : HasNoStart v) (hw : HasNoStart w) :
    HasNoStart (v ++ w) := fun cs => by rw [List.append_assoc, hv, hw]

theorem hasNoStart_nil : HasNoStart [] := fun _ => rfl

/-- Text has none, -/
theorem IsText.hasNoStart {t : List Char} (h : IsText t) : HasNoStart t := fun cs => by
  rw [readTags_eq, tags_text h, readTags_eq]

/-- and an end tag is none. -/
theorem IsTag.hasNoStart {policy : Policy} {name : List Char} (h : IsTag policy name) :
    HasNoStart (endTagText name) := fun cs => by
  rw [readTags_eq, tags_endTagText h.plain, readTags_eq]
  rfl

/-- End tags are none either. -/
theorem hasNoStart_endTags {policy : Policy} {names : List (List Char)}
    (h : ∀ name ∈ names, IsTag policy name) : HasNoStart (names.flatMap endTagText) := by
  induction names with
  | nil => exact hasNoStart_nil
  | cons name names ih =>
    obtain ⟨hname, hnames⟩ := List.forall_mem_cons.1 h
    exact hname.hasNoStart.append (ih hnames)

/-! ## Attributes -/

/-- **The attributes that are the first of their name**, in order. -/
def firstOfName : List Attribute → List Attribute
  | [] => []
  | a :: rest => a :: (firstOfName rest).filter (·.name ≠ a.name)

/-- **A safe attribute**: its name is plain and may stay, and where the name gives the value a power
the value is harmless. -/
structure Attribute.IsSafe (policy : Policy) (a : Attribute) : Prop where
  plain : IsPlainName attributeMarks a.name
  permitted : policy.permitsAttribute (String.ofList a.name) = true
  address : String.ofList a.name ∈ addressAttributes → isSafeAddress a.value = true
  style : String.ofList a.name = "style" → isSafeStyle a.value = true

/-- **An attribute that is there to run something**: it handles an event, or it may stay by its name
and its value is an address or a style that is not safe. -/
def Attribute.IsScriptLike (policy : Policy) (a : Attribute) : Prop :=
  ['o', 'n'] <+: a.name
    ∨ (policy.permitsAttribute (String.ofList a.name) = true
      ∧ String.ofList a.name ∈ addressAttributes ∧ isSafeAddress a.value = false)
    ∨ (policy.permitsAttribute (String.ofList a.name) = true
      ∧ String.ofList a.name = "style" ∧ isSafeStyle a.value = false)

/-- **What is kept is what is safe.** -/
theorem Attribute.isSafe_iff (policy : Policy) (a : Attribute) :
    a.IsSafe policy ↔ policy.judge a = .kept := by
  rw [judge_eq_kept_iff, isAttributeName_iff]
  constructor
  · intro h
    exact ⟨h.permitted, h.plain, h.address, h.style⟩
  · rintro ⟨hpermitted, hplain, haddress, hstyle⟩
    exact ⟨hplain, hpermitted, haddress, hstyle⟩

instance (policy : Policy) (a : Attribute) : Decidable (a.IsSafe policy) :=
  decidable_of_iff _ (a.isSafe_iff policy).symm

/-- A handler is known by how its name starts. -/
theorem Policy.isHandler_iff (name : List Char) :
    Policy.isHandler (String.ofList name) = true ↔ ['o', 'n'] <+: name := by
  rw [Policy.isHandler, String.toList_ofList, List.isPrefixOf_iff_prefix]

/-- **The verdict on an attribute says whether it is there to run something.** -/
theorem Attribute.isScriptLike_iff (policy : Policy) (a : Attribute) :
    a.IsScriptLike policy ↔ (policy.judge a).isScriptLike = true := by
  -- a name that gives a power is plain, so none is barred for its characters
  have hplain : ∀ name ∈ "style" :: addressAttributes, isAttributeName name.toList = true := by
    decide
  have hpower (hname : String.ofList a.name ∈ "style" :: addressAttributes) :
      isAttributeName a.name = true := by
    have hself := hplain _ hname
    rwa [String.toList_ofList] at hself
  have hbarred (hname : String.ofList a.name ∈ "style" :: addressAttributes)
      (hpermitted : policy.permitsAttribute (String.ofList a.name) = true) :
      ¬ (isAttributeName a.name = false
        ∨ policy.permitsAttribute (String.ofList a.name) = false) := by
    rw [hpower hname, hpermitted]
    decide
  unfold Policy.judge
  simp only [Bool.or_eq_true, Bool.and_eq_true, Bool.not_eq_true', decide_eq_true_eq,
    List.contains_iff_mem]
  split
  · rename_i hhandler
    exact iff_of_true (.inl ((Policy.isHandler_iff a.name).1 hhandler)) rfl
  · rename_i hhandler
    rw [Policy.isHandler_iff] at hhandler
    split
    · rename_i hnot
      refine iff_of_false ?_ Bool.false_ne_true
      rintro (hon | ⟨hpermitted, hname, -⟩ | ⟨hpermitted, hname, -⟩)
      · exact hhandler hon
      · exact hbarred (List.mem_cons_of_mem _ hname) hpermitted hnot
      · exact hbarred (List.mem_cons.2 (.inl hname)) hpermitted hnot
    · rename_i hpermitted
      rw [not_or, Bool.not_eq_false, Bool.not_eq_false] at hpermitted
      split
      · rename_i haddress
        exact iff_of_true (.inr (.inl ⟨hpermitted.2, haddress⟩)) rfl
      · rename_i haddress
        split
        · rename_i hstyle
          exact iff_of_true (.inr (.inr ⟨hpermitted.2, hstyle⟩)) rfl
        · rename_i hstyle
          refine iff_of_false ?_ Bool.false_ne_true
          rintro (hon | ⟨-, hunsafe⟩ | ⟨-, hunsafe⟩)
          · exact hhandler hon
          · exact haddress hunsafe
          · exact hstyle hunsafe

/-! ## The first of each name

The writer goes through the attributes of a tag with the names that it has met. What is left for it
at any moment are the attributes that are the first of a name it has not met. -/

/-- The attributes that are the first of their name, the names met before included. -/
def firstUnmet (seen : List (List Char)) (as : List Attribute) : List Attribute :=
  (firstOfName as).filter (!seen.contains ·.name)

theorem firstUnmet_nil (as : List Attribute) : firstUnmet [] as = firstOfName as :=
  List.filter_eq_self.2 fun _ _ => rfl

/-- An attribute whose name was met is passed over, -/
theorem firstUnmet_cons_of_mem {seen : List (List Char)} {a : Attribute} (h : a.name ∈ seen)
    (rest : List Attribute) : firstUnmet seen (a :: rest) = firstUnmet seen rest := by
  have hother : ∀ b : Attribute, b.name ∉ seen → b.name ≠ a.name := fun b hb he => hb (he ▸ h)
  rw [firstUnmet, firstOfName, List.filter_cons_of_neg (by simpa using h), List.filter_filter]
  refine List.filter_congr fun b _ => ?_
  by_cases hb : b.name ∈ seen
  · simp [hb]
  · simp [hb, hother b hb]

/-- and any other is met. -/
theorem firstUnmet_cons_of_notMem {seen : List (List Char)} {a : Attribute} (h : a.name ∉ seen)
    (rest : List Attribute) :
    firstUnmet seen (a :: rest) = a :: firstUnmet (a.name :: seen) rest := by
  rw [firstUnmet, firstOfName, List.filter_cons_of_pos (by simpa using h), List.filter_filter]
  refine congrArg (a :: ·) (List.filter_congr fun b _ => ?_)
  by_cases hb : b.name ∈ seen
  · simp [hb]
  · simp [hb, eq_comm]

/-- **What the writer keeps of a tag's attributes**: of those that are the first of their name the
safe ones. -/
theorem Writer.kept_eq (policy : Policy) (seen : List (List Char)) (as : List Attribute) :
    Writer.kept policy seen as = (firstUnmet seen as).filter (·.IsSafe policy) := by
  induction as generalizing seen with
  | nil => rfl
  | cons a rest ih =>
    rw [kept]
    split
    · rename_i hseen
      rw [firstUnmet_cons_of_mem (List.contains_iff_mem.1 hseen), ih]
    · rename_i hseen
      rw [firstUnmet_cons_of_notMem (mt List.contains_iff_mem.2 hseen), ih, List.filter_cons]
      split
      · rename_i hjudge
        rw [if_pos (decide_eq_true ((a.isSafe_iff policy).2 hjudge))]
      · rename_i hjudge
        rw [if_neg (by rwa [decide_eq_true_iff, a.isSafe_iff])]

/-- The attributes of a tag that are taken out of it. -/
def Tag.removed (policy : Policy) (tag : Tag) : List Attribute :=
  (firstOfName tag.attributes).filter (¬ ·.IsSafe policy)

/-- **A start tag with its safe attributes alone**, each the first of its name. -/
def Tag.safe (policy : Policy) (tag : Tag) : Tag :=
  ⟨tag.name, (firstOfName tag.attributes).filter (·.IsSafe policy)⟩

/-- **The account of the attributes of a tag**: the unsafe ones are counted, and no start tag is. -/
theorem Writer.report_attributes (policy : Policy) (seen : List (List Char)) (report : Report)
    (as : List Attribute) :
    (attributes policy seen report as).report.removedElements = report.removedElements
      ∧ (attributes policy seen report as).report.removedAttributes
        = report.removedAttributes + ((firstUnmet seen as).filter (¬ ·.IsSafe policy)).length
      ∧ ((attributes policy seen report as).report.scriptLike = true
        ↔ report.scriptLike = true ∨ ∃ a ∈ firstUnmet seen as, a.IsScriptLike policy) := by
  induction as generalizing seen report with
  | nil => exact ⟨rfl, rfl, by simp [attributes, firstUnmet, firstOfName]⟩
  | cons a rest ih =>
    rw [attributes]
    split
    · rename_i hseen
      rw [firstUnmet_cons_of_mem hseen]
      exact ih seen report
    · rename_i hseen
      rw [firstUnmet_cons_of_notMem hseen, List.filter_cons, List.exists_mem_cons_iff,
        a.isScriptLike_iff]
      split
      · rename_i hjudge
        obtain ⟨helements, hattributes, hscript⟩ := ih (a.name :: seen) report
        have hsafe := (a.isSafe_iff policy).2 hjudge
        refine ⟨helements, ?_, ?_⟩
        · rw [if_neg (by simpa using hsafe)]
          exact hattributes
        · rw [hjudge]
          simpa [Verdict.isScriptLike] using hscript
      · rename_i hjudge
        obtain ⟨helements, hattributes, hscript⟩ :=
          ih (a.name :: seen) (report.removeAttribute (policy.judge a))
        have hunsafe : ¬ a.IsSafe policy := mt (a.isSafe_iff policy).1 hjudge
        have hone : (report.removeAttribute (policy.judge a)).removedAttributes
            = report.removedAttributes + 1 := rfl
        refine ⟨helements, hattributes.trans ?_, hscript.trans ?_⟩
        · rw [if_pos (by simpa using hunsafe), List.length_cons, hone]
          omega
        · rw [Report.removeAttribute, Bool.or_eq_true, or_assoc]

namespace Writer

/-! ## What a token comes to -/

/-- **What one token comes to**, between two accounts: it is no start tag and nothing is counted, or
it is one that is taken out and counted, or one that is written with its safe attributes. -/
inductive ComesTo (policy : Policy) (report : Report) : Token → List Char → Report → Prop
  | other {t : Token} {w : List Char} (ht : t.startTag? = none) (hw : HasNoStart w) :
      ComesTo policy report t w report
  | removed {name w : List Char} {as : List Attribute} {selfClosing : Bool} (hw : HasNoStart w) :
      ComesTo policy report (.startTag name as selfClosing) w (report.removeElement name)
  | written {name w : List Char} {as : List Attribute} {selfClosing : Bool}
      (hname : IsTag policy name) (hw : HasNoStart w) :
      ComesTo policy report (.startTag name as selfClosing)
        (startTagText name ((kept policy [] as).map Attribute.written) ++ w)
        (attributes policy [] report as).report

/-- A tag that may stay is counted like any other when it comes too deep. -/
theorem removeElement_of_isTag {policy : Policy} {name : List Char} (h : IsTag policy name)
    (report : Report) :
    report.removeElement name
      = { report with removedElements := report.removedElements + 1 } := by
  have hname : isStripped name = false := by
    rw [isStripped, ← Bool.not_eq_true, List.contains_iff_mem]
    exact h.notStripped
  rw [Report.removeElement, hname, Bool.or_false]

theorem hasNoStart_lineFeeds (n : Nat) : HasNoStart (lineFeeds n) := (isText_lineFeeds n).hasNoStart

theorem comesTo_skipToken (policy : Policy) (state : State) (skip : Skip) (t : Token) :
    ComesTo policy state.report t (skipToken state skip t).1
      (skipToken state skip t).2.report := by
  cases t with
  | text content => exact .other rfl (hasNoStart_lineFeeds _)
  | startTag name as selfClosing => exact .removed (hasNoStart_lineFeeds _)
  | endTag name =>
    rw [skipToken]
    split
    · exact .other rfl hasNoStart_nil
    · exact .other rfl hasNoStart_nil

theorem comesTo_startTag (policy : Policy) (state : State) (name : List Char)
    (as : List Attribute) (selfClosing : Bool) :
    ComesTo policy state.report (.startTag name as selfClosing)
      (startTag policy state name as selfClosing).1
      (startTag policy state name as selfClosing).2.report := by
  unfold startTag
  split
  · exact .removed (hasNoStart_lineFeeds _)
  · rename_i hwrites
    rw [Bool.not_eq_true, Bool.not_eq_false', writesTag_iff] at hwrites
    split
    · rw [← removeElement_of_isTag hwrites]
      exact .removed (hasNoStart_lineFeeds _)
    · have hfeeds := hasNoStart_lineFeeds (attributes policy [] state.report as).droppedNewlines
      simp only
      rw [tag_eq_startTagText]
      split
      · exact .written hwrites hfeeds
      · split
        · rw [List.append_assoc]
          exact .written hwrites (hfeeds.append hwrites.hasNoStart)
        · exact .written hwrites hfeeds

theorem comesTo_endTag {policy : Policy} {state : State} (h : state.IsPlain policy)
    (name : List Char) :
    ComesTo policy state.report (.endTag name) (endTag state name).1
      (endTag state name).2.report := by
  unfold endTag
  split
  · exact .other rfl hasNoStart_nil
  · rename_i hopen
    rw [Bool.or_eq_true, not_or, Bool.not_eq_true, Bool.not_eq_true, Bool.not_eq_false',
      List.contains_iff_mem] at hopen
    have htags : ∀ other ∈ state.opened.takeWhile (· ≠ name) ++ [name], IsTag policy other := by
      intro other hother
      rcases List.mem_append.1 hother with hother | hother
      · exact h other ((List.takeWhile_sublist _).subset hother)
      · rw [List.mem_singleton.1 hother]
        exact h name hopen.2
    exact .other rfl (hasNoStart_endTags htags)

/-- **A token comes to one of three things**, wherever the writer stands. -/
theorem comesTo_step {policy : Policy} {state : State} (h : state.IsPlain policy) {t : Token}
    (ht : t.IsClean) :
    ComesTo policy state.report t (step policy state t).1 (step policy state t).2.report := by
  unfold step
  split
  · exact comesTo_skipToken policy state _ t
  · cases t with
    | text content => exact .other rfl ((isText_iff _).2 ⟨content, ht, rfl⟩).hasNoStart
    | startTag name as selfClosing => exact comesTo_startTag policy state name as selfClosing
    | endTag name => exact comesTo_endTag h name

/-! ## The account -/

/-- **The start tag that a token is, if it is written**: if what is written for the token has a
start tag. -/
def writtenTag? (policy : Policy) (state : State) (t : Token) : Option Tag :=
  if readTags (step policy state t).1 = [] then none else t.startTag?

/-- **The start tags of a stream that are written**, in order. -/
def writtenTags (policy : Policy) (state : State) : List Token → List Tag
  | [] => []
  | t :: rest =>
    (writtenTag? policy state t).toList ++ writtenTags policy (step policy state t).2 rest

/-- **How an account goes on** over tokens with the given start tags, some of which are written. -/
structure Accounts (policy : Policy) (tags written : List Tag) (before after : Report) : Prop where
  sublist : written.Sublist tags
  elements : after.removedElements + written.length = before.removedElements + tags.length
  attributes : after.removedAttributes
    = before.removedAttributes + (written.map fun tag => (tag.removed policy).length).sum
  scriptLike : after.scriptLike = true ↔ before.scriptLike = true
    ∨ (∃ tag ∈ tags, String.ofList tag.name ∈ strippedTags)
    ∨ ∃ tag ∈ written, ∃ a ∈ firstOfName tag.attributes, a.IsScriptLike policy

theorem accounts_nil (policy : Policy) (report : Report) : Accounts policy [] [] report report where
  sublist := .slnil
  elements := rfl
  attributes := rfl
  scriptLike := by simp

/-- An account goes on from where it stands. -/
theorem Accounts.append {policy : Policy} {tags tags' written written' : List Tag}
    {r r' r'' : Report} (h : Accounts policy tags written r r')
    (h' : Accounts policy tags' written' r' r'') :
    Accounts policy (tags ++ tags') (written ++ written') r r'' where
  sublist := h.sublist.append h'.sublist
  elements := by
    have helements := h.elements
    have helements' := h'.elements
    rw [List.length_append, List.length_append]
    omega
  attributes := by
    rw [List.map_append, List.sum_append, h'.attributes, h.attributes, Nat.add_assoc]
  scriptLike := by
    rw [h'.scriptLike, h.scriptLike]
    simp only [List.mem_append, or_and_right, exists_or]
    constructor
    · rintro ((h | h | h) | h | h) <;> simp [h]
    · rintro (h | (h | h) | h | h) <;> simp [h]

/-- **A start tag that is written is read again** with its safe attributes. -/
theorem readTags_startTagText {policy : Policy} {name : List Char} (hname : IsTag policy name)
    {as : List Attribute} (hclean : ∀ a ∈ as, '\x00' ∉ a.value) (cs : List Char) :
    readTags (startTagText name ((kept policy [] as).map Attribute.written) ++ cs)
      = Tag.safe policy ⟨name, as⟩ :: readTags cs := by
  have hkept : ((kept policy [] as).map Attribute.written).map WrittenAttribute.meaning
      = (firstOfName as).filter (·.IsSafe policy) := by
    rw [map_meaning_written fun a ha => hclean a (mem_kept ha).1, kept_eq, firstUnmet_nil]
  rw [readTags_eq, hname.tags_startTagText (areAttributes_kept policy [] hclean), readTags_eq,
    hkept]
  rfl

theorem readTags_startTagText_ne_nil {policy : Policy} {name : List Char}
    (hname : IsTag policy name) {as : List Attribute} (hclean : ∀ a ∈ as, '\x00' ∉ a.value)
    (cs : List Char) :
    readTags (startTagText name ((kept policy [] as).map Attribute.written) ++ cs) ≠ [] := by
  rw [readTags_startTagText hname hclean]
  exact List.cons_ne_nil _ _

namespace ComesTo

variable {policy : Policy} {report after : Report} {t : Token} {w : List Char}

/-- **What is read of what a token comes to**, in front of any rest: its start tag with the safe
attributes, if it is written. -/
theorem readTags_append (h : ComesTo policy report t w after) (ht : t.IsClean) (cs : List Char) :
    readTags (w ++ cs)
      = (if readTags w = [] then none else t.startTag?).toList.map (Tag.safe policy)
        ++ readTags cs := by
  cases h with
  | other _ hw =>
    rw [hw, if_pos hw.readTags_eq_nil]
    rfl
  | removed hw =>
    rw [hw, if_pos hw.readTags_eq_nil]
    rfl
  | written hname hw =>
    rw [if_neg (readTags_startTagText_ne_nil hname ht _), List.append_assoc,
      readTags_startTagText hname ht, hw]
    rfl

/-- **The account of one token.** -/
theorem accounts (h : ComesTo policy report t w after) (ht : t.IsClean) :
    Accounts policy t.startTag?.toList
      (if readTags w = [] then none else t.startTag?).toList report after := by
  cases h with
  | other hother hw =>
    rw [hother, ite_self]
    exact accounts_nil policy report
  | removed hw =>
    rw [if_pos hw.readTags_eq_nil]
    exact {
      sublist := List.nil_sublist _
      elements := rfl
      attributes := rfl
      scriptLike := by simp [Report.removeElement, Token.startTag?, isStripped] }
  | @written name w as selfClosing hname hw =>
    obtain ⟨helements, hattributes, hscript⟩ := report_attributes policy [] report as
    rw [firstUnmet_nil] at hattributes hscript
    rw [if_neg (readTags_startTagText_ne_nil hname ht w)]
    exact {
      sublist := .refl _
      elements := by rw [helements]
      attributes := by simpa [Token.startTag?, Tag.removed] using hattributes
      scriptLike := by simpa [Token.startTag?, hname.notStripped] using hscript }

end ComesTo

/-- **The account of a stream**, and what is read of its output in front of any rest. -/
theorem accounts_run {policy : Policy} {state : State} (h : state.IsPlain policy)
    {ts : List Token} (hclean : ∀ t ∈ ts, t.IsClean) :
    Accounts policy (startTags ts) (writtenTags policy state ts) state.report
        (run policy state ts).2.report
      ∧ readTags ((run policy state ts).1 ++ finish (run policy state ts).2)
        = (writtenTags policy state ts).map (Tag.safe policy) := by
  induction ts generalizing state with
  | nil => exact ⟨accounts_nil policy _, (hasNoStart_endTags h).readTags_eq_nil⟩
  | cons t ts ih =>
    obtain ⟨ht, hts⟩ := List.forall_mem_cons.1 hclean
    have hstep := comesTo_step h ht
    obtain ⟨haccounts, hread⟩ := ih (h.step t) hts
    have htags : startTags (t :: ts) = t.startTag?.toList ++ startTags ts := by
      cases t <;> rfl
    rw [run_cons, writtenTags, writtenTag?, htags]
    refine ⟨(hstep.accounts ht).append haccounts, ?_⟩
    rw [List.append_assoc, hstep.readTags_append ht, hread, List.map_append]

end Writer

/-- **The start tags of a text that are written** when it is sanitised. -/
def writtenTags (policy : Policy) (cs : List Char) : List Tag :=
  Writer.writtenTags policy .initial (tokens cs)

/-- **The account says exactly what was taken out**, whatever the input and the policy.

Of the start tags that are read each is in the output or is counted. One that is in the output has
its safe attributes, in their order, of those that are the first of their name: a later one of the
same name is gone even where the first was not safe, and then only the first is counted. And the
account speaks of a script exactly if some start tag is one that no policy lets in, or some
attribute that is looked at was there to run something. -/
theorem report_accounts_for_input (policy : Policy) (input : String) :
    (sanitizeWithReport policy input).2.removedElements
        + (readTags (sanitize policy input).text.toList).length
      = (readTags input.toList).length
    ∧ (writtenTags policy input.toList).Sublist (readTags input.toList)
    ∧ readTags (sanitize policy input).text.toList
      = (writtenTags policy input.toList).map (Tag.safe policy)
    ∧ (sanitizeWithReport policy input).2.removedAttributes
      = ((writtenTags policy input.toList).map fun tag => (tag.removed policy).length).sum
    ∧ ((sanitizeWithReport policy input).2.scriptLike = true
      ↔ (∃ tag ∈ readTags input.toList, String.ofList tag.name ∈ strippedTags)
        ∨ ∃ tag ∈ writtenTags policy input.toList,
            ∃ a ∈ firstOfName tag.attributes, a.IsScriptLike policy) := by
  obtain ⟨haccounts, hread⟩ := Writer.accounts_run (Writer.isPlain_initial policy)
    (isClean_tokens input.toList)
  have hsafe : readTags (sanitize policy input).text.toList
      = (writtenTags policy input.toList).map (Tag.safe policy) := by
    rw [toList_sanitize]
    exact hread
  refine ⟨?_, haccounts.sublist, hsafe, ?_, ?_⟩
  · rw [hsafe, List.length_map]
    exact haccounts.elements.trans (Nat.zero_add _)
  · exact haccounts.attributes.trans (Nat.zero_add _)
  · exact haccounts.scriptLike.trans (or_iff_right Bool.false_ne_true)

end SafePreview.Markup
