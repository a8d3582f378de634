import Mathlib.Data.List.Infix
import SafePreview.Proofs.Markup.Newlines

/-!
# Nothing leaks from what is taken out

A start tag that may not stay takes with it all that belongs to its element. Where the element ends
is said here by counting (`extent`): with the first end tag by which there are more end tags of its
name than start tags, or not at all. `prune` replaces each such region by its line feeds, and what
is written for a stream is what is written for the pruned one (`Writer.run_prune`).

The writer does not count both kinds of tags. It keeps one number, the depth, and goes by the first
end tag that brings it to nought. The two agree since they agree on every rest of a stream, at any
depth (`run_extentFrom`): a prefix is too long for the one exactly if it is for the other.

A pruned stream holds nothing of a region but the number of its line feeds. Two streams that differ
in nothing else (`Alike`) are pruned to the same stream, so nobody can tell from the markup which of
them was read.
-/

namespace SafePreview.Markup

/-! ## Where an element ends -/

/-- A start tag with a name. One that closes itself counts. -/
def Token.isStartOf (name : List Char) : Token → Bool
  | .startTag other _ _ => other = name
  | _ => false

/-- An end tag with a name. -/
def Token.isEndOf (name : List Char) : Token → Bool
  | .endTag other => other = name
  | _ => false

/-- **More end tags than start tags** of a name. -/
def isOverclosed (name : List Char) (ts : List Token) : Bool :=
  ts.countP (·.isStartOf name) < ts.countP (·.isEndOf name)

/-- **What belongs to an element**, behind its start tag: the shortest part that has more end tags
than start tags of its name, or all that is left. -/
def extent (name : List Char) (ts : List Token) : List Token :=
  (ts.inits.find? (isOverclosed name)).getD ts

/-- What belongs to an element is the first of what is behind its start tag. -/
theorem extent_isPrefix (name : List Char) (ts : List Token) : extent name ts <+: ts := by
  unfold extent
  cases hfind : ts.inits.find? (isOverclosed name) with
  | none => exact List.prefix_rfl
  | some inner => exact (List.mem_inits inner ts).1 (List.mem_of_find?_eq_some hfind)

/-! ## The pruned stream -/

/-- Whether a token may stay. Only a start tag may not. -/
def Token.isPermitted (policy : Policy) : Token → Bool
  | .startTag name _ _ => policy.writesTag name
  | _ => true

/-- **What a start tag that may not stay takes with it.** A void tag and one that closes itself have
no content, and that of a raw-text element was passed over when the text was read. -/
def Token.content : Token → List Token → List Token
  | .startTag name _ selfClosing, rest =>
    if isVoid name || selfClosing || isRawText name then [] else extent name rest
  | _, _ => []

/-- **The stream without what is taken out**: each start tag that may not stay is replaced, with all
that it takes with it, by one text of as many line feeds as there are in both. -/
def prune (policy : Policy) : List Token → List Token
  | [] => []
  | t :: rest =>
    if t.isPermitted policy then t :: prune policy rest
    else
      .text (lineFeeds ((t :: t.content rest).map Token.newlines).sum)
        :: prune policy (rest.drop (t.content rest).length)
termination_by ts => ts.length

/-- **Nothing that may not stay is left.** -/
theorem isPermitted_of_mem_prune {policy : Policy} {ts : List Token} {t : Token}
    (h : t ∈ prune policy ts) : t.isPermitted policy = true := by
  fun_induction prune policy ts with
  | case1 => cases h
  | case2 u rest hpermitted ih =>
    rcases List.mem_cons.1 h with rfl | h
    · exact hpermitted
    · exact ih h
  | case3 u rest hpermitted ih =>
    rcases List.mem_cons.1 h with rfl | h
    · rfl
    · exact ih h

/-- **Streams that differ only in what is taken out**, and there not in the number of line feeds. -/
inductive Alike (policy : Policy) : List Token → List Token → Prop
  | nil : Alike policy [] []
  | permitted {t : Token} {ts us : List Token} (ht : t.isPermitted policy = true)
      (hmore : Alike policy ts us) : Alike policy (t :: ts) (t :: us)
  | removed {t u : Token} {inner inner' ts us : List Token} (ht : t.isPermitted policy = false)
      (hu : u.isPermitted policy = false) (hinner : t.content (inner ++ ts) = inner)
      (hinner' : u.content (inner' ++ us) = inner')
      (hfeeds : ((t :: inner).map Token.newlines).sum = ((u :: inner').map Token.newlines).sum)
      (hmore : Alike policy ts us) : Alike policy (t :: (inner ++ ts)) (u :: (inner' ++ us))

/-- A region in front of a rest. -/
theorem prune_region {policy : Policy} {t : Token} {inner ts : List Token}
    (ht : t.isPermitted policy = false) (hinner : t.content (inner ++ ts) = inner) :
    prune policy (t :: (inner ++ ts))
      = .text (lineFeeds ((t :: inner).map Token.newlines).sum) :: prune policy ts := by
  rw [prune, if_neg (by rw [ht]; decide), hinner, List.drop_left]

/-- **Streams that are alike are pruned to the same stream.** -/
theorem Alike.prune_eq {policy : Policy} {ts us : List Token} (h : Alike policy ts us) :
    prune policy ts = prune policy us := by
  induction h with
  | nil => rfl
  | permitted ht _ ih => rw [prune, if_pos ht, prune, if_pos ht, ih]
  | removed ht hu hinner hinner' hfeeds _ ih =>
    rw [prune_region ht hinner, prune_region hu hinner', hfeeds, ih]

/-! ## Counting at a depth -/

/-- What belongs to elements of one name that are open one in the other, the innermost at `depth`:
the shortest part that closes them all. -/
def extentFrom (name : List Char) (depth : Nat) (ts : List Token) : List Token :=
  (ts.inits.find? fun inner =>
    inner.countP (·.isStartOf name) + depth < inner.countP (·.isEndOf name)).getD ts

theorem extentFrom_zero (name : List Char) (ts : List Token) :
    extentFrom name 0 ts = extent name ts := rfl

/-- One token more belongs to the elements, and they are open at another depth behind it. -/
theorem extentFrom_cons {name : List Char} {depth depth' : Nat} {t : Token}
    (h : ∀ inner : List Token, (t :: inner).countP (·.isStartOf name) + depth
        < (t :: inner).countP (·.isEndOf name)
      ↔ inner.countP (·.isStartOf name) + depth' < inner.countP (·.isEndOf name))
    (ts : List Token) : extentFrom name depth (t :: ts) = t :: extentFrom name depth' ts := by
  have hsame : ((fun inner : List Token => decide (inner.countP (·.isStartOf name) + depth
        < inner.countP (·.isEndOf name))) ∘ fun inner => t :: inner)
      = fun inner => decide (inner.countP (·.isStartOf name) + depth'
        < inner.countP (·.isEndOf name)) :=
    funext fun inner => decide_eq_decide.2 (h inner)
  rw [extentFrom, extentFrom, List.inits_cons, List.find?_cons_of_neg (by simp), List.find?_map,
    hsame]
  cases List.find? _ ts.inits with
  | none => rfl
  | some inner => rfl

/-- A token that is no tag of the name changes nothing, -/
theorem extentFrom_other {name : List Char} {t : Token} (hstart : t.isStartOf name = false)
    (hend : t.isEndOf name = false) (depth : Nat) (ts : List Token) :
    extentFrom name depth (t :: ts) = t :: extentFrom name depth ts :=
  extentFrom_cons (fun inner => by simp [hstart, hend]) ts

/-- a start tag opens one element more, -/
theorem extentFrom_start {name : List Char} {t : Token} (hstart : t.isStartOf name = true)
    (hend : t.isEndOf name = false) (depth : Nat) (ts : List Token) :
    extentFrom name depth (t :: ts) = t :: extentFrom name (depth + 1) ts :=
  extentFrom_cons (fun inner => by simp [hstart, hend, Nat.add_right_comm, Nat.add_assoc]) ts

/-- and an end tag closes the innermost, -/
theorem extentFrom_end {name : List Char} {t : Token} (hstart : t.isStartOf name = false)
    (hend : t.isEndOf name = true) (depth : Nat) (ts : List Token) :
    extentFrom name (depth + 1) (t :: ts) = t :: extentFrom name depth ts :=
  extentFrom_cons (fun inner => by simp [hstart, hend, ← Nat.add_assoc]) ts

/-- or the last of them. -/
theorem extentFrom_last {name : List Char} {t : Token} (hstart : t.isStartOf name = false)
    (hend : t.isEndOf name = true) (ts : List Token) : extentFrom name 0 (t :: ts) = [t] := by
  have hinits : ∃ more, ts.inits = [] :: more := by
    cases ts with
    | nil => exact ⟨[], rfl⟩
    | cons u ts => exact ⟨_, List.inits_cons u ts⟩
  obtain ⟨more, hmore⟩ := hinits
  rw [extentFrom, List.inits_cons, hmore, List.find?_cons_of_neg (by simp), List.map_cons,
    List.find?_cons_of_pos (by simp [hstart, hend])]
  rfl

namespace Writer

/-! ## What is written for a region -/

/-- **Inside an element that is being taken out** a token is written as its line feeds. Nothing else
depends on it but the depth. -/
theorem step_skip (policy : Policy) (opened : List (List Char)) (report : Report)
    {name : List Char} (hvoid : isVoid name = false) (depth : Nat) (t : Token) :
    ∃ report', step policy ⟨opened, some ⟨name, depth + 1⟩, report⟩ t
      = (lineFeeds t.newlines,
        ⟨opened,
          if t.isEndOf name then if depth = 0 then none else some ⟨name, depth⟩
          else some ⟨name, if t.isStartOf name then depth + 2 else depth + 1⟩,
          report'⟩) := by
  cases t with
  | text content => exact ⟨report, rfl⟩
  | startTag other attributes selfClosing =>
    refine ⟨report.removeElement other, ?_⟩
    by_cases hname : other = name
    · simp [step, skipToken, Token.isStartOf, Token.isEndOf, Token.newlines, hname, hvoid]
    · simp [step, skipToken, Token.isStartOf, Token.isEndOf, Token.newlines, hname]
  | endTag other =>
    refine ⟨report, ?_⟩
    by_cases hname : other = name
    · simp [step, skipToken, Token.isEndOf, Token.newlines, hname, lineFeeds]
    · simp [step, skipToken, Token.isStartOf, Token.isEndOf, Token.newlines, hname, lineFeeds]

/-- Line feeds need no escaping. -/
theorem escapeText_lineFeeds (n : Nat) : escapeText (lineFeeds n) = lineFeeds n := by
  induction n with
  | zero => rfl
  | succ n ih => exact congrArg ('\n' :: ·) ih

theorem lineFeeds_append (m n : Nat) : lineFeeds m ++ lineFeeds n = lineFeeds (m + n) :=
  List.replicate_append_replicate

/-- **A region is written as its line feeds**, and the open elements are what they were. Behind it
nothing is being taken out any more, unless nothing is behind it. -/
theorem run_extentFrom (policy : Policy) (opened : List (List Char)) (report : Report)
    {name : List Char} (hvoid : isVoid name = false) (depth : Nat) (ts : List Token) :
    ∃ skip report', run policy ⟨opened, some ⟨name, depth + 1⟩, report⟩ (extentFrom name depth ts)
        = (lineFeeds ((extentFrom name depth ts).map Token.newlines).sum, ⟨opened, skip, report'⟩)
      ∧ (skip = none ∨ ts.drop (extentFrom name depth ts).length = []) := by
  induction ts generalizing depth report with
  | nil => exact ⟨_, report, rfl, .inr List.drop_nil⟩
  | cons t ts ih =>
    obtain ⟨report', hstep⟩ := step_skip policy opened report hvoid depth t
    -- one token more in front of a region that ends at `depth'`
    have hcons (depth' : Nat) (hextent : extentFrom name depth (t :: ts)
          = t :: extentFrom name depth' ts)
        (hskip : step policy ⟨opened, some ⟨name, depth + 1⟩, report⟩ t
          = (lineFeeds t.newlines, ⟨opened, some ⟨name, depth' + 1⟩, report'⟩)) :
        ∃ skip report'', run policy ⟨opened, some ⟨name, depth + 1⟩, report⟩
            (extentFrom name depth (t :: ts))
          = (lineFeeds ((extentFrom name depth (t :: ts)).map Token.newlines).sum,
            ⟨opened, skip, report''⟩)
        ∧ (skip = none ∨ (t :: ts).drop (extentFrom name depth (t :: ts)).length = []) := by
      obtain ⟨skip, report'', hrun, hrest⟩ := ih report' depth'
      refine ⟨skip, report'', ?_, ?_⟩
      · rw [hextent, run_cons, hskip, hrun, lineFeeds_append]
        rfl
      · rw [hextent]
        exact hrest
    by_cases hend : t.isEndOf name = true
    · have hstart : t.isStartOf name = false := by
        cases t with
        | endTag other => rfl
        | text content => cases hend
        | startTag other attributes selfClosing => cases hend
      rw [if_pos hend] at hstep
      cases depth with
      | zero =>
        refine ⟨none, report', ?_, .inl rfl⟩
        rw [extentFrom_last hstart hend, run_cons, hstep]
        exact congrArg (·, _) (List.append_nil _)
      | succ depth => exact hcons depth (extentFrom_end hstart hend depth ts) hstep
    · rw [if_neg hend] at hstep
      rw [Bool.not_eq_true] at hend
      by_cases hstart : t.isStartOf name = true
      · rw [if_pos hstart] at hstep
        exact hcons (depth + 1) (extentFrom_start hstart hend depth ts) hstep
      · rw [if_neg hstart] at hstep
        rw [Bool.not_eq_true] at hstart
        exact hcons depth (extentFrom_other hstart hend depth ts) hstep

/-- **A token that may stay is written the same whatever was taken out before.** -/
theorem step_permitted {policy : Policy} {t : Token} (ht : t.isPermitted policy = true)
    (opened : List (List Char)) :
    ∃ written opened', ∀ report, ∃ report',
      step policy ⟨opened, none, report⟩ t = (written, ⟨opened', none, report'⟩) := by
  cases t with
  | text content => exact ⟨_, opened, fun report => ⟨report, rfl⟩⟩
  | endTag name =>
    refine ⟨(endTag ⟨opened, none, .clean⟩ name).1, (endTag ⟨opened, none, .clean⟩ name).2.opened,
      fun report => ⟨report, ?_⟩⟩
    show endTag ⟨opened, none, report⟩ name = _
    unfold endTag
    split
    · rfl
    · rfl
  | startTag name as selfClosing =>
    have hwrites : policy.writesTag name = true := ht
    refine ⟨(startTag policy ⟨opened, none, .clean⟩ name as selfClosing).1,
      (startTag policy ⟨opened, none, .clean⟩ name as selfClosing).2.opened, fun report => ?_⟩
    refine ⟨(startTag policy ⟨opened, none, report⟩ name as selfClosing).2.report, ?_⟩
    obtain ⟨hwritten, hdropped⟩ := attributes_report policy [] report .clean as
    show startTag policy ⟨opened, none, report⟩ name as selfClosing = _
    simp only [startTag, hwrites, Bool.not_true, Bool.false_eq_true, if_false, hwritten, hdropped]
    split
    · rfl
    · split
      · rfl
      · split
        · rfl
        · rfl

/-- **A start tag that may not stay, with all that it takes with it,** is written as line feeds. -/
theorem run_region {policy : Policy} {t : Token} (ht : t.isPermitted policy = false)
    (opened : List (List Char)) (report : Report) (rest : List Token) :
    ∃ skip report', run policy ⟨opened, none, report⟩ (t :: t.content rest)
        = (lineFeeds ((t :: t.content rest).map Token.newlines).sum, ⟨opened, skip, report'⟩)
      ∧ (skip = none ∨ rest.drop (t.content rest).length = []) := by
  cases t with
  | text content => cases ht
  | endTag name => cases ht
  | startTag name as selfClosing =>
    have hwrites : policy.writesTag name = false := ht
    have hstep : step policy ⟨opened, none, report⟩ (.startTag name as selfClosing)
        = (lineFeeds (attributeNewlines as),
          ⟨opened, if isVoid name || selfClosing || isRawText name then none else some ⟨name, 1⟩,
            report.removeElement name⟩) := by
      show startTag policy ⟨opened, none, report⟩ name as selfClosing = _
      rw [startTag, hwrites]
      rfl
    rw [run_cons, hstep, Token.content]
    by_cases halone : (isVoid name || selfClosing || isRawText name) = true
    · rw [if_pos halone, if_pos halone]
      exact ⟨none, _, congrArg (·, _) (List.append_nil _), .inl rfl⟩
    · have hvoid : isVoid name = false := by
        rw [Bool.or_eq_true, Bool.or_eq_true, not_or, not_or, Bool.not_eq_true] at halone
        exact halone.1.1
      rw [if_neg halone, if_neg halone, ← extentFrom_zero]
      obtain ⟨skip, report', hrun, hrest⟩ :=
        run_extentFrom policy opened (report.removeElement name) hvoid 0 rest
      refine ⟨skip, report', ?_, hrest⟩
      rw [hrun, lineFeeds_append]
      rfl

/-- What goes with a start tag is the first of what is behind it. -/
theorem content_isPrefix (t : Token) (rest : List Token) : t.content rest <+: rest := by
  cases t with
  | text content => exact List.nil_prefix
  | endTag name => exact List.nil_prefix
  | startTag name attributes selfClosing =>
    rw [Token.content]
    split
    · exact List.nil_prefix
    · exact extent_isPrefix name rest

/-- **What is written for a stream is what is written for the pruned stream**, and the same elements
are open behind both. -/
theorem run_prune (policy : Policy) (opened : List (List Char)) (report report' : Report)
    (ts : List Token) :
    (run policy ⟨opened, none, report'⟩ (prune policy ts)).1
        = (run policy ⟨opened, none, report⟩ ts).1
      ∧ (run policy ⟨opened, none, report'⟩ (prune policy ts)).2.opened
        = (run policy ⟨opened, none, report⟩ ts).2.opened := by
  fun_induction prune policy ts generalizing opened report report' with
  | case1 => exact ⟨rfl, rfl⟩
  | case2 t rest hpermitted ih =>
    obtain ⟨written, opened', hstep⟩ := step_permitted hpermitted opened
    obtain ⟨report₁, hstep₁⟩ := hstep report
    obtain ⟨report₂, hstep₂⟩ := hstep report'
    rw [run_cons, run_cons, hstep₁, hstep₂]
    obtain ⟨htext, hopened⟩ := ih opened' report₁ report₂
    exact ⟨congrArg (written ++ ·) htext, hopened⟩
  | case3 t rest hremoved ih =>
    rw [Bool.not_eq_true] at hremoved
    obtain ⟨skip, report₁, hregion, hrest⟩ := run_region hremoved opened report rest
    have hsplit : t :: rest = (t :: t.content rest) ++ rest.drop (t.content rest).length :=
      congrArg (t :: ·) (List.prefix_append_drop (content_isPrefix t rest))
    have hfeeds : step policy ⟨opened, none, report'⟩
        (.text (lineFeeds ((t :: t.content rest).map Token.newlines).sum))
        = (lineFeeds ((t :: t.content rest).map Token.newlines).sum, ⟨opened, none, report'⟩) :=
      congrArg (·, _) (escapeText_lineFeeds _)
    rw [hsplit, run_append, hregion, run_cons, hfeeds]
    rcases hrest with rfl | hnil
    · obtain ⟨htext, hopened⟩ := ih opened report₁ report'
      exact ⟨congrArg (_ ++ ·) htext, hopened⟩
    · rw [hnil]
      exact ⟨by rw [prune]; rfl, by rw [prune]; rfl⟩

/-- **The markup of a stream**: what is written for it, and the end tags of what is open behind
it. -/
def markup (policy : Policy) (ts : List Token) : List Char :=
  (run policy .initial ts).1 ++ finish (run policy .initial ts).2

/-- **Pruning a stream leaves its markup as it is.** -/
theorem markup_prune (policy : Policy) (ts : List Token) :
    markup policy (prune policy ts) = markup policy ts := by
  obtain ⟨htext, hopened⟩ := run_prune policy [] .clean .clean ts
  exact congrArg₂ (· ++ ·) htext (congrArg (List.flatMap writeEnd) hopened)

end Writer

/-- **Nothing leaks from what is taken out.** Safe markup is the markup of a pruned stream of
tokens, in which nothing is left that may not stay; as for any stream, what is taken out leaves
nothing behind but its line feeds. So no markup tells streams apart that differ only in what is
taken out of them, and there not in the number of line feeds. -/
theorem sanitizeChars_eq_markup_prune (policy : Policy) :
    (∀ cs, (sanitizeChars policy cs).1 = Writer.markup policy (prune policy (tokens cs)))
      ∧ (∀ ts, Writer.markup policy ts = Writer.markup policy (prune policy ts))
      ∧ (∀ ts, ∀ t ∈ prune policy ts, t.isPermitted policy = true)
      ∧ ∀ ts us, Alike policy ts us → Writer.markup policy ts = Writer.markup policy us := by
  refine ⟨fun cs => (Writer.markup_prune policy (tokens cs)).symm,
    fun ts => (Writer.markup_prune policy ts).symm, fun ts t => isPermitted_of_mem_prune,
    fun ts us halike => ?_⟩
  calc Writer.markup policy ts
      = Writer.markup policy (prune policy ts) := (Writer.markup_prune policy ts).symm
    _ = Writer.markup policy (prune policy us) := by rw [halike.prune_eq]
    _ = Writer.markup policy us := Writer.markup_prune policy us

/-! ### Two forms

Neither may stay. One holds a password and a form that closes itself, and so ends with the second of
two end tags; the other holds a line feed and nothing else. -/

/-- A paragraph with something in it in front of a word. -/
def paragraphOf (inside : List Token) : List Token :=
  .startTag ['p'] [] false :: (inside ++ [.text ['e', 'n', 'd'], .endTag ['p']])

/-- A form with a password. -/
def passwordForm : List Token :=
  [.startTag ['f', 'o', 'r', 'm'] [⟨['a', 'c', 't', 'i', 'o', 'n'], ['/', '\n']⟩] false,
    .text "secret".toList, .startTag ['f', 'o', 'r', 'm'] [] true, .endTag ['f', 'o', 'r', 'm'],
    .startTag ['b'] [] false, .endTag ['f', 'o', 'r', 'm']]

/-- A form with nothing in it. -/
def emptyForm : List Token :=
  [.startTag ['f', 'o', 'r', 'm'] [] false, .text ['\n'], .endTag ['f', 'o', 'r', 'm']]

theorem alike_forms : Alike .preview (paragraphOf passwordForm) (paragraphOf emptyForm) := by
  have hend : Alike .preview [.text ['e', 'n', 'd'], .endTag ['p']]
      [.text ['e', 'n', 'd'], .endTag ['p']] := .permitted rfl (.permitted rfl .nil)
  have hforms : Alike .preview (passwordForm ++ [.text ['e', 'n', 'd'], .endTag ['p']])
      (emptyForm ++ [.text ['e', 'n', 'd'], .endTag ['p']]) :=
    @Alike.removed .preview _ _ passwordForm.tail emptyForm.tail _ _ (by decide +kernel)
      (by decide +kernel) (by decide +kernel) (by decide +kernel) (by decide +kernel) hend
  exact .permitted (by decide +kernel) hforms

/-- Nobody can tell them apart. -/
theorem markup_forms :
    Alike .preview (paragraphOf passwordForm) (paragraphOf emptyForm)
      ∧ Writer.markup .preview (paragraphOf passwordForm)
        = Writer.markup .preview (paragraphOf emptyForm)
      ∧ Writer.markup .preview (paragraphOf emptyForm) = "<p>\nend</p>".toList :=
  ⟨alike_forms, (sanitizeChars_eq_markup_prune .preview).2.2.2 _ _ alike_forms,
    by decide +kernel⟩

end SafePreview.Markup
