import SafePreview.Proofs.Markup.Canonical

/-!
# What the writer writes is canonical

Whatever the input, sanitised markup is a canonical document without NUL
(`isCanonical_sanitizeChars`, `nul_notMem_sanitizeChars`).

The statement about a whole run is made backwards. `Closes policy opened s` says that `s` is what is
still to come when the elements `opened` are open: the rest of the innermost body, its end tag, the
rest of the body around it, and so on. What a token writes can be put in front of any such `s`
(`Writes.closes_append`), so from the end tags that finish a run the whole output is put together
from its end, and no account of what was written before is needed. An element that is being taken
out needs none either: inside it a token writes line feeds alone, and those are text.

What one token can write is said once, in `Writes`: five shapes, whatever kind of token it is and
wherever the writer stands (`writes_step`).
-/

namespace SafePreview.Markup

/-! ## Tokens have no NUL

Names are tested by the writer. Text and values are not, and what keeps NUL out of them is that they
were read. -/

/-- **A token without NUL** in its text and in its values. -/
def Token.IsClean : Token → Prop
  | .text content => '\x00' ∉ content
  | .startTag _ attributes _ => ∀ a ∈ attributes, '\x00' ∉ a.value
  | .endTag _ => True

theorem nul_notMem_readText (cs : List Char) : '\x00' ∉ (readText cs).1 := by
  fun_induction readText cs with
  | case1 => exact List.not_mem_nil
  | case2 => exact List.not_mem_nil
  | case3 rest _ found ih => exact List.not_mem_cons_of_ne_of_not_mem (by decide) ih
  | case4 rest _ ih => exact ih
  | case5 rest _ ih => exact ih
  | case6 c rest _ found ih =>
    rw [List.mem_append, not_or]
    exact ⟨nul_notMem_decode _, ih⟩

theorem nul_notMem_readValue? {cs rest value : List Char}
    (h : readValue? cs = some (value, rest)) : '\x00' ∉ value := by
  unfold readValue? at h
  split at h
  · cases h
  · split at h
    · split at h
      · cases h
      · simp only [Option.some.injEq, Prod.mk.injEq] at h
        rw [← h.1]
        exact nul_notMem_decode _
    · simp only [Option.some.injEq, Prod.mk.injEq] at h
      rw [← h.1]
      exact nul_notMem_decode _

theorem nul_notMem_readAttribute? {first : Char} {cs rest : List Char} {a : Attribute}
    (h : readAttribute? first cs = some (a, rest)) : '\x00' ∉ a.value := by
  unfold readAttribute? at h
  split at h
  · obtain ⟨⟨value, behind⟩, hfound, hpair⟩ := Option.map_eq_some_iff.1 h
    simp only [Prod.mk.injEq] at hpair
    rw [← hpair.1]
    exact nul_notMem_readValue? hfound
  · simp only [Option.some.injEq, Prod.mk.injEq] at h
    rw [← h.1]
    exact List.not_mem_nil

theorem nul_notMem_readAttributes? {cs rest : List Char} {selfClosing closes : Bool}
    {attributes : List Attribute}
    (h : readAttributes? selfClosing cs = some (attributes, closes, rest)) :
    ∀ a ∈ attributes, '\x00' ∉ a.value := by
  fun_induction readAttributes? selfClosing cs generalizing attributes closes rest with
  | case1 => cases h
  | case2 =>
    simp only [Option.some.injEq, Prod.mk.injEq] at h
    rw [← h.1]
    intro a ha
    exact absurd ha List.not_mem_nil
  | case3 selfClosing cs behind heq _ ih => exact ih h
  | case4 => cases h
  | case5 selfClosing cs c behind heq _ _ a rest' hread ih =>
    obtain ⟨⟨more, closes', behind'⟩, hfound, hpair⟩ := Option.map_eq_some_iff.1 h
    simp only [Prod.mk.injEq] at hpair
    rw [← hpair.1]
    intro b hb
    rcases List.mem_cons.1 hb with rfl | hb
    · exact nul_notMem_readAttribute? hread
    · exact ih hfound b hb

theorem isClean_readTag? {cs rest : List Char} {t : Token} (h : readTag? cs = some (t, rest)) :
    t.IsClean := by
  unfold readTag? at h
  split at h
  · obtain ⟨_, _, hpair⟩ := Option.map_eq_some_iff.1 h
    simp only [Prod.mk.injEq] at hpair
    rw [← hpair.1]
    trivial
  · obtain ⟨_, hfound, hpair⟩ := Option.map_eq_some_iff.1 h
    simp only [Prod.mk.injEq] at hpair
    rw [← hpair.1]
    exact nul_notMem_readAttributes? hfound

theorem isClean_next? {cs rest : List Char} {t : Token} (h : next? cs = some (t, rest)) :
    t.IsClean := by
  unfold next? at h
  simp only at h
  split at h
  · split at h
    · cases h
    · exact isClean_readTag? h
  · simp only [Option.some.injEq, Prod.mk.injEq] at h
    rw [← h.1]
    exact nul_notMem_readText cs

/-- **No token has NUL.** -/
theorem isClean_tokens (cs : List Char) : ∀ t ∈ tokens cs, t.IsClean := by
  fun_induction tokens cs with
  | case1 =>
    intro t ht
    exact absurd ht List.not_mem_nil
  | case2 cs t rest hnext ih =>
    intro u hu
    rcases List.mem_cons.1 hu with rfl | hu
    · exact isClean_next? hnext
    · exact ih u hu

/-! ## The attributes that stay -/

namespace Writer

/-- **The attributes that stay**: the first of each name, if it may stay. -/
def kept (policy : Policy) (seen : List (List Char)) : List Attribute → List Attribute
  | [] => []
  | a :: rest =>
    if seen.contains a.name then kept policy seen rest
    else if policy.judge a = .kept then a :: kept policy (a.name :: seen) rest
    else kept policy (a.name :: seen) rest

/-- What is written of the attributes of a tag. -/
theorem written_attributes (policy : Policy) (seen : List (List Char)) (report : Report)
    (as : List Attribute) :
    (attributes policy seen report as).written = (kept policy seen as).flatMap writeAttribute := by
  induction as generalizing seen report with
  | nil => rfl
  | cons a rest ih =>
    rw [attributes, kept]
    by_cases hseen : a.name ∈ seen
    · rw [if_pos hseen, if_pos (List.contains_iff_mem.2 hseen)]
      exact ih seen report
    · rw [if_neg hseen, if_neg (mt List.contains_iff_mem.1 hseen)]
      split
      · rename_i hjudge
        rw [if_pos hjudge, List.flatMap_cons, ← ih]
      · rename_i hjudge
        rw [if_neg hjudge]
        exact ih _ _

/-- What stays was there, may stay and is not the second of its name. -/
theorem mem_kept {policy : Policy} {seen : List (List Char)} {as : List Attribute}
    {a : Attribute} (h : a ∈ kept policy seen as) :
    a ∈ as ∧ policy.judge a = .kept ∧ a.name ∉ seen := by
  induction as generalizing seen with
  | nil => exact absurd h List.not_mem_nil
  | cons b rest ih =>
    rw [kept] at h
    split at h
    · obtain ⟨hmem, hjudge, hseen⟩ := ih h
      exact ⟨List.mem_cons_of_mem b hmem, hjudge, hseen⟩
    · rename_i hb
      split at h
      · rename_i hkept
        rcases List.mem_cons.1 h with rfl | h
        · exact ⟨List.mem_cons_self, hkept, mt List.contains_iff_mem.2 hb⟩
        · obtain ⟨hmem, hjudge, hseen⟩ := ih h
          exact ⟨List.mem_cons_of_mem b hmem, hjudge, List.not_mem_of_not_mem_cons hseen⟩
      · obtain ⟨hmem, hjudge, hseen⟩ := ih h
        exact ⟨List.mem_cons_of_mem b hmem, hjudge, List.not_mem_of_not_mem_cons hseen⟩

/-- No name stays twice. -/
theorem nodup_kept (policy : Policy) (seen : List (List Char)) (as : List Attribute) :
    ((kept policy seen as).map (·.name)).Nodup := by
  induction as generalizing seen with
  | nil => exact List.nodup_nil
  | cons a rest ih =>
    rw [kept]
    split
    · exact ih seen
    · split
      · refine List.nodup_cons.2 ⟨fun hmem => ?_, ih _⟩
        obtain ⟨b, hb, hname⟩ := List.mem_map.1 hmem
        exact (mem_kept hb).2.2 (hname ▸ List.mem_cons_self)
      · exact ih _

/-- **The attributes that are written are those of a canonical tag**, and have no NUL. -/
theorem areAttributes_kept (policy : Policy) (seen : List (List Char)) {as : List Attribute}
    (hclean : ∀ a ∈ as, '\x00' ∉ a.value) :
    AreAttributes policy ((kept policy seen as).map Attribute.written) where
  nodup := by
    rw [List.map_map]
    exact nodup_kept policy seen as
  safe := by
    intro w hw
    obtain ⟨a, ha, rfl⟩ := List.mem_map.1 hw
    exact Attribute.isSafe_written (mem_kept ha).2.1 (hclean a (mem_kept ha).1)

end Writer

theorem nul_notMem_escapeValue {u : List Char} (h : '\x00' ∉ u) : '\x00' ∉ escapeValue u := by
  rw [← withoutNul_eq_self h, escapeValue_withoutNul]
  exact fun hmem => absurd rfl (of_decide_eq_true (List.mem_filter.1 hmem).2)

/-! ## What one token writes -/

theorem isText_lineFeeds (n : Nat) : IsText (lineFeeds n) := by
  induction n with
  | zero => exact .nil
  | succ n ih => exact .plain (by decide) ih

/-- **What one token can write** between two lists of open elements, the innermost first. -/
inductive Writes (policy : Policy) : List (List Char) → List Char → List (List Char) → Prop
  | text {opened : List (List Char)} {t : List Char} (ht : IsText t) :
      Writes policy opened t opened
  | void {opened : List (List Char)} {name t : List Char} {as : List WrittenAttribute}
      (hname : IsTag policy name) (hvoid : isVoid name = true) (has : AreAttributes policy as)
      (hnul : ∀ a ∈ as, '\x00' ∉ a.escaped) (ht : IsText t) :
      Writes policy opened (startTagText name as ++ t) opened
  | opens {opened : List (List Char)} {name t : List Char} {as : List WrittenAttribute}
      (hname : IsTag policy name) (hvoid : isVoid name = false) (has : AreAttributes policy as)
      (hnul : ∀ a ∈ as, '\x00' ∉ a.escaped) (ht : IsText t)
      (hdepth : opened.length < depthLimit) :
      Writes policy opened (startTagText name as ++ t) (name :: opened)
  | element {opened : List (List Char)} {name t : List Char} {as : List WrittenAttribute}
      (hname : IsTag policy name) (hvoid : isVoid name = false) (has : AreAttributes policy as)
      (hnul : ∀ a ∈ as, '\x00' ∉ a.escaped) (ht : IsText t)
      (hdepth : opened.length < depthLimit) :
      Writes policy opened (startTagText name as ++ t ++ endTagText name) opened
  | closes (inner opened : List (List Char)) :
      Writes policy (inner ++ opened) (inner.flatMap endTagText) opened

namespace Writer

/-- The open elements up to one of them, and those around it. -/
theorem eq_takeWhile_append {name : List Char} {opened : List (List Char)} (h : name ∈ opened) :
    opened.takeWhile (· ≠ name) ++ [name]
        ++ opened.drop ((opened.takeWhile (· ≠ name)).length + 1)
      = opened := by
  induction opened with
  | nil => exact absurd h List.not_mem_nil
  | cons other opened ih =>
    by_cases hother : other = name
    · rw [List.takeWhile_cons_of_neg (by simpa using hother), hother]
      rfl
    · rw [List.takeWhile_cons_of_pos (by simpa using hother)]
      rcases List.mem_cons.1 h with rfl | h
      · exact absurd rfl hother
      · exact congrArg (other :: ·) (ih h)

/-- Inside an element that is being taken out only line feeds are written. -/
theorem writes_skipToken (policy : Policy) (state : State) (skip : Skip) (t : Token) :
    Writes policy state.opened (skipToken state skip t).1 (skipToken state skip t).2.opened := by
  cases t with
  | text content => exact .text (isText_lineFeeds _)
  | startTag name attributes selfClosing => exact .text (isText_lineFeeds _)
  | endTag name =>
    simp only [skipToken]
    split
    · exact .text .nil
    · exact .text .nil

/-- A start tag is written as the grammar has it, in front of any rest. -/
theorem tag_eq_startTagText (policy : Policy) (report : Report) (name : List Char)
    (as : List Attribute) (rest : List Char) :
    '<' :: name ++ (attributes policy [] report as).written ++ '>' :: rest
      = startTagText name ((kept policy [] as).map Attribute.written) ++ rest := by
  rw [written_attributes, startTagText, List.flatMap_map, List.append_assoc, List.append_assoc,
    List.append_assoc]
  rfl

theorem writes_startTag (policy : Policy) (state : State) (name : List Char)
    {as : List Attribute} (selfClosing : Bool) (hclean : ∀ a ∈ as, '\x00' ∉ a.value) :
    Writes policy state.opened (startTag policy state name as selfClosing).1
      (startTag policy state name as selfClosing).2.opened := by
  unfold startTag
  split
  · exact .text (isText_lineFeeds _)
  · rename_i hwrites
    rw [Bool.not_eq_true, Bool.not_eq_false', writesTag_iff] at hwrites
    split
    · exact .text (isText_lineFeeds _)
    · rename_i hdepth
      have has := areAttributes_kept policy [] hclean
      have hnul : ∀ w ∈ (kept policy [] as).map Attribute.written, '\x00' ∉ w.escaped := by
        intro w hw
        obtain ⟨a, ha, rfl⟩ := List.mem_map.1 hw
        exact nul_notMem_escapeValue (hclean a (mem_kept ha).1)
      have ht := isText_lineFeeds (attributes policy [] state.report as).droppedNewlines
      -- the line feeds of what was dropped stand behind the tag, so they are text of the body
      simp only
      rw [tag_eq_startTagText]
      cases hvoid : isVoid name with
      | true => exact .void hwrites hvoid has hnul ht
      | false =>
        simp only [hvoid, Bool.not_false, Bool.true_and, decide_eq_true_eq, Nat.not_le] at hdepth
        cases selfClosing with
        | true => exact .element hwrites hvoid has hnul ht hdepth
        | false => exact .opens hwrites hvoid has hnul ht hdepth

theorem writes_endTag (policy : Policy) (state : State) (name : List Char) :
    Writes policy state.opened (endTag state name).1 (endTag state name).2.opened := by
  unfold endTag
  split
  · exact .text .nil
  · rename_i h
    rw [Bool.or_eq_true, not_or, Bool.not_eq_true, Bool.not_eq_true, Bool.not_eq_false',
      List.contains_iff_mem] at h
    have hcloses : Writes policy
        (state.opened.takeWhile (· ≠ name) ++ [name]
          ++ state.opened.drop ((state.opened.takeWhile (· ≠ name)).length + 1))
        ((state.opened.takeWhile (· ≠ name) ++ [name]).flatMap endTagText)
        (state.opened.drop ((state.opened.takeWhile (· ≠ name)).length + 1)) := .closes _ _
    rw [eq_takeWhile_append h.2] at hcloses
    exact hcloses

/-- **What a token writes has one of the five shapes**, wherever the writer stands. -/
theorem writes_step (policy : Policy) (state : State) {t : Token} (ht : t.IsClean) :
    Writes policy state.opened (step policy state t).1 (step policy state t).2.opened := by
  unfold step
  split
  · exact writes_skipToken policy state _ t
  · cases t with
    | text content => exact .text ((isText_iff _).2 ⟨content, ht, rfl⟩)
    | startTag name attributes selfClosing =>
      exact writes_startTag policy state name selfClosing ht
    | endTag name => exact writes_endTag policy state name

end Writer

/-! ## What is still to come -/

/-- **What closes the open elements**: the rest of the innermost body, the end tag of its element,
and what closes the elements around it. -/
def Closes (policy : Policy) : List (List Char) → List Char → Prop
  | [], s => IsCanonical policy s
  | name :: outer, s => ∃ body rest, s = body ++ endTagText name ++ rest
      ∧ Document policy (depthLimit - (outer.length + 1)) body ∧ Closes policy outer rest

/-- What can be put in front of a document can be put in front of what is still to come. -/
theorem Closes.prepend {policy : Policy} {opened : List (List Char)} {w s : List Char}
    (hw : ∀ cs, Document policy (depthLimit - opened.length) cs →
      Document policy (depthLimit - opened.length) (w ++ cs))
    (hs : Closes policy opened s) : Closes policy opened (w ++ s) := by
  cases opened with
  | nil => exact hw s hs
  | cons name outer =>
    obtain ⟨body, rest, rfl, hbody, hrest⟩ := hs
    refine ⟨w ++ body, rest, ?_, hw body hbody, hrest⟩
    rw [List.append_assoc, List.append_assoc, List.append_assoc]

/-- End tags close the elements that they name. -/
theorem Closes.endTags {policy : Policy} (inner : List (List Char)) {opened : List (List Char)}
    {s : List Char} (hs : Closes policy opened s) :
    Closes policy (inner ++ opened) (inner.flatMap endTagText ++ s) := by
  induction inner with
  | nil => exact hs
  | cons name inner ih => exact ⟨[], _, by rw [List.flatMap_cons, List.append_assoc]; rfl, .nil, ih⟩

/-- **What a token writes can be put in front of what is still to come.** -/
theorem Writes.closes_append {policy : Policy} {opened opened' : List (List Char)}
    {w s : List Char} (hw : Writes policy opened w opened') (hs : Closes policy opened' s) :
    Closes policy opened (w ++ s) := by
  cases hw with
  | text ht => exact hs.prepend (fun cs hcs => .text ht hcs)
  | void hname hvoid has _ ht =>
    refine hs.prepend (fun cs hcs => ?_)
    rw [List.append_assoc]
    exact .void hname hvoid has (.text ht hcs)
  | @opens _ name t as hname hvoid has _ ht hdepth =>
    -- the end tag is somewhere in `s`: the whole element goes in front of what closes the others
    obtain ⟨body, rest, rfl, hbody, hrest⟩ := hs
    have hroom : depthLimit - opened.length = depthLimit - (opened.length + 1) + 1 := by omega
    have hw : startTagText name as ++ t ++ (body ++ endTagText name ++ rest)
        = startTagText name as ++ (t ++ body) ++ endTagText name ++ rest := by
      simp only [List.append_assoc]
    rw [hw]
    refine hrest.prepend (fun cs hcs => ?_)
    rw [hroom] at hcs ⊢
    exact .element hname hvoid has (.text ht hbody) hcs
  | @element _ name t as hname hvoid has _ ht hdepth =>
    have hroom : depthLimit - opened.length = depthLimit - (opened.length + 1) + 1 := by omega
    refine hs.prepend (fun cs hcs => ?_)
    rw [hroom] at hcs ⊢
    have hbody : Document policy (depthLimit - (opened.length + 1)) t := by
      rw [← List.append_nil t]
      exact .text ht .nil
    exact .element hname hvoid has hbody hcs
  | closes inner _ => exact hs.endTags inner

/-- **What a run writes, with the end tags that finish it, closes what was open.** -/
theorem closes_run (policy : Policy) (state : Writer.State) (ts : List Token)
    (hclean : ∀ t ∈ ts, t.IsClean) :
    Closes policy state.opened
      ((Writer.run policy state ts).1 ++ Writer.finish (Writer.run policy state ts).2) := by
  induction ts generalizing state with
  | nil =>
    -- nothing is read any more: the end tags that finish the run are all that is still to come
    have hnil : Closes policy [] [] := Document.nil
    have hfinish := hnil.endTags state.opened
    rw [List.append_nil, List.append_nil] at hfinish
    exact hfinish
  | cons t ts ih =>
    rw [Writer.run_cons, List.append_assoc]
    exact (Writer.writes_step policy state (hclean t List.mem_cons_self)).closes_append
      (ih _ (fun u hu => hclean u (List.mem_cons_of_mem t hu)))

/-- **Sanitised markup is canonical.** -/
theorem isCanonical_sanitizeChars (policy : Policy) (cs : List Char) :
    IsCanonical policy (sanitizeChars policy cs).1 :=
  closes_run policy .initial (tokens cs) (isClean_tokens cs)

/-! ## Sanitised markup has no NUL -/

/-- A plain name has no NUL. -/
theorem IsTag.nul_notMem {policy : Policy} {name : List Char} (h : IsTag policy name) :
    '\x00' ∉ name := h.plain.attribute.notMem (by decide)

theorem nul_notMem_endTagText {policy : Policy} {name : List Char} (h : IsTag policy name) :
    '\x00' ∉ endTagText name := by
  simp [endTagText, h.nul_notMem]

theorem nul_notMem_startTagText {policy : Policy} {name : List Char}
    {as : List WrittenAttribute} (hname : IsTag policy name) (has : AreAttributes policy as)
    (hnul : ∀ a ∈ as, '\x00' ∉ a.escaped) : '\x00' ∉ startTagText name as := by
  have hattributes : '\x00' ∉ as.flatMap WrittenAttribute.text := by
    intro hmem
    obtain ⟨a, ha, hmem⟩ := List.mem_flatMap.1 hmem
    have hplain : '\x00' ∉ a.name := (has.safe a ha).plain.notMem (by decide)
    simp [WrittenAttribute.text, hplain, hnul a ha] at hmem
  simp [startTagText, hname.nul_notMem, hattributes]

/-- **A token writes no NUL**, and what it opens can be closed without NUL. -/
theorem Writes.nul_notMem {policy : Policy} {opened opened' : List (List Char)} {w : List Char}
    (hw : Writes policy opened w opened') (hopened : ∀ name ∈ opened, IsTag policy name) :
    '\x00' ∉ w ∧ ∀ name ∈ opened', IsTag policy name := by
  cases hw with
  | text ht => exact ⟨ht.nul_notMem, hopened⟩
  | void hname _ has hnul ht =>
    rw [List.mem_append, not_or]
    exact ⟨⟨nul_notMem_startTagText hname has hnul, ht.nul_notMem⟩, hopened⟩
  | opens hname _ has hnul ht _ =>
    rw [List.mem_append, not_or]
    refine ⟨⟨nul_notMem_startTagText hname has hnul, ht.nul_notMem⟩, fun other hother => ?_⟩
    rcases List.mem_cons.1 hother with rfl | hother
    · exact hname
    · exact hopened other hother
  | element hname _ has hnul ht _ =>
    rw [List.mem_append, not_or, List.mem_append, not_or]
    exact ⟨⟨⟨nul_notMem_startTagText hname has hnul, ht.nul_notMem⟩,
      nul_notMem_endTagText hname⟩, hopened⟩
  | closes inner _ =>
    refine ⟨fun hmem => ?_, fun name hname => hopened name (List.mem_append_right inner hname)⟩
    obtain ⟨name, hname, hmem⟩ := List.mem_flatMap.1 hmem
    exact nul_notMem_endTagText (hopened name (List.mem_append_left _ hname)) hmem

theorem nul_notMem_run (policy : Policy) (state : Writer.State) (ts : List Token)
    (hclean : ∀ t ∈ ts, t.IsClean) (hopened : ∀ name ∈ state.opened, IsTag policy name) :
    '\x00' ∉ (Writer.run policy state ts).1 ++ Writer.finish (Writer.run policy state ts).2 := by
  induction ts generalizing state with
  | nil =>
    intro hmem
    obtain ⟨name, hname, hmem⟩ := List.mem_flatMap.1 hmem
    exact nul_notMem_endTagText (hopened name hname) hmem
  | cons t ts ih =>
    have hstep := (Writer.writes_step policy state (hclean t List.mem_cons_self)).nul_notMem hopened
    rw [Writer.run_cons, List.append_assoc, List.mem_append, not_or]
    exact ⟨hstep.1, ih _ (fun u hu => hclean u (List.mem_cons_of_mem t hu)) hstep.2⟩

/-- **Sanitised markup has no NUL.** -/
theorem nul_notMem_sanitizeChars (policy : Policy) (cs : List Char) :
    '\x00' ∉ (sanitizeChars policy cs).1 :=
  nul_notMem_run policy .initial (tokens cs) (isClean_tokens cs)
    (fun _ hname => absurd hname List.not_mem_nil)

theorem toList_sanitize (policy : Policy) (input : String) :
    (sanitize policy input).text.toList = (sanitizeChars policy input.toList).1 :=
  String.toList_ofList

/-- **Whatever the input, sanitised markup is a canonical document of the policy** and has no NUL
anywhere. -/
theorem sanitize_text_isCanonical (policy : Policy) (input : String) :
    IsCanonical policy (sanitize policy input).text.toList
      ∧ '\x00' ∉ (sanitize policy input).text.toList := by
  rw [toList_sanitize]
  exact ⟨isCanonical_sanitizeChars policy input.toList,
    nul_notMem_sanitizeChars policy input.toList⟩

end SafePreview.Markup
