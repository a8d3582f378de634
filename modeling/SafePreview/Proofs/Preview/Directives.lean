import Mathlib.Data.List.DropRight
import SafePreview.Proofs.Preview.Container
import SafePreview.Proofs.Preview.Styles
import SafePreview.Web.Server

/-!
# What a security policy says

A browser takes the security policy of a frame apart at its semicolons and each part at its spaces,
so whoever names an origin might say more with it than where assets come from. This module takes the
policy apart as a browser does (`Frame.readDirectives`) and finds what was put together, whatever
the origins were (`Frame.readDirectives_securityPolicy`). That is so because the one thing that is
not fixed is a word (`Frame.IsWord`), and no word has a space or a semicolon in it.

The source of assets is made of the last origin alone, without the slashes at its end. What is no
origin makes no source, and neither does an earlier one then. A server asks for at most one origin,
its own or that of the request, so nothing else has to be said of it.
-/

namespace SafePreview.Frame

open Markup

variable {f : Frame}

/-! ## Words -/

/-- The words of a text, between spaces of any kind. -/
def words (cs : List Char) : List (List Char) :=
  (cs.splitOnP Text.isMarkupSpace).filter (· ≠ [])

/-- **What a security policy is read as**: the words of its parts, a name and its sources each. -/
def readDirectives (cs : List Char) : List (List (List Char)) := (cs.splitOn ';').map words

/-- A character of a name or a source. -/
def isSourceChar (c : Char) : Bool := isOriginChar c || c = '\''

/-- **A name or a source**, which can be told apart from what is around it. -/
def IsWord (word : String) : Prop := word ≠ "" ∧ word.toList.all isSourceChar = true

instance : DecidablePred IsWord := fun _ => inferInstanceAs (Decidable (_ ∧ _))

theorem words_append_space (a b : List Char) : words (a ++ ' ' :: b) = words a ++ words b := by
  rw [words, List.splitOnP_append_cons a b (by decide), List.filter_append]
  rfl

/-- No character of a word ends it, or a directive, or the attribute that the policy stands in. -/
theorem not_mem_of_isSourceChar {c : Char} (h : isSourceChar c = true) :
    Text.isMarkupSpace c = false ∧ c ∉ [' ', '"', ',', ';'] := by
  have hne (mark : Char) (hmark : isSourceChar mark = false) : c ≠ mark := fun heq =>
    Bool.noConfusion (hmark.symm.trans (heq ▸ h))
  constructor
  · simp only [Text.isMarkupSpace, Bool.or_eq_false_iff, decide_eq_false_iff_not]
    exact ⟨⟨⟨⟨hne _ (by decide), hne _ (by decide)⟩, hne _ (by decide)⟩, hne _ (by decide)⟩,
      hne _ (by decide)⟩
  · simp only [List.mem_cons, List.not_mem_nil, or_false, not_or]
    exact ⟨hne _ (by decide), hne _ (by decide), hne _ (by decide), hne _ (by decide)⟩

theorem IsWord.words_eq {word : String} (h : IsWord word) : words word.toList = [word.toList] := by
  have hspaces : ∀ c ∈ word.toList, Text.isMarkupSpace c = false := fun c hc =>
    (not_mem_of_isSourceChar (List.all_eq_true.1 h.2 c hc)).1
  have hne : word.toList ≠ [] := fun hnil => h.1 (String.toList_injective hnil)
  rw [words, List.splitOnP_eq_singleton hspaces]
  exact List.filter_eq_self.2 (List.forall_mem_singleton.2 (decide_eq_true hne))

theorem IsWord.semicolon_notMem {word : String} (h : IsWord word) : ';' ∉ word.toList := fun hmem =>
  absurd (List.all_eq_true.1 h.2 ';' hmem) (by decide)

/-- A name and a source with a space between them are these two words, -/
theorem words_directive {d : String × String} (h : IsWord d.1 ∧ IsWord d.2) :
    words (d.1 ++ " " ++ d.2).toList = [d.1.toList, d.2.toList] := by
  rw [String.toList_append, String.toList_append, List.append_assoc]
  show words (d.1.toList ++ ' ' :: d.2.toList) = _
  rw [words_append_space, h.1.words_eq, h.2.words_eq]
  rfl

/-- and there is no semicolon in them. -/
theorem semicolon_notMem_directive {d : String × String} (h : IsWord d.1 ∧ IsWord d.2) :
    ';' ∉ (d.1 ++ " " ++ d.2).toList := by
  rw [String.toList_append, String.toList_append]
  exact List.not_mem_append (List.not_mem_append h.1.semicolon_notMem (by decide))
    h.2.semicolon_notMem

/-- Parts with a semicolon and a space between them are parts between semicolons, of which all but
the first start with a space. -/
theorem intercalate_separator (first : List Char) (rest : List (List Char)) :
    "; ".toList.intercalate (first :: rest)
      = [';'].intercalate (first :: rest.map ([' '] ++ ·)) := by
  rw [intercalate_cons, intercalate_cons, List.flatMap_map]
  rfl

/-- **A policy is read as the directives that it was put together from.** -/
theorem readDirectives_intercalate (first : String × String) (rest : List (String × String))
    (h : ∀ d ∈ first :: rest, IsWord d.1 ∧ IsWord d.2) :
    readDirectives ("; ".intercalate ((first :: rest).map fun d => d.1 ++ " " ++ d.2)).toList
      = (first :: rest).map fun d => [d.1.toList, d.2.toList] := by
  obtain ⟨hfirst, hrest⟩ := List.forall_mem_cons.1 h
  have hparts : ∀ part ∈ (first.1 ++ " " ++ first.2).toList
      :: rest.map (fun d => [' '] ++ (d.1 ++ " " ++ d.2).toList), ';' ∉ part := by
    refine List.forall_mem_cons.2 ⟨semicolon_notMem_directive hfirst, ?_⟩
    exact List.forall_mem_map.2 fun d hd =>
      List.not_mem_append (by decide) (semicolon_notMem_directive (hrest d hd))
  rw [String.toList_intercalate, List.map_map, List.map_cons, intercalate_separator,
    List.map_map, readDirectives]
  refine (congrArg (List.map words)
    (List.splitOn_intercalate ';' hparts (List.cons_ne_nil _ _))).trans ?_
  rw [List.map_cons, List.map_cons, List.map_map, words_directive hfirst]
  refine congrArg (_ :: ·) (List.map_congr_left fun d hd => ?_)
  exact (words_append_space [] _).trans (words_directive (hrest d hd))

/-! ## The source of assets -/

/-- **An origin**: it has letters, digits and a few marks, and not nothing. -/
def IsOrigin (cs : List Char) : Prop :=
  cs ≠ [] ∧ ∀ c ∈ cs, c.isAlphanum = true ∨ c ∈ [':', '/', '.', '-', '[', ']']

instance : DecidablePred IsOrigin := fun cs =>
  have : Decidable (∀ c ∈ cs, c.isAlphanum = true ∨ c ∈ [':', '/', '.', '-', '[', ']']) :=
    List.decidableBAll _ cs
  inferInstanceAs (Decidable (_ ∧ _))

theorem isOriginChar_iff {c : Char} : isOriginChar c = true
    ↔ c.isAlphanum = true ∨ c ∈ [':', '/', '.', '-', '[', ']'] := by
  simp only [isOriginChar, Text.isLetter_or_isDigit, Bool.or_eq_true, decide_eq_true_eq,
    List.mem_cons, List.not_mem_nil, or_false, or_assoc]

theorem isOrigin_iff (cs : List Char) :
    IsOrigin cs ↔ (!cs.isEmpty && cs.all isOriginChar) = true := by
  rw [Bool.and_eq_true, Bool.not_eq_true', ← Bool.not_eq_true, List.isEmpty_iff, List.all_eq_true]
  simp only [IsOrigin, isOriginChar_iff]

/-- **The source of assets that origins make.** It is the last one without the slashes at its end,
in front of the path of the assets; without an origin it is nowhere. -/
def sourceOf (origins : List String) : String :=
  match origins.getLast? with
  | none => "'none'"
  | some last =>
    let origin := last.toList.rdropWhile (· = '/')
    if IsOrigin origin then String.ofList origin ++ assetPath else "'none'"

/-- **Only the last origin counts.** -/
theorem assetToken_ofOrigins (limits : Limits) (origins : List String) :
    (ofOrigins limits origins).assetToken = sourceOf origins := by
  induction origins using List.reverseRecOn with
  | nil => rfl
  | append_singleton origins last _ =>
    rw [ofOrigins, List.foldl_concat, sourceOf, List.getLast?_concat, assetToken, withAssetOrigin]
    dsimp only
    have hsame : trimOrigin last.toList = last.toList.rdropWhile (· = '/') := rfl
    rw [hsame]
    by_cases horigin : IsOrigin (last.toList.rdropWhile (· = '/'))
    · rw [if_pos ((isOrigin_iff _).1 horigin), if_pos horigin]
      rfl
    · rw [if_neg (mt (isOrigin_iff _).2 horigin), if_neg horigin]
      rfl

/-- The source is nowhere, or made of the characters of origins. -/
theorem sourceOf_cases (origins : List String) :
    sourceOf origins = "'none'" ∨
      sourceOf origins ≠ "" ∧ (sourceOf origins).toList.all isOriginChar = true := by
  unfold sourceOf
  cases origins.getLast? with
  | none => exact .inl rfl
  | some last =>
    dsimp only
    split
    · rename_i horigin
      refine .inr ⟨fun hempty => ?_, ?_⟩
      · have hpath := congrArg String.toList hempty
        rw [String.toList_append] at hpath
        exact List.append_ne_nil_of_right_ne_nil _ (by decide) hpath
      · obtain ⟨-, hchars⟩ := Bool.and_eq_true_iff.1 ((isOrigin_iff _).1 horigin)
        rw [String.toList_append, List.all_append, String.toList_ofList, hchars]
        rfl
    · exact .inl rfl

/-- **The source is a word.** -/
theorem isWord_sourceOf (origins : List String) : IsWord (sourceOf origins) := by
  rcases sourceOf_cases origins with hnowhere | ⟨hne, hchars⟩
  · rw [hnowhere]
    decide +kernel
  · refine ⟨hne, List.all_eq_true.2 fun c hc => ?_⟩
    rw [isSourceChar, List.all_eq_true.1 hchars c hc]
    rfl

/-- An apostrophe is in it only if it is nowhere. -/
theorem sourceOf_of_apostrophe {origins : List String} (h : '\'' ∈ (sourceOf origins).toList) :
    sourceOf origins = "'none'" :=
  (sourceOf_cases origins).resolve_right fun hchars =>
    absurd (List.all_eq_true.1 hchars.2 _ h) (by decide)

/-! ## The policy -/

/-- **Every name and every source of a policy is a word.** -/
theorem isWord_directives (limits : Limits) (origins : List String) :
    ∀ d ∈ (ofOrigins limits origins).directives, IsWord d.1 ∧ IsWord d.2 := by
  have hassets : IsWord (ofOrigins limits origins).assetToken :=
    assetToken_ofOrigins limits origins ▸ isWord_sourceOf origins
  have hscripts : IsWord (ofOrigins limits origins).scriptToken := by
    unfold scriptToken
    split
    · decide +kernel
    · decide +kernel
  simp only [directives, List.forall_mem_cons, hassets, hscripts, and_true, List.not_mem_nil,
    false_implies, implies_true]
  decide +kernel

/-- **A policy says what its directives say**, each with its only source. -/
theorem readDirectives_securityPolicy (limits : Limits) (origins : List String) :
    readDirectives (ofOrigins limits origins).securityPolicy.toList
      = (ofOrigins limits origins).directives.map fun d => [d.1.toList, d.2.toList] :=
  readDirectives_intercalate _ _ (isWord_directives limits origins)

/-- No character of a source is a control character. -/
theorem isControl_of_isSourceChar {c : Char} (h : isSourceChar c = true) :
    Text.isControl c = false := by
  have hmarks : [':', '/', '.', '-', '[', ']'].all
      (fun mark => 0x21 ≤ mark.toNat ∧ mark.toNat ≤ 0x7E) = true := by decide
  have hbounds : 0x21 ≤ c.toNat ∧ c.toNat ≤ 0x7E := by
    rw [isSourceChar, Bool.or_eq_true, isOriginChar_iff, decide_eq_true_iff] at h
    rcases h with (hplain | hmark) | rfl
    · have hbetween := Text.toNat_of_isAlphanum hplain
      omega
    · exact of_decide_eq_true (List.all_eq_true.1 hmarks c hmark)
    · decide
  exact (Text.not_isBlank_not_isControl hbounds.1 hbounds.2).2

/-- The tag with the policy is one of the document, and has all of it. -/
theorem policyTag_mem_tags (h : f.IsSourced) (markup : SafeMarkup) :
    f.policyTag ∈ tags (f.document markup).toList := by
  rw [document, String.toList_append, String.toList_append, List.append_assoc, tags_opening h,
    openingTokens]
  refine List.mem_append_left _ (List.mem_filter.2 ⟨?_, rfl⟩)
  exact List.mem_append_right _ List.mem_cons_self

/-- The frame for a request was given one origin at most. -/
theorem frameFor_eq [Channels] (s : Server) (r : Request) :
    s.frameFor r = ofOrigins s.host.limits
      (s.settings.publicOrigin.or ((r.header? "host").map ("http://" ++ ·))).toList := by
  unfold Server.frameFor
  cases s.settings.publicOrigin with
  | some origin => rfl
  | none =>
    cases r.header? "host" with
    | some host => rfl
    | none => rfl

/-- **What a security policy says.** Whatever the origins were, it is read as eight directives with
one source each, and images, media and fonts have the same, which is made of the last origin or is
nowhere. No space, quote, comma, semicolon or control character is in that source, but for the
apostrophes around `none`. So the whole policy stands in its attribute of the document, and it says
nothing else. The frame for a request is one that was given the origin of the server, or else that
which the request names, if it names one. -/
theorem securityPolicy_has_eight_directives :
    (∀ (limits : Limits) (origins : List String),
      let f := ofOrigins limits origins
      let source := sourceOf origins
      readDirectives f.securityPolicy.toList = [
          ["default-src", "'none'"], ["img-src", source], ["media-src", source],
          ["font-src", source], ["style-src", "'unsafe-inline'"],
          ["script-src", if limits.allowScripts then "'unsafe-inline'" else "'none'"],
          ["base-uri", "'none'"], ["form-action", "'none'"]].map (·.map String.toList) ∧
        (∀ c ∈ source.toList, c ∉ [' ', '"', ',', ';'] ∧ Text.isControl c = false
          ∧ (c = '\'' → source = "'none'")) ∧
        ∀ markup, f.policyTag ∈ tags (f.document markup).toList) ∧
    ∀ [Channels] (s : Server) (r : Request), s.frameFor r = ofOrigins s.host.limits
      (s.settings.publicOrigin.or ((r.header? "host").map ("http://" ++ ·))).toList := by
  refine ⟨fun limits origins => ?_, frameFor_eq⟩
  obtain ⟨hsourced, hscripts⟩ := isSourced_ofOrigins limits origins
  refine ⟨?_, fun c hc => ?_, policyTag_mem_tags hsourced⟩
  · rw [readDirectives_securityPolicy, directives, scriptToken, hscripts, assetToken_ofOrigins]
    rfl
  · have hsource := List.all_eq_true.1 (isWord_sourceOf origins).2 c hc
    refine ⟨(not_mem_of_isSourceChar hsource).2, isControl_of_isSourceChar hsource, ?_⟩
    rintro rfl
    exact sourceOf_of_apostrophe hc

/-- An origin that would say more is none, and takes the source of the one before it away. -/
theorem securityPolicy_hostileOrigin :
    let origins := ["http://[::1]:3000//", "http://x; script-src *"]
    let f := ofOrigins .standard origins
    (readDirectives f.securityPolicy.toList)[1]? = some ["img-src".toList, "'none'".toList] ∧
      '\'' ∈ (sourceOf origins).toList ∧ sourceOf origins = "'none'" := by
  intro origins f
  have hmem : '\'' ∈ (sourceOf origins).toList := by decide
  obtain ⟨hread, hchars, -⟩ := securityPolicy_has_eight_directives.1 .standard origins
  have hnowhere := (hchars '\'' hmem).2.2 rfl
  refine ⟨?_, hmem, hnowhere⟩
  rw [hread]
  show some ["img-src".toList, (sourceOf origins).toList] = _
  rw [hnowhere]

end SafePreview.Frame
