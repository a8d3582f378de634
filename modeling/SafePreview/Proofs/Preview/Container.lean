import SafePreview.Preview.Frame
import SafePreview.Proofs.Markup.Nesting
import SafePreview.Proofs.Markup.Removal
import SafePreview.Proofs.Preview.Outline

/-!
# The container of the markup

The document of a frame is a text around the markup, put there as it is. Nothing is escaped on the
way, so that the markup stays in its container is a fact about all three parts: what is in front of
it leaves the container open, innermost (`opened?_openingTokens`); the tags of safe markup stay
inside whatever is open around them (`Document.staysInside`); and what is behind it starts with the
end tag of the container.

The text in front of the markup holds one thing that is not fixed, the security policy, which names
where assets may be loaded from. An origin is some of a few characters, so the policy is, too
(`isPolicyChar_of_mem`), and the attribute it stands in is read as that attribute.

The script of the frame is raw text. A reader passes over it to the end tag behind it, as there is
no `<` in it.
-/

namespace SafePreview.Frame

open Markup

variable {f : Frame}

/-! ## The security policy -/

/-- **A frame that loads assets from an origin**, or from nowhere: no other character is in the
source. -/
def IsSourced (f : Frame) : Prop := ∀ source ∈ f.assetSource, source.toList.all isOriginChar = true

theorem isSourced_new (limits : Limits) : (new limits).IsSourced := fun _ h => nomatch h

/-- An origin makes a source, and what is none makes no source. -/
theorem isSourced_withAssetOrigin (f : Frame) (origin : String) :
    (f.withAssetOrigin origin).IsSourced := by
  intro source hsource
  simp only [withAssetOrigin, Option.mem_def, Option.ite_none_right_eq_some, Bool.and_eq_true,
    Option.some.injEq] at hsource
  obtain ⟨⟨-, horigin⟩, rfl⟩ := hsource
  rw [String.toList_append, List.all_append, String.toList_ofList, horigin]
  rfl

/-- **A frame that was given origins**, one after the other. -/
def ofOrigins (limits : Limits) (origins : List String) : Frame :=
  origins.foldl withAssetOrigin (new limits)

/-- Origins make a source, and none of them changes what scripts may run. -/
theorem isSourced_ofOrigins (limits : Limits) (origins : List String) :
    (ofOrigins limits origins).IsSourced
      ∧ (ofOrigins limits origins).allowScripts = limits.allowScripts := by
  induction origins using List.reverseRecOn with
  | nil => exact ⟨isSourced_new limits, rfl⟩
  | append_singleton origins origin ih =>
    rw [ofOrigins, List.foldl_concat]
    exact ⟨isSourced_withAssetOrigin _ origin, ih.2⟩

/-- A character of a security policy. -/
def isPolicyChar (c : Char) : Bool := isOriginChar c || c = ' ' || c = ';' || c = '\''

/-- Every directive is made of such characters. -/
theorem all_isPolicyChar_directives (h : f.IsSourced) :
    ∀ d ∈ f.directives, (d.1 ++ " " ++ d.2).toList.all isPolicyChar = true := by
  have hassets : f.assetToken.toList.all isPolicyChar = true := by
    unfold assetToken
    cases hsource : f.assetSource with
    | none => decide +kernel
    | some source =>
      refine List.all_eq_true.2 fun c hc => ?_
      rw [isPolicyChar, List.all_eq_true.1 (h source hsource) c hc]
      rfl
  have hscripts : f.scriptToken.toList.all isPolicyChar = true := by
    unfold scriptToken
    split
    · decide +kernel
    · decide +kernel
  -- what is left is fixed: the names and the other sources
  simp only [directives, List.forall_mem_cons, String.toList_append, List.all_append, hassets,
    hscripts, Bool.and_true, List.not_mem_nil, false_implies, implies_true, and_true]
  decide +kernel

/-- **A security policy is made of few characters**, -/
theorem isPolicyChar_of_mem (h : f.IsSourced) :
    ∀ c ∈ f.securityPolicy.toList, isPolicyChar c = true := by
  have hseparator : "; ".toList.all isPolicyChar = true := by decide +kernel
  rw [securityPolicy, String.toList_intercalate, List.map_map]
  exact forall_mem_intercalate (List.all_eq_true.1 hseparator)
    (List.forall_mem_map.2 fun d hd => List.all_eq_true.1 (all_isPolicyChar_directives h d hd))

/-- and no other is in it. -/
theorem notMem_securityPolicy (h : f.IsSourced) {c : Char} (hc : isPolicyChar c = false) :
    c ∉ f.securityPolicy.toList := fun hmem =>
  Bool.noConfusion (hc.symm.trans (isPolicyChar_of_mem h c hmem))

/-- A security policy needs no references inside an attribute. -/
theorem toList_quoteAttribute_securityPolicy (h : f.IsSourced) :
    (quoteAttribute f.securityPolicy).toList = escapeValue f.securityPolicy.toList := by
  rw [quoteAttribute, String.toList_ofList]
  refine List.flatMap_congr fun c hc => ?_
  have hne (mark : Char) (hmark : isPolicyChar mark = false) : c ≠ mark := fun heq =>
    notMem_securityPolicy h hmark (heq ▸ hc)
  rw [escapeValueChar, escapeTextChar, if_neg (hne '&' (by decide)), if_neg (hne '<' (by decide)),
    if_neg (hne '>' (by decide))]
  rfl

/-! ## The tags around the markup -/

/-- The tag that has the security policy. -/
def policyTag (f : Frame) : Token :=
  .startTag "meta".toList [⟨"http-equiv".toList, "Content-Security-Policy".toList⟩,
    ⟨"content".toList, f.securityPolicy.toList⟩] false

/-- The start tag of the container. -/
def containerTag : Token :=
  .startTag "div".toList [⟨"id".toList, "preview-root".toList⟩] false

/-- What is in front of the tag that has the security policy, behind the declaration, -/
def frontTokens : List Token :=
  [.text ['\n'], .startTag "html".toList [] false, .text ['\n'],
    .startTag "head".toList [] false, .text ['\n'],
    .startTag "meta".toList [⟨"charset".toList, "utf-8".toList⟩] false, .text ['\n']]

/-- and what is behind it. -/
def backTokens : List Token :=
  [.text ['\n'], .startTag "meta".toList [⟨"name".toList, "referrer".toList⟩,
      ⟨"content".toList, "no-referrer".toList⟩] false, .text ['\n'],
    .endTag "head".toList, .text ['\n'], .startTag "body".toList [] false, .text ['\n'],
    containerTag, .text ['\n']]

/-- What is in front of the markup, behind the declaration. -/
def openingTokens (f : Frame) : List Token := frontTokens ++ f.policyTag :: backTokens

theorem isPlain_openingTokens (h : f.IsSourced) : f.openingTokens.all (·.isPlain) = true := by
  have hnul : f.securityPolicy.toList.contains '\x00' = false :=
    Bool.eq_false_iff.2 (mt List.contains_iff_mem.1 (notMem_securityPolicy h (by decide)))
  have hpolicy : f.policyTag.isPlain = true := by
    simp only [policyTag, Token.isPlain, List.all_cons, List.all_nil, hnul]
    decide +kernel
  rw [openingTokens, List.all_append, List.all_cons, hpolicy]
  decide +kernel

/-- The tag that has the security policy is written as it is meant. -/
theorem written_policyTag (h : f.IsSourced) :
    f.policyTag.written = "<meta http-equiv=\"Content-Security-Policy\" content=\"".toList
      ++ (quoteAttribute f.securityPolicy).toList ++ "\">".toList := by
  have hfront : "<meta http-equiv=\"Content-Security-Policy\" content=\"".toList
      = '<' :: "meta".toList ++ (Attribute.written ⟨"http-equiv".toList,
          "Content-Security-Policy".toList⟩).text ++ (' ' :: "content".toList ++ ['=', '"']) := by
    decide +kernel
  have hback : "\">".toList = ['"', '>'] := by decide
  rw [toList_quoteAttribute_securityPolicy h, hfront, hback]
  simp only [policyTag, Token.written, startTagText, Attribute.written, WrittenAttribute.text,
    List.map_cons, List.map_nil, List.flatMap_cons, List.flatMap_nil, List.append_assoc,
    List.cons_append, List.nil_append]

/-- **What is in front of the markup is a declaration and these tokens.** -/
theorem toList_opening (h : f.IsSourced) :
    f.opening.toList = '<' :: '!' :: 'D' :: ("OCTYPE html".toList
      ++ '>' :: f.openingTokens.flatMap Token.written) := by
  have hfront : "<!DOCTYPE html>\n<html>\n<head>\n<meta charset=\"utf-8\">\n".toList
      = '<' :: '!' :: 'D' :: ("OCTYPE html".toList
        ++ '>' :: frontTokens.flatMap Token.written) := by
    decide +kernel
  have hback : "\">\n<meta name=\"referrer\" content=\"no-referrer\">\n</head>\n<body>\n".toList
      ++ "<div id=\"preview-root\">\n".toList
      = "\">".toList ++ backTokens.flatMap Token.written := by
    decide +kernel
  unfold opening
  rw [openingTokens, List.flatMap_append, List.flatMap_cons, written_policyTag h]
  generalize quoteAttribute f.securityPolicy = quoted
  simp only [String.toList_append, hfront, hback, List.append_assoc, List.cons_append]

/-- The tags in front of the markup are those of these tokens. -/
theorem tags_opening (h : f.IsSourced) (cs : List Char) :
    tags (f.opening.toList ++ cs) = f.openingTokens.filter (·.isTag) ++ tags cs := by
  rw [toList_opening h, ← tags_flatMap_written (isPlain_openingTokens h)]
  simp only [List.cons_append, List.append_assoc]
  exact tags_declaration (by decide +kernel) _

/-- The elements that the markup is in, the container innermost. -/
def outer : List (List Char) := ["div".toList, "body".toList, "html".toList]

/-- **The container is open in front of the markup.** -/
theorem opened?_openingTokens (f : Frame) :
    opened? [] (f.openingTokens.filter (·.isTag)) = some outer := by
  have hfront : opened? [] (frontTokens.filter (·.isTag))
      = some ["head".toList, "html".toList] := by decide +kernel
  have hback : opened? ["head".toList, "html".toList] (backTokens.filter (·.isTag))
      = some outer := by decide +kernel
  rw [openingTokens, List.filter_append, opened?_append, hfront, Option.bind_some,
    List.filter_cons_of_pos rfl, policyTag, opened?_void (by decide +kernel), hback]

/-- The tags of the script of the frame. -/
def scriptTags : List Token := [.startTag "script".toList [] false, .endTag "script".toList]

/-- Nothing in the script could end it. -/
theorem notMem_bootstrap : '<' ∉ bootstrap.toList := by
  have hall : bootstrap.toList.all (· ≠ '<') = true := by
    -- line by line, as the lines put together are costly to evaluate
    unfold bootstrap
    repeat rw [String.toList_append, List.all_append]
    repeat rw [String.toList_ofList]
    decide +kernel
  intro hmem
  simpa using List.all_eq_true.1 hall '<' hmem

/-- **The script of the frame is passed over**: it is raw text up to its end tag. -/
theorem tags_script (cs : List Char) :
    tags (("<script>\n" ++ bootstrap ++ "\n</script>\n").toList ++ cs)
      = scriptTags ++ tags cs := by
  have hstart : "<script>\n".toList = startTagText "script".toList [] ++ ['\n'] := by
    decide +kernel
  have hend : "\n</script>\n".toList = ['\n'] ++ endTagText "script".toList ++ ['\n'] := by
    decide +kernel
  have hopens : '<' ∉ ['\n'] ++ bootstrap.toList ++ ['\n'] :=
    List.not_mem_append (List.not_mem_append (by decide) notMem_bootstrap) (by decide)
  have hread := tags_rawText ((isTagName_iff "script".toList).1 (by decide +kernel)) (by decide)
    (by decide +kernel) hopens (['\n'] ++ cs)
  rw [tags_text (.plain (by decide) .nil)] at hread
  simp only [String.toList_append, hstart, hend, List.append_assoc] at hread ⊢
  exact hread

/-- **The tags behind the markup**: the container is closed first. -/
theorem tags_closing (f : Frame) :
    tags f.closing.toList = .endTag "div".toList
      :: ((if f.allowScripts then scriptTags else [])
        ++ [.endTag "body".toList, .endTag "html".toList]) := by
  have hfront : "\n</div>\n".toList
      = [.text ['\n'], .endTag "div".toList, .text ['\n']].flatMap Token.written := by
    decide +kernel
  have hback : "</body>\n</html>\n".toList
      = [.endTag "body".toList, .text ['\n'], .endTag "html".toList, .text ['\n']].flatMap
        Token.written ++ [] := by
    decide +kernel
  have htags : tags "</body>\n</html>\n".toList
      = [.endTag "body".toList, .endTag "html".toList] := by
    rw [hback, tags_flatMap_written (by decide +kernel), tags_nil]
    rfl
  unfold closing
  rw [String.toList_append, String.toList_append, hfront, List.append_assoc,
    tags_flatMap_written (by decide +kernel)]
  cases f.allowScripts with
  | true =>
    rw [if_pos rfl, if_pos rfl, tags_script, htags]
    rfl
  | false =>
    rw [if_neg Bool.false_ne_true, if_neg Bool.false_ne_true]
    exact congrArg (Token.endTag "div".toList :: ·) htags

/-! ## The document -/

/-- No script starts in front of the markup, -/
theorem filter_isStartOf_openingTokens (f : Frame) :
    (f.openingTokens.filter (·.isTag)).filter (·.isStartOf "script".toList) = [] := by
  have hfront : (frontTokens.filter (·.isTag)).filter (·.isStartOf "script".toList) = [] := by
    decide +kernel
  have hback : (backTokens.filter (·.isTag)).filter (·.isStartOf "script".toList) = [] := by
    decide +kernel
  have hpolicy : ¬ f.policyTag.isStartOf "script".toList = true := by
    rw [policyTag, Token.isStartOf]
    decide
  rw [openingTokens, List.filter_append, List.filter_cons_of_pos rfl, List.filter_append,
    List.filter_cons_of_neg hpolicy, hfront, hback, List.append_nil]

/-- and none in it. -/
theorem filter_isStartOf_tags {policy : Policy} {n : Nat} {cs : List Char}
    (h : Document policy n cs) : (tags cs).filter (·.isStartOf "script".toList) = [] := by
  refine List.filter_eq_nil_iff.2 fun t ht hstart => ?_
  cases t with
  | startTag name as selfClosing =>
    have hname : name = "script".toList := of_decide_eq_true hstart
    refine (h.isTag_of_mem_tags _ ht name rfl).notStripped ?_
    rw [hname]
    decide +kernel
  | text content => cases hstart
  | endTag name => cases hstart

/-- **Markup stays in its container.** Whatever the limits, the origins, the policy and the input,
the document is a text around the safe markup that does not depend on it, and its tags are those of
the three parts. The markup starts right behind the start tag of the container, which is open there;
behind none of its tags is the container closed, nor anything around it, and behind the last of them
nothing else is open. So the container is closed by the end tag behind the markup. No tag of the
markup is one that no policy lets in, and the only script is that of the frame, if there is one. -/
theorem document_contains_markup (limits : Limits) (origins : List String) (policy : Policy)
    (input : String) :
    let frame := ofOrigins limits origins
    let markup := sanitize policy input
    let before := tags frame.opening.toList
    let inside := tags markup.text.toList
    let behind := tags frame.closing.toList
    frame.document markup = frame.opening ++ markup.text ++ frame.closing
      ∧ tags (frame.document markup).toList = before ++ inside ++ behind
      ∧ before.getLast? = some containerTag
      ∧ opened? [] before = some outer
      ∧ (∀ k, ∃ inner, inner.length ≤ 512
          ∧ opened? outer (inside.take k) = some (inner ++ outer))
      ∧ opened? outer inside = some outer
      ∧ behind.head? = some (.endTag "div".toList)
      ∧ opened? outer behind = some []
      ∧ (∀ t ∈ inside, ∀ name ∈ t.name?, String.ofList name ∉ strippedTags)
      ∧ (before ++ inside ++ behind).filter (·.isStartOf "script".toList)
        = (if limits.allowScripts then [.startTag "script".toList [] false] else [])
      ∧ frame.closing = "\n</div>\n"
        ++ (if limits.allowScripts then "<script>\n" ++ bootstrap ++ "\n</script>\n" else "")
        ++ "</body>\n</html>\n" := by
  intro frame markup before inside behind
  obtain ⟨hsourced, hscripts⟩ := isSourced_ofOrigins limits origins
  have hdocument : Document policy 512 markup.text.toList := by
    rw [toList_sanitize]
    exact isCanonical_sanitizeChars policy input.toList
  have hbefore : before = frame.openingTokens.filter (·.isTag) := by
    have hopening := tags_opening hsourced []
    rwa [List.append_nil, tags_nil, List.append_nil] at hopening
  have hbehind : behind = .endTag "div".toList :: ((if limits.allowScripts then scriptTags else [])
      ++ [.endTag "body".toList, .endTag "html".toList]) := hscripts ▸ tags_closing frame
  have hstays := hdocument.staysInside
  refine ⟨rfl, ?_, ?_, ?_, hstays.inside outer, hstays.closed outer, ?_, ?_,
    fun t ht name hname => (hdocument.isTag_of_mem_tags t ht name hname).notStripped, ?_, ?_⟩
  · rw [hbefore, document, String.toList_append, String.toList_append, List.append_assoc,
      tags_opening hsourced, hdocument.tags_append, List.append_assoc]
  · rw [hbefore]
    rfl
  · rw [hbefore]
    exact opened?_openingTokens frame
  · rw [hbehind]
    rfl
  · rw [hbehind]
    cases limits.allowScripts with
    | true => decide +kernel
    | false => decide +kernel
  · rw [List.filter_append, List.filter_append, hbefore, filter_isStartOf_openingTokens,
      filter_isStartOf_tags hdocument, hbehind]
    cases limits.allowScripts with
    | true => decide +kernel
    | false => decide +kernel
  · rw [closing, hscripts]

end SafePreview.Frame
