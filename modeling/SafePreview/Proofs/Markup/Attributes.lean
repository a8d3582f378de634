import SafePreview.Proofs.Markup.FixedPoint
import SafePreview.Proofs.Markup.Newlines

/-!
# An attribute that is left out is missed

Of the attributes of a tag the writer leaves out some and writes their line feeds behind the tag.
Those never make up for it: an attribute is longer than the line feeds in its value, so where one is
left out the tag is shorter than it would have been with it (`length_attributes`). In the account
each of them is missing too (`removedAttributes_attributes`). Whether all attributes of a tag are
kept can therefore be told from its text alone, and from the account alone.
-/

namespace SafePreview.Markup

/-- **An attribute has more characters than its value has line feeds.** -/
theorem newlines_lt_length_writeAttribute (a : Attribute) :
    Text.newlines a.value < (writeAttribute a).length := by
  have hvalue : Text.newlines a.value ≤ (escapeValue a.value).length := by
    rw [← newlines_escapeValue]
    exact List.count_le_length
  simp only [writeAttribute, List.length_append, List.length_cons]
  omega

namespace Writer

variable {policy : Policy} {seen : List (List Char)} {as : List Attribute}

/-- What stays is there in the same order. -/
theorem kept_sublist (policy : Policy) (seen : List (List Char)) (as : List Attribute) :
    (kept policy seen as).Sublist as := by
  induction as generalizing seen with
  | nil => exact .slnil
  | cons a rest ih =>
    rw [kept]
    split
    · exact (ih seen).cons a
    · split
      · exact (ih _).cons_cons a
      · exact (ih _).cons a

/-- **Each attribute that is left out makes the tag shorter**, by one character at least. -/
theorem length_attributes (policy : Policy) (seen : List (List Char)) (report : Report)
    (as : List Attribute) :
    (attributes policy seen report as).written.length
        + (attributes policy seen report as).droppedNewlines + as.length
      ≤ (as.flatMap writeAttribute).length + (kept policy seen as).length := by
  induction as generalizing seen report with
  | nil => exact Nat.le_refl _
  | cons a rest ih =>
    have hlonger := newlines_lt_length_writeAttribute a
    rw [attributes, kept, List.flatMap_cons, List.length_append, List.length_cons]
    by_cases hseen : a.name ∈ seen
    · have hrest := ih seen report
      rw [if_pos hseen, if_pos (List.contains_iff_mem.2 hseen)]
      simp only
      omega
    · rw [if_neg hseen, if_neg (mt List.contains_iff_mem.1 hseen)]
      split
      · rename_i hjudge
        have hrest := ih (a.name :: seen) report
        rw [if_pos hjudge]
        simp only [List.length_append, List.length_cons]
        omega
      · rename_i hjudge
        have hrest := ih (a.name :: seen) (report.removeAttribute (policy.judge a))
        rw [if_neg hjudge]
        simp only
        omega

/-- **Each attribute that is left out is in the account**, where no name is there twice. -/
theorem removedAttributes_attributes (policy : Policy) (seen : List (List Char)) (report : Report)
    (hnodup : (as.map (·.name)).Nodup)
    (hseen : ∀ a ∈ as, a.name ∉ seen) :
    (attributes policy seen report as).report.removedAttributes + (kept policy seen as).length
      = report.removedAttributes + as.length := by
  induction as generalizing seen report with
  | nil => rfl
  | cons a rest ih =>
    obtain ⟨ha, hnodup⟩ := List.nodup_cons.1 hnodup
    obtain ⟨hfirst, hseen⟩ := List.forall_mem_cons.1 hseen
    have hrest (report : Report) := ih (a.name :: seen) report hnodup fun b hb =>
      List.not_mem_cons_of_ne_of_not_mem (fun he => ha (List.mem_map.2 ⟨b, hb, he⟩)) (hseen b hb)
    rw [attributes, kept, if_neg hfirst, if_neg (mt List.contains_iff_mem.1 hfirst),
      List.length_cons]
    split
    · rename_i hjudge
      have hcount := hrest report
      rw [if_pos hjudge]
      simp only [List.length_cons]
      omega
    · rename_i hjudge
      have hcount := hrest (report.removeAttribute (policy.judge a))
      have hone : (report.removeAttribute (policy.judge a)).removedAttributes
          = report.removedAttributes + 1 := rfl
      rw [if_neg hjudge]
      simp only
      omega

/-- **All attributes stay exactly if as many stay as there are.** -/
theorem length_kept_eq_iff (hnodup : (as.map (·.name)).Nodup) :
    (kept policy [] as).length = as.length ↔ ∀ a ∈ as, policy.judge a = .kept := by
  constructor
  · intro hlength a ha
    rw [← (kept_sublist policy [] as).eq_of_length hlength] at ha
    exact (mem_kept ha).2.1
  · intro hkept
    have hcount := removedAttributes_attributes policy [] .clean hnodup fun _ _ => List.not_mem_nil
    rw [attributes_of_kept .clean hnodup (fun _ _ => List.not_mem_nil) hkept] at hcount
    exact Nat.add_left_cancel hcount

/-- **A tag without all of its attributes is shorter** than it would be with them, the line feeds
behind it included. -/
theorem length_attributes_lt (report : Report) (hnodup : (as.map (·.name)).Nodup)
    (hdropped : ¬ ∀ a ∈ as, policy.judge a = .kept) :
    (attributes policy [] report as).written.length
        + (attributes policy [] report as).droppedNewlines
      < (as.flatMap writeAttribute).length := by
  have hlength := length_attributes policy [] report as
  have hfewer := (kept_sublist policy [] as).length_le
  have hne := mt (length_kept_eq_iff hnodup).1 hdropped
  omega

end Writer

end SafePreview.Markup
