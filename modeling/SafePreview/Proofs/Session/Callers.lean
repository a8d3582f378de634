import SafePreview.Proofs.Session.Mailbox

/-!
# What becomes of those who ask

In one pulse either some of those who ask for a content are refused, or one of them goes away, or
the one whose command is obeyed is given a receipt, or nothing is told to any of them
(`pulse_handles`); whoever is told something waits no more, and no content is made up on the way.
All of it is read off the course that a pulse takes (`Link.Course`).

A content that was refused leaves no trace: where one is refused the session is closed, and nothing
is done to it (`Link.Course.exists_refusal`).
-/

namespace SafePreview

open Markup (SafeMarkup)

namespace Link

/-- Where there are no effects nobody is told anything. -/
theorem not_answered {told : Nat → Answer → Prop} (caller : Nat) (answer : Answer)
    (h : Effect.answered caller answer ∈ ([] : List Effect)) : told caller answer :=
  absurd h List.not_mem_nil

variable [Channels]

/-- **What a pulse did for those who ask.** -/
inductive Handles (l : Link) (p : Pulse) (happened : Link × List Effect) : Prop
  /-- Some were refused or went away, or none, and nobody was told anything else. -/
  | refuses (gone : List (Nat × SafeMarkup))
      (asking : (l.asking ++ p.asks).Perm (gone ++ happened.1.asking))
      (others : happened.1.others ⊆ l.others ++ p.others)
      (answered : ∀ caller answer, .answered caller answer ∈ happened.2 →
        (answer = .refused ∧ caller ∈ gone.map (·.1)) ∨ caller ∈ l.others ++ p.others)
      (accepted : accepted happened.2 = [])
  /-- One was given a receipt by the open session. -/
  | accepts (caller : Nat) (markup : SafeMarkup) (receipt : Receipt)
      (asking : (l.asking ++ p.asks).Perm ((caller, markup) :: happened.1.asking))
      (others : happened.1.others ⊆ l.others ++ p.others)
      (effects : happened.2 = [.accepted receipt markup, .answered caller (.receipt receipt)])
      (isOpen : l.session.phase ≠ .closed)
      (revision : receipt.revision = l.session.nextRevision)

variable {l l' : Link} {p : Pulse} {effects : List Effect}

/-- Where nobody who asks for a content is told anything, all of them still ask. -/
theorem handles_of_asking (hasking : (l.asking ++ p.asks).Perm l'.asking)
    (hothers : l'.others ⊆ l.others ++ p.others) {effects : List Effect}
    (hanswered : ∀ caller answer, .answered caller answer ∈ effects →
      caller ∈ l.others ++ p.others)
    (haccepted : accepted effects = []) : l.Handles p (l', effects) :=
  .refuses [] hasking hothers (fun caller answer h => .inr (hanswered caller answer h)) haccepted

/-- A keeper that stops answers those whose commands are in the channel, and the others. -/
theorem answered_stop {caller : Nat} {answer : Answer}
    (h : Effect.answered caller answer ∈ l.stop.2) :
    (answer = .refused ∧ ∃ markup, .update caller markup ∈ l.commands.toList)
      ∨ caller ∈ l.others := by
  rw [stop, farewell, List.mem_append, List.mem_append] at h
  rcases h with (hqueued | hwaiting) | hsender
  · obtain ⟨command, hmem, heffect⟩ := List.mem_filterMap.1 hqueued
    cases command with
    | update caller markup =>
      cases heffect
      exact .inl ⟨rfl, markup, List.mem_append_left _ hmem⟩
    | close caller => cases heffect
  · obtain ⟨command, hmem, heffect⟩ := List.mem_map.1 hwaiting
    cases command with
    | update caller markup =>
      cases heffect
      exact .inl ⟨rfl, markup, List.mem_append_right _ hmem⟩
    | close caller =>
      cases heffect
      exact .inr (mem_others.2 (.inl (List.mem_append_right _ hmem)))
  · obtain ⟨⟨sender, message⟩, hmem, heffect⟩ := List.mem_map.1 hsender
    cases heffect
    exact .inr (mem_others.2 (.inr ⟨message, List.mem_append_right _ hmem⟩))

/-- **A keeper that stops** refuses those whose commands are in the channel. -/
theorem stop_handles (l : Link) (hasks : p.asks = []) : l.Handles p l.stop := by
  refine .refuses (l.commands.toList.filterMap Command.ask?) ?_ ?_ ?_ (isQuiet_stop l).2
  · rw [hasks, List.append_nil, asking_stop]
    rfl
  · exact l.others_stop ▸ List.nil_subset _
  · intro caller answer hanswered
    rcases answered_stop hanswered with ⟨rfl, markup, hmem⟩ | hother
    · exact .inl ⟨rfl, List.mem_map.2 ⟨_, List.mem_filterMap.2 ⟨_, hmem, rfl⟩, rfl⟩⟩
    · exact .inr (List.mem_append_left _ hother)

/-! ## What each course is for those who ask -/

/-- No course makes up anyone who may be answered. -/
theorem Course.others_subset (h : l.Course p l' effects) : l'.others ⊆ l.others ++ p.others := by
  have htail {command : Command} (hcommands : l.commands.toList = command :: l'.commands.toList)
      (hinbound : l'.inbound = l.inbound) : l'.others ⊆ l.others ++ p.others := by
    intro other hother
    rw [mem_others, hinbound] at hother
    refine List.mem_append_left _ (mem_others.2 ?_)
    rw [hcommands]
    exact hother.imp_left (List.mem_cons_of_mem _)
  cases h with
  | passes _ _ _ _ others => exact others
  | finds caller markup _ link => exact link ▸ List.subset_append_left _ _
  | posts caller markup _ _ commands inbound =>
    intro other hother
    rw [mem_others, commands, inbound, List.mem_append, List.mem_singleton] at hother
    rcases hother with (hbefore | hcommand) | hinbound
    · exact List.mem_append_left _ (mem_others.2 (.inl hbefore))
    · cases hcommand
    · exact List.mem_append_left _ (mem_others.2 (.inr hinbound))
  | refuses caller markup _ _ commands inbound =>
    have hkept : l'.others = l.others := by rw [Link.others, Link.others, commands, inbound]
    exact hkept ▸ List.subset_append_left _ _
  | vanishes caller _ link =>
    exact link ▸ fun _ hother => List.mem_append_left _ (l.others_vanish caller hother)
  | takes caller markup receipt commands _ inbound => exact htail commands inbound
  | closes caller commands _ inbound => exact htail commands inbound
  | stops _ _ link =>
    rw [link, others_stop]
    exact List.nil_subset _

/-- **Each course in terms of those who ask.** -/
theorem Course.handles (h : l.Course p l' effects) : l.Handles p (l', effects) := by
  have hothers := h.others_subset
  cases h with
  | passes closers quiet commands calls _ asks _ accepted _ answered =>
    refine handles_of_asking (.of_eq ?_) hothers answered accepted
    rw [asks, asking, asking, commands, calls, List.filterMap_append, quiet, List.append_nil,
      List.append_nil]
  | finds caller markup pulse link effects =>
    subst pulse link effects
    exact handles_of_asking (.of_eq (List.append_assoc _ _ _)) hothers not_answered rfl
  | posts caller markup pulse calls commands _ _ effects =>
    subst pulse effects
    refine handles_of_asking ?_ hothers not_answered rfl
    show (l.asking ++ []).Perm _
    rw [List.append_nil, asking, asking, commands, List.filterMap_append, List.append_assoc]
    exact calls.append_left _
  | refuses caller markup _ calls commands _ _ effects =>
    subst effects
    refine .refuses [(caller, markup)] ?_ hothers ?_ rfl
    · rw [asking, asking, commands, List.append_assoc]
      exact (calls.append_left _).trans List.perm_middle
    · intro other answer hanswered
      cases List.mem_singleton.1 hanswered
      exact .inl ⟨rfl, List.mem_singleton_self _⟩
  | vanishes caller pulse link effects =>
    subst pulse link effects
    obtain ⟨left, hasking, -⟩ := l.asking_vanish caller
    exact .refuses left ((List.append_nil l.asking).symm ▸ hasking) hothers not_answered rfl
  | takes caller markup receipt commands calls _ asks _ isOpen revision _ effects =>
    refine .accepts caller markup receipt (.of_eq ?_) hothers effects isOpen revision
    rw [asks, List.append_nil, asking, asking, commands, calls]
    rfl
  | closes caller commands calls _ asks _ _ _ effects =>
    subst effects
    refine handles_of_asking (.of_eq ?_) hothers not_answered rfl
    rw [asks, List.append_nil, asking, asking, commands, calls]
    rfl
  | stops pulse _ link effects =>
    subst link effects
    rcases pulse with rfl | rfl
    · exact l.stop_handles rfl
    · exact l.stop_handles rfl

/-- **What a pulse does for those who ask.** -/
theorem pulse_handles (l : Link) (p : Pulse) : l.Handles p (l.pulse p) := (l.pulse_course p).handles

/-! ## Refusals -/

/-- A refusal is of a content that was asked for, and comes after the close. -/
theorem Refusal.mem_asking {caller : Nat} {markup : SafeMarkup}
    (h : l.Refusal p caller markup) : (caller, markup) ∈ l.asking ++ p.asks := by
  cases h with
  | published pulse => exact pulse ▸ List.mem_append_right _ (List.mem_singleton_self _)
  | mailbox _ found => exact List.mem_append_left _ (List.mem_append_right _ found)
  | left _ command =>
    exact List.mem_append_left _ (List.mem_append_left _ (List.mem_filterMap.2 ⟨_, command, rfl⟩))

theorem Refusal.closed {caller : Nat} {markup : SafeMarkup} (h : l.Refusal p caller markup)
    (htruth : l.IsTruthful) : l.session.phase = .closed := by
  cases h with
  | published _ status => exact htruth.status status
  | mailbox _ _ stopped => exact htruth.stopped stopped
  | left _ _ closed => exact closed

/-- **Whoever is refused is so in one of three ways**, and nothing happens to the session. -/
theorem Course.exists_refusal (h : l.Course p l' effects) {caller : Nat}
    (hother : caller ∉ l.others ++ p.others) (hrefused : .answered caller .refused ∈ effects) :
    ∃ markup, l.Refusal p caller markup ∧ l.Undisturbed l' ∧ accepted effects = [] := by
  cases h with
  | passes _ _ _ _ _ _ _ _ _ answered => exact absurd (answered _ _ hrefused) hother
  | finds _ _ _ _ effects | posts _ _ _ _ _ _ _ effects | closes _ _ _ _ _ _ _ _ effects =>
    rw [effects] at hrefused
    exact absurd hrefused List.not_mem_nil
  | vanishes _ _ _ effects =>
    rw [effects] at hrefused
    exact absurd hrefused List.not_mem_nil
  | refuses other markup refusal _ _ _ unmoved effects =>
    rw [effects] at hrefused ⊢
    cases List.mem_singleton.1 hrefused
    exact ⟨markup, refusal, unmoved, rfl⟩
  | takes other markup receipt _ _ _ _ _ _ _ _ effects =>
    rw [effects] at hrefused
    simp at hrefused
  | stops pulse closed link effects =>
    subst link effects
    rcases answered_stop hrefused with ⟨-, markup, hmem⟩ | hamong
    · exact ⟨markup, .left pulse hmem closed, ⟨rfl, rfl, rfl, List.prefix_rfl⟩,
        (isQuiet_stop l).2⟩
    · exact absurd (List.mem_append_left _ hamong) hother

end Link

end SafePreview
