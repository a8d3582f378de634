import Mathlib.Data.List.Induction
import Mathlib.Order.Bounds.Basic
import SafePreview.Proofs.Session.Lifecycle

/-!
# What a session remembers of acknowledgements

A session remembers one revision, the highest that was acknowledged. The context may acknowledge in
any order, twice, and what it was never sent, and contents go on being sent in between. What ought
to count is said of the history alone: a revision is acknowledged at a point at which the session is
ready (`AcknowledgedAt`), and it counts if it was sent by then (`Sent`).

In a session that is ready the revisions that were sent are those from 1 up to the next one
(`sent_iff`), as the books have it. The session compares with the next one only, so its guard is
exact above and open below: the revision 0, which is never sent, counts as well. It is lower than
all others, so it is remembered only as long as nothing else is (`history_remembers_highest`).
-/

namespace SafePreview

open Markup (SafeMarkup)

namespace Session

/-! ## The highest of what counts -/

/-- **The highest of a set of revisions**, or nothing if the set is empty. -/
def Highest (revisions : Set Nat) : Option Nat → Prop
  | none => revisions = ∅
  | some revision => IsGreatest revisions revision

section Highest

variable {revisions : Set Nat} {acknowledged : Option Nat}

/-- There is one highest only. -/
theorem Highest.eq_some_iff (h : Highest revisions acknowledged) (revision : Nat) :
    acknowledged = some revision ↔ IsGreatest revisions revision := by
  cases acknowledged with
  | none =>
    have hempty : revisions = ∅ := h
    refine ⟨nofun, fun hgreatest => absurd hgreatest.1 ?_⟩
    rw [hempty]
    exact Set.notMem_empty revision
  | some highest =>
    have hhighest : IsGreatest revisions highest := h
    rw [Option.some_inj]
    exact ⟨fun heq => heq ▸ hhighest, hhighest.unique⟩

/-- Where nothing is the highest there is nothing. -/
theorem Highest.eq_none_iff (h : Highest revisions acknowledged) :
    acknowledged = none ↔ revisions = ∅ := by
  cases acknowledged with
  | none => exact iff_of_true rfl h
  | some highest =>
    have hhighest : IsGreatest revisions highest := h
    exact iff_of_false (Option.some_ne_none _) hhighest.nonempty.ne_empty

/-- **To raise the highest by a revision is to add it.** -/
theorem Highest.raise (h : Highest revisions acknowledged) (revision : Nat) :
    Highest (insert revision revisions) (raise acknowledged revision) := by
  cases acknowledged with
  | none =>
    have hempty : revisions = ∅ := h
    rw [hempty, insert_empty_eq]
    exact isGreatest_singleton
  | some highest =>
    have hhighest : IsGreatest revisions highest := h
    have hmax : IsGreatest (insert revision revisions) (max revision highest) := hhighest.insert _
    unfold Session.raise
    dsimp only
    split
    · rename_i hlt
      rwa [max_eq_left (Nat.le_of_lt hlt)] at hmax
    · rename_i hnot
      rwa [max_eq_right (Nat.le_of_not_lt hnot)] at hmax

end Highest

/-! ## What counts -/

/-- **A revision was sent by the end of a history**: it was put in the outbox. -/
def Sent (ops : List Operation) (revision : Nat) : Prop :=
  ∃ markup, .update revision markup ∈ drained (new.history ops).1 ++ (new.history ops).2.outbox

/-- **A revision is acknowledged at a point of a history**: what comes before the point leaves the
session ready, and the acknowledgement is what comes next. -/
def AcknowledgedAt (ops before : List Operation) (revision : Nat) : Prop :=
  (new.history before).2.phase = .ready
    ∧ ∃ after, ops = before ++ .receive (.acknowledge revision) :: after

/-- The revisions that are acknowledged, sent or not. -/
def acknowledgements (ops : List Operation) : Set Nat :=
  {revision | ∃ before, AcknowledgedAt ops before revision}

/-- **The revisions that are acknowledged after they were sent.** -/
def confirmed (ops : List Operation) : Set Nat :=
  {revision | ∃ before, AcknowledgedAt ops before revision ∧ Sent before revision}

/-- What a session counts as acknowledged: these and the revision 0. -/
def counted (ops : List Operation) : Set Nat :=
  {revision | ∃ before, AcknowledgedAt ops before revision ∧ (revision = 0 ∨ Sent before revision)}

/-- A history is gone through to its last operation. -/
theorem reached_concat (s : Session) (ops : List Operation) (op : Operation) :
    (s.history (ops ++ [op])).2 = ((s.history ops).2.perform op).2 := by
  induction ops generalizing s with
  | nil => rfl
  | cons first ops ih => exact ih (s.perform first).2

/-- The points of a longer history are those of the shorter one and its end. -/
theorem acknowledgedAt_concat {ops before : List Operation} {op : Operation} {revision : Nat} :
    AcknowledgedAt (ops ++ [op]) before revision ↔ AcknowledgedAt ops before revision ∨
      (before = ops ∧ (new.history ops).2.phase = .ready
        ∧ op = .receive (.acknowledge revision)) := by
  constructor
  · rintro ⟨hphase, after, hops⟩
    rcases List.eq_nil_or_concat after with rfl | ⟨rest, last, rfl⟩
    · obtain ⟨rfl, hop⟩ := List.append_inj' hops rfl
      exact .inr ⟨rfl, hphase, List.singleton_inj.1 hop⟩
    · rw [List.concat_eq_append, ← List.cons_append, ← List.append_assoc] at hops
      exact .inl ⟨hphase, rest, (List.append_inj' hops rfl).1⟩
  · rintro (⟨hphase, after, hops⟩ | ⟨rfl, hphase, rfl⟩)
    · exact ⟨hphase, after ++ [op], by rw [hops, List.append_assoc, List.cons_append]⟩
    · exact ⟨hphase, [], rfl⟩

/-- **One operation more counts what it acknowledges**, if the session is ready for that. -/
theorem mem_counted_concat {ops : List Operation} {op : Operation} {revision : Nat} :
    revision ∈ counted (ops ++ [op]) ↔ revision ∈ counted ops ∨
      ((new.history ops).2.phase = .ready ∧ op = .receive (.acknowledge revision)
        ∧ (revision = 0 ∨ Sent ops revision)) := by
  constructor
  · rintro ⟨before, hat, hcounts⟩
    rcases acknowledgedAt_concat.1 hat with hat | ⟨rfl, hphase, hop⟩
    · exact .inl ⟨before, hat, hcounts⟩
    · exact .inr ⟨hphase, hop, hcounts⟩
  · rintro (⟨before, hat, hcounts⟩ | ⟨hphase, hop, hcounts⟩)
    · exact ⟨before, acknowledgedAt_concat.2 (.inl hat), hcounts⟩
    · exact ⟨ops, acknowledgedAt_concat.2 (.inr ⟨rfl, hphase, hop⟩), hcounts⟩

/-! ## What was sent -/

/-- The revisions in the whole sequence for the context are those from 1 on. -/
theorem exists_mem_sequence_iff (contents : List SafeMarkup) (revision : Nat) :
    (∃ markup, HostMessage.update revision markup ∈ sequence contents)
      ↔ 0 < revision ∧ revision ≤ contents.length := by
  constructor
  · rintro ⟨markup, hmem⟩
    rcases List.mem_cons.1 hmem with heq | hmem
    · cases heq
    · obtain ⟨i, hi, heq⟩ := List.mem_mapIdx.1 hmem
      cases heq
      exact ⟨Nat.succ_pos i, hi⟩
  · rintro ⟨hpos, hle⟩
    have hi : revision - 1 < contents.length := by omega
    refine ⟨contents[revision - 1], List.mem_cons_of_mem _ (List.mem_mapIdx.2 ⟨_, hi, ?_⟩)⟩
    rw [Nat.sub_add_cancel hpos]

/-- The revision 0 is never sent. -/
theorem not_sent_zero (ops : List Operation) : ¬ Sent ops 0 := by
  rintro ⟨markup, hmem⟩
  have hsequence := (ledger_history ops).prefix_sequence.subset hmem
  exact absurd ((exists_mem_sequence_iff _ 0).1 ⟨markup, hsequence⟩).1 (Nat.lt_irrefl 0)

/-- **A session that is ready has sent the revisions from 1 up to the next one.** -/
theorem sent_iff {ops : List Operation} (hphase : (new.history ops).2.phase = .ready)
    (revision : Nat) :
    Sent ops revision ↔ 0 < revision ∧ revision < (new.history ops).2.nextRevision := by
  have hledger := ledger_history ops
  cases hledger with
  | ready _ flow _ next _ =>
    rw [Sent, flow, exists_mem_sequence_iff, next, Nat.lt_succ_iff]
  | uninitialized phase | handshaking phase | closed phase =>
    exact absurd (hphase.symm.trans phase) (by decide)

/-- What a session that is ready counts is what is lower than its next revision. -/
theorem zero_or_sent_iff {ops : List Operation} (hphase : (new.history ops).2.phase = .ready)
    (revision : Nat) :
    revision = 0 ∨ Sent ops revision ↔ revision < (new.history ops).2.nextRevision := by
  have hpos : 0 < (new.history ops).2.nextRevision := by
    rw [(ledger_history ops).nextRevision_eq (by rw [hphase]; decide)]
    exact Nat.succ_pos _
  rw [sent_iff hphase]
  omega

/-! ## What is remembered -/

/-- **What an operation makes of the acknowledgement that is remembered**: it stays, unless the
session is ready and one of a revision arrives that was given out. -/
theorem acknowledged_perform {s : Session} (hsent : s.phase = .closed → s.outbox = [])
    (op : Operation) :
    (s.perform op).2.acknowledged = match op with
      | .receive (.acknowledge revision) =>
        if s.phase = .ready ∧ revision < s.nextRevision then raise s.acknowledged revision
        else s.acknowledged
      | _ => s.acknowledged := by
  by_cases hopen : s.phase = .closed
  · rw [perform_of_shut hopen (hsent hopen) op]
    split
    · rw [if_neg (by rw [hopen]; exact fun h => nomatch h.1)]
    · rfl
  · have hdoes := does_perform hopen op
    generalize (s.perform op).1 = outcome, (s.perform op).2 = s' at hdoes ⊢
    cases hdoes with
    | acknowledges revision phase known => exact (if_pos ⟨phase, known⟩).symm
    | unknown revision phase beyond =>
      exact (if_neg fun h => Nat.not_le_of_lt h.2 beyond).symm
    | violates message phase =>
      cases message with
      | ready => rfl
      | acknowledge revision =>
        have hnot : s.phase ≠ .ready := by
          rcases phase with phase | ⟨phase, -⟩ <;> rw [phase] <;> decide
        exact (if_neg fun h => hnot h.1).symm
    | begins | refuses | delivers | queues | answers | repeats | expires | waits | closes
    | takes => rfl

/-- **What it makes of the revisions that count** is the same. -/
theorem counted_concat (ops : List Operation) (op : Operation) :
    counted (ops ++ [op]) = match op with
      | .receive (.acknowledge revision) =>
        if (new.history ops).2.phase = .ready ∧ revision < (new.history ops).2.nextRevision then
          insert revision (counted ops)
        else counted ops
      | _ => counted ops := by
  ext other
  rw [mem_counted_concat]
  split
  · rename_i revision
    have hnew : (new.history ops).2.phase = .ready
        ∧ Operation.receive (.acknowledge revision) = .receive (.acknowledge other)
        ∧ (other = 0 ∨ Sent ops other) ↔ other = revision ∧
          ((new.history ops).2.phase = .ready ∧ revision < (new.history ops).2.nextRevision) := by
      constructor
      · rintro ⟨hphase, hop, hcounts⟩
        cases hop
        exact ⟨rfl, hphase, (zero_or_sent_iff hphase other).1 hcounts⟩
      · rintro ⟨rfl, hphase, hlt⟩
        exact ⟨hphase, rfl, (zero_or_sent_iff hphase other).2 hlt⟩
    rw [hnew]
    split
    · rename_i hcounts
      rw [and_iff_left hcounts, Set.mem_insert_iff, or_comm]
    · rename_i hnot
      exact or_iff_left fun h => hnot h.2
  · rename_i hother
    exact or_iff_left fun h => hother other h.2.1

/-- **A session remembers the highest of what it counts.** -/
theorem highest_counted (ops : List Operation) :
    Highest (counted ops) (new.history ops).2.acknowledged := by
  induction ops using List.reverseRecOn with
  | nil =>
    refine Set.eq_empty_iff_forall_notMem.2 fun revision => ?_
    rintro ⟨before, ⟨-, after, hops⟩, -⟩
    exact List.append_ne_nil_of_right_ne_nil before (List.cons_ne_nil _ after) hops.symm
  | append_singleton ops op ih =>
    rw [reached_concat, acknowledged_perform (ledger_history ops).outbox_of_closed, counted_concat]
    split
    · rename_i revision
      split
      · exact ih.raise revision
      · exact ih
    · exact ih

/-! ## The revision that is never sent -/

/-- What counts is what was confirmed, and the revision 0 if it was acknowledged. -/
theorem mem_counted_iff {ops : List Operation} {revision : Nat} :
    revision ∈ counted ops
      ↔ revision ∈ confirmed ops ∨ (revision = 0 ∧ 0 ∈ acknowledgements ops) := by
  constructor
  · rintro ⟨before, hat, rfl | hsent⟩
    · exact .inr ⟨rfl, before, hat⟩
    · exact .inl ⟨before, hat, hsent⟩
  · rintro (⟨before, hat, hsent⟩ | ⟨rfl, before, hat⟩)
    · exact ⟨before, hat, .inr hsent⟩
    · exact ⟨before, hat, .inl rfl⟩

theorem zero_notMem_confirmed (ops : List Operation) : 0 ∉ confirmed ops :=
  fun ⟨before, _, hsent⟩ => not_sent_zero before hsent

/-- Above 0 only what was confirmed counts, -/
theorem isGreatest_counted_iff {ops : List Operation} {revision : Nat} (h : 0 < revision) :
    IsGreatest (counted ops) revision ↔ IsGreatest (confirmed ops) revision := by
  constructor
  · rintro ⟨hmem, hupper⟩
    refine ⟨(mem_counted_iff.1 hmem).resolve_right fun hzero => h.ne' hzero.1, ?_⟩
    exact fun other hother => hupper (mem_counted_iff.2 (.inl hother))
  · rintro ⟨hmem, hupper⟩
    refine ⟨mem_counted_iff.2 (.inl hmem), fun other hother => ?_⟩
    rcases mem_counted_iff.1 hother with hconfirmed | ⟨rfl, -⟩
    · exact hupper hconfirmed
    · exact Nat.zero_le revision

/-- and 0 is the highest only where nothing was confirmed. -/
theorem isGreatest_counted_zero_iff {ops : List Operation} :
    IsGreatest (counted ops) 0 ↔ confirmed ops = ∅ ∧ 0 ∈ acknowledgements ops := by
  constructor
  · rintro ⟨hmem, hupper⟩
    refine ⟨Set.eq_empty_iff_forall_notMem.2 fun other hother => ?_, ?_⟩
    · have hzero : other = 0 := Nat.le_zero.1 (hupper (mem_counted_iff.2 (.inl hother)))
      exact zero_notMem_confirmed ops (hzero ▸ hother)
    · exact ((mem_counted_iff.1 hmem).resolve_left (zero_notMem_confirmed ops)).2
  · rintro ⟨hempty, hzero⟩
    refine ⟨mem_counted_iff.2 (.inr ⟨rfl, hzero⟩), fun other hother => ?_⟩
    rcases mem_counted_iff.1 hother with hconfirmed | ⟨rfl, -⟩
    · exact absurd hconfirmed (hempty ▸ Set.notMem_empty other)
    · exact Nat.le_refl 0

theorem counted_eq_empty_iff {ops : List Operation} :
    counted ops = ∅ ↔ confirmed ops = ∅ ∧ 0 ∉ acknowledgements ops := by
  simp only [Set.eq_empty_iff_forall_notMem, mem_counted_iff, not_or, not_and, forall_and,
    forall_eq]

/-- To raise by 0 makes a difference only where there is nothing yet. -/
theorem raise_zero (before : Option Nat) :
    raise before 0 = if before = none then some 0 else before := by
  cases before with
  | none => rfl
  | some last => rw [raise, if_neg (Nat.not_lt_zero last), if_neg (Option.some_ne_none last)]

/-- **An acknowledgement of what was never sent changes nothing**, but for the first one of 0. -/
theorem acknowledged_of_not_sent {ops : List Operation} {revision : Nat}
    (h : ¬ Sent ops revision) :
    ((new.history ops).2.perform (.receive (.acknowledge revision))).2.acknowledged
      = if revision = 0 ∧ (new.history ops).2.phase = .ready
          ∧ (new.history ops).2.acknowledged = none then some 0
        else (new.history ops).2.acknowledged := by
  have hledger := ledger_history ops
  generalize hs : (new.history ops).2 = s at *
  rw [acknowledged_perform hledger.outbox_of_closed]
  dsimp only
  by_cases hcounts : s.phase = .ready ∧ revision < s.nextRevision
  · have hzero : revision = 0 := by
      subst hs
      exact ((zero_or_sent_iff hcounts.1 revision).2 hcounts.2).resolve_right h
    rw [if_pos hcounts, hzero, raise_zero]
    simp only [hcounts.1, true_and]
  · rw [if_neg hcounts, if_neg]
    rintro ⟨rfl, hphase, -⟩
    subst hs
    exact hcounts ⟨hphase, (zero_or_sent_iff hphase 0).1 (.inl rfl)⟩

/-- **What a session remembers of acknowledgements.** After every history it is the highest of the
revisions that were acknowledged while the session was ready and after they were sent, if there are
any. If there are none, it is 0 where that was acknowledged while the session was ready, and else
nothing. An acknowledgement of a revision that was never sent changes nothing, but for one: that of
0, where the session is ready and remembers nothing yet. -/
theorem history_remembers_highest (ops : List Operation) :
    let s := (new.history ops).2
    (∀ revision, 0 < revision →
      (s.acknowledged = some revision ↔ IsGreatest (confirmed ops) revision)) ∧
    (s.acknowledged = some 0 ↔ confirmed ops = ∅ ∧ 0 ∈ acknowledgements ops) ∧
    (s.acknowledged = none ↔ confirmed ops = ∅ ∧ 0 ∉ acknowledgements ops) ∧
    ∀ revision, ¬ Sent ops revision →
      (s.perform (.receive (.acknowledge revision))).2.acknowledged
        = if revision = 0 ∧ s.phase = .ready ∧ s.acknowledged = none then some 0
          else s.acknowledged := by
  intro s
  have hhighest := highest_counted ops
  refine ⟨fun revision hpos => ?_, ?_, ?_, fun revision hunsent => ?_⟩
  · rw [hhighest.eq_some_iff, isGreatest_counted_iff hpos]
  · rw [hhighest.eq_some_iff, isGreatest_counted_zero_iff]
  · rw [hhighest.eq_none_iff, counted_eq_empty_iff]
  · exact acknowledged_of_not_sent hunsent

/-- Two contents that are acknowledged out of order, and then a revision that was never sent. -/
theorem history_remembers_second :
    let content := Markup.sanitize .preview "content"
    let ops : List Operation :=
      [.contextCreated, .receive .ready, .update content, .update content,
        .receive (.acknowledge 2), .receive (.acknowledge 1)]
    0 < 2 ∧ IsGreatest (confirmed ops) 2 ∧ ¬ Sent ops 99 ∧
      ((new.history ops).2.perform (.receive (.acknowledge 99))).2.acknowledged = some 2 := by
  intro content ops
  obtain ⟨hpositive, -, -, hunsent⟩ := history_remembers_highest ops
  have hsecond : (new.history ops).2.acknowledged = some 2 := by decide
  have hnever : ¬ Sent ops 99 := by
    rw [sent_iff (by decide)]
    decide
  exact ⟨by decide, (hpositive 2 (by decide)).1 hsecond, hnever, (hunsent 99 hnever).trans hsecond⟩

/-! ### A revision that was never sent

A context that acknowledges 0 is believed, though nothing was sent to it but the handshake. -/

/-- Nothing was sent that this history could confirm. -/
def earlyZero : List Operation :=
  [.contextCreated, .receive .ready, .receive (.acknowledge 0)]

/-- **What is remembered is not always a revision that was sent.** -/
theorem not_forall_acknowledged_isGreatest :
    ¬ ∀ (ops : List Operation) (revision : Nat),
      (new.history ops).2.acknowledged = some revision ↔ IsGreatest (confirmed ops) revision := by
  intro h
  have hzero : (new.history earlyZero).2.acknowledged = some 0 := by decide
  exact zero_notMem_confirmed earlyZero ((h earlyZero 0).1 hzero).1

end Session

end SafePreview
