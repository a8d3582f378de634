import Mathlib.Logic.Relation
import SafePreview.Proofs.Session.History

/-!
# How a session comes to its end

A session goes one way, from its beginning to being ready, and from anywhere to the close, which is
for ever. All that an operation can do to an open session is said once (`Session.Does`); what is
said of every operation is then a case for each line of it. A closed session is left as it is by
every operation, and each has one answer for it (`Session.perform_of_shut`).

Two things are remembered over a whole life: why the session was closed, and the highest revision
that was acknowledged. `Session.Remembers` says what is known of them in every state, and
`Session.Onward` that they are never taken back. What waits and what is about to be sent is known
from the books (`Session.Ledger`), so nothing is proved of it again.
-/

namespace SafePreview

open Markup (SafeMarkup)

/-- **The step from one phase to the next**, or none. -/
inductive Phase.Next : Phase → Phase → Prop
  | stays (phase : Phase) : Next phase phase
  | begins : Next .uninitialized .handshaking
  | answers : Next .handshaking .ready
  | closes (phase : Phase) : Next phase .closed

namespace Session

/-! ## What an operation does -/

/-- The session closed for a reason, with all dropped that was not sent. -/
def shut (reason : CloseReason) (s : Session) : Session :=
  { s with phase := .closed, closeReason := some reason, pending := [], outbox := [] }

/-- To close an open session is to shut it. -/
theorem close_of_open {s : Session} (reason : CloseReason) (h : s.phase ≠ .closed) :
    s.close reason = s.shut reason := by
  unfold close
  rw [if_neg (by rwa [isClosed_iff])]
  rfl

/-- **What an operation does to an open session**: its outcome, and the session behind it. -/
inductive Does (s : Session) : Operation → Outcome → Session → Prop
  | begins (phase : s.phase = .uninitialized) :
    s.Does .contextCreated .done
      { s with phase := .handshaking, outbox := s.outbox ++ [.handshake] }
  /-- A context that exists cannot come to exist. -/
  | refuses (phase : s.phase ≠ .uninitialized) :
    s.Does .contextCreated (.refused (.unexpected "context_created" s.phase)) s
  | delivers (markup : SafeMarkup) (phase : s.phase = .ready) :
    s.Does (.update markup) (.accepted (.delivered s.nextRevision))
      { s with
        nextRevision := s.nextRevision + 1
        outbox := s.outbox ++ [.update s.nextRevision markup] }
  | queues (markup : SafeMarkup) (phase : s.phase ≠ .ready) :
    s.Does (.update markup) (.accepted (.queued s.nextRevision))
      { s with
        nextRevision := s.nextRevision + 1
        pending := s.pending ++ [.update s.nextRevision markup] }
  | answers (phase : s.phase = .handshaking) :
    s.Does (.receive .ready) .done
      { s with phase := .ready, outbox := s.outbox ++ s.pending, pending := [] }
  | repeats (phase : s.phase = .ready) : s.Does (.receive .ready) .done s
  /-- A revision that was not given out yet is no news. -/
  | unknown (revision : Nat) (phase : s.phase = .ready) (beyond : s.nextRevision ≤ revision) :
    s.Does (.receive (.acknowledge revision)) .done s
  | acknowledges (revision : Nat) (phase : s.phase = .ready) (known : revision < s.nextRevision) :
    s.Does (.receive (.acknowledge revision)) .done
      { s with acknowledged := raise s.acknowledged revision }
  /-- The context says what cannot be said yet. -/
  | violates (message : ContextMessage)
    (phase : s.phase = .uninitialized ∨ s.phase = .handshaking ∧ message ≠ .ready) :
    s.Does (.receive message) (.refused (.unexpected message.kind s.phase))
      (s.shut .protocolViolation)
  | expires (phase : s.phase = .handshaking) :
    s.Does .timeout (.changed true) (s.shut .handshakeTimeout)
  | waits (phase : s.phase ≠ .handshaking) : s.Does .timeout (.changed false) s
  | closes (reason : CloseReason) : s.Does (.close reason) (.changed true) (s.shut reason)
  | takes : s.Does .takeOutbox (.taken s.outbox) { s with outbox := [] }

/-- A message to an open session. -/
theorem does_receive {s : Session} (h : s.phase ≠ .closed) (message : ContextMessage) :
    s.Does (.receive message) (.ofUnit (s.receive message).1) (s.receive message).2 := by
  unfold receive
  split
  · rename_i hphase
    exact absurd hphase h
  · rename_i hphase
    exact .answers hphase
  · rename_i hphase
    exact .repeats hphase
  · rename_i revision hphase
    split
    · rename_i hbeyond
      exact .unknown revision hphase hbeyond
    · rename_i hknown
      exact .acknowledges revision hphase (Nat.lt_of_not_le hknown)
  · rename_i message _ _ _ hanswers hagain hacknowledges
    rw [close_of_open _ h]
    refine .violates message ?_
    -- the lines before this one leave only these phases
    cases hphase : s.phase with
    | uninitialized => exact .inl rfl
    | handshaking => exact .inr ⟨rfl, fun hmessage => hanswers hphase hmessage⟩
    | ready =>
      cases message with
      | ready => exact (hagain hphase rfl).elim
      | acknowledge revision => exact (hacknowledges revision hphase rfl).elim
    | closed => exact absurd hphase h

/-- **Every operation on an open session** does one of these things. -/
theorem does_perform {s : Session} (h : s.phase ≠ .closed) (op : Operation) :
    s.Does op (s.perform op).1 (s.perform op).2 := by
  cases op with
  | contextCreated =>
    rw [perform]
    unfold contextCreated
    split
    · rename_i hphase
      exact .begins hphase
    · rename_i hphase
      exact absurd hphase h
    · rename_i hnot _
      exact .refuses hnot
  | update markup =>
    rw [perform]
    by_cases hready : s.phase = .ready
    · rw [requestUpdate_of_ready markup hready]
      exact .delivers markup hready
    · rw [requestUpdate_of_waiting markup hready h]
      exact .queues markup hready
  | receive message => exact does_receive h message
  | timeout =>
    rw [perform]
    unfold handshakeTimedOut
    split
    · rename_i hphase
      rw [close_of_open _ h]
      exact .expires hphase
    · rename_i hphase
      exact .waits hphase
  | close reason =>
    have hopen : (!s.isClosed) = true := by
      rw [Bool.not_eq_true', Bool.eq_false_iff, Ne, isClosed_iff]
      exact h
    rw [perform, hopen, close_of_open _ h]
    exact .closes reason
  | takeOutbox => exact .takes

/-- **What a closed session answers.** -/
def Operation.vain : Operation → Outcome
  | .contextCreated | .update _ | .receive _ => .refused .closed
  | .timeout | .close _ => .changed false
  | .takeOutbox => .taken []

/-- **Every operation is in vain on a closed session** with nothing to send. -/
theorem perform_of_shut {s : Session} (hphase : s.phase = .closed) (houtbox : s.outbox = [])
    (op : Operation) : s.perform op = (op.vain, s) := by
  cases op with
  | contextCreated =>
    simp [perform, contextCreated_of_closed hphase, Outcome.ofUnit, Operation.vain]
  | update markup =>
    simp [perform, requestUpdate_of_closed markup hphase, Outcome.ofReceipt, Operation.vain]
  | receive message =>
    simp [perform, receive_of_closed message hphase, Outcome.ofUnit, Operation.vain]
  | timeout => simp [perform, handshakeTimedOut_of_closed hphase, Operation.vain]
  | close reason =>
    simp [perform, close_of_closed reason hphase, (isClosed_iff s).2 hphase, Operation.vain]
  | takeOutbox =>
    have hsame : s.takeOutbox.2 = s := by
      rw [takeOutbox, ← houtbox]
    rw [perform, hsame, takeOutbox, houtbox]
    rfl

/-- So is every history. -/
theorem history_of_shut {s : Session} (hphase : s.phase = .closed) (houtbox : s.outbox = [])
    (ops : List Operation) : s.history ops = (ops.map Operation.vain, s) := by
  induction ops with
  | nil => rfl
  | cons op ops ih =>
    rw [history, perform_of_shut hphase houtbox op]
    dsimp only
    rw [ih]
    rfl

/-! ## What is remembered -/

/-- **What is known of the memory of a session**: there is a reason exactly where it was closed, and
no revision was acknowledged that was not given out. -/
structure Remembers (s : Session) : Prop where
  reason : s.closeReason.isSome = true ↔ s.phase = .closed
  acknowledged : ∀ revision, s.acknowledged = some revision → revision < s.nextRevision

theorem remembers_new : new.Remembers := ⟨⟨nofun, nofun⟩, nofun⟩

/-- **How far an acknowledgement is behind another.** -/
def Trails (before after : Option Nat) : Prop :=
  ∀ revision, before = some revision → ∃ higher, after = some higher ∧ revision ≤ higher

theorem trails_rfl (acknowledged : Option Nat) : Trails acknowledged acknowledged :=
  fun revision h => ⟨revision, h, Nat.le_refl revision⟩

theorem Trails.trans {a b c : Option Nat} (h : Trails a b) (h' : Trails b c) : Trails a c := by
  intro revision hrevision
  obtain ⟨higher, hb, hle⟩ := h revision hrevision
  obtain ⟨highest, hc, hle'⟩ := h' higher hb
  exact ⟨highest, hc, Nat.le_trans hle hle'⟩

/-- To raise an acknowledgement is to raise it. -/
theorem trails_raise (before : Option Nat) (revision : Nat) :
    Trails before (raise before revision) := by
  rintro last rfl
  unfold raise
  dsimp only
  split
  · rename_i hlt
    exact ⟨revision, rfl, Nat.le_of_lt hlt⟩
  · exact ⟨last, rfl, Nat.le_refl last⟩

/-- What comes of it is the new one or the old. -/
theorem eq_of_raise {before : Option Nat} {revision raised : Nat}
    (h : raise before revision = some raised) : raised = revision ∨ before = some raised := by
  unfold raise at h
  split at h
  · exact .inl (Option.some_inj.1 h).symm
  · split at h
    · exact .inl (Option.some_inj.1 h).symm
    · exact .inr h

/-- **A session that went on** to be another. -/
structure Onward (s s' : Session) : Prop where
  phase : Relation.ReflTransGen Phase.Next s.phase s'.phase
  acknowledged : Trails s.acknowledged s'.acknowledged
  nextRevision : s.nextRevision ≤ s'.nextRevision

theorem onward_rfl (s : Session) : s.Onward s := ⟨.refl, trails_rfl _, Nat.le_refl _⟩

theorem Onward.trans {s s' s'' : Session} (h : s.Onward s') (h' : s'.Onward s'') :
    s.Onward s'' where
  phase := h.phase.trans h'.phase
  acknowledged := h.acknowledged.trans h'.acknowledged
  nextRevision := Nat.le_trans h.nextRevision h'.nextRevision

/-! ## Every operation -/

section Does

variable {s s' : Session} {op : Operation} {outcome : Outcome}

/-- An operation takes a session to the next phase, if to any. -/
theorem Does.next (h : s.Does op outcome s') : Phase.Next s.phase s'.phase := by
  cases h with
  | begins phase => exact phase ▸ .begins
  | answers phase => exact phase ▸ .answers
  | violates | expires | closes => exact .closes s.phase
  | refuses | delivers | queues | repeats | unknown | acknowledges | waits
  | takes => exact .stays s.phase

/-- **An operation takes nothing back.** -/
theorem Does.onward (h : s.Does op outcome s') : s.Onward s' := by
  refine ⟨.single h.next, ?_, ?_⟩
  · cases h with
    | acknowledges revision => exact trails_raise s.acknowledged revision
    | begins | refuses | delivers | queues | answers | repeats | unknown | violates
    | expires | waits | closes | takes => exact trails_rfl s.acknowledged
  · cases h with
    | delivers | queues => exact Nat.le_succ s.nextRevision
    | begins | refuses | answers | repeats | unknown | acknowledges | violates
    | expires | waits | closes | takes => exact Nat.le_refl s.nextRevision

/-- **An operation keeps the memory in order.** -/
theorem Remembers.does (hs : s.Remembers) (h : s.Does op outcome s') (hopen : s.phase ≠ .closed) :
    s'.Remembers := by
  have hnone : ¬ s.closeReason.isSome = true := fun hsome => hopen (hs.reason.1 hsome)
  have hknown := hs.acknowledged
  cases h with
  | begins | answers => exact ⟨iff_of_false hnone nofun, hknown⟩
  | delivers | queues =>
    exact ⟨hs.reason, fun revision hrevision => Nat.lt_succ_of_lt (hknown revision hrevision)⟩
  | acknowledges revision _ hrevision =>
    refine ⟨hs.reason, fun raised hraised => ?_⟩
    rcases eq_of_raise hraised with rfl | hbefore
    · exact hrevision
    · exact hknown raised hbefore
  | violates | expires | closes => exact ⟨iff_of_true rfl rfl, hknown⟩
  | refuses | repeats | unknown | waits => exact hs
  | takes => exact ⟨hs.reason, hknown⟩

/-- **What is refused leaves an open session as it was**, or closes it. -/
theorem Does.of_refused {error : SessionError} (h : s.Does op (.refused error) s') :
    (op = .contextCreated ∧ error = .unexpected "context_created" s.phase ∧ s' = s) ∨
    ∃ message, op = .receive message ∧ error = .unexpected message.kind s.phase ∧
      s' = s.shut .protocolViolation := by
  cases h with
  | refuses => exact .inl ⟨rfl, rfl, rfl⟩
  | violates message => exact .inr ⟨message, rfl, rfl, rfl⟩

end Does

/-! ## Every history -/

/-- What is known of an operation on any session that has nothing to send if it is closed. -/
theorem onward_perform {s : Session} (hsent : s.phase = .closed → s.outbox = [])
    (op : Operation) : s.Onward (s.perform op).2 ∧ Phase.Next s.phase (s.perform op).2.phase ∧
      (s.Remembers → (s.perform op).2.Remembers) := by
  by_cases hphase : s.phase = .closed
  · rw [perform_of_shut hphase (hsent hphase) op]
    exact ⟨s.onward_rfl, .stays _, id⟩
  · have hdoes := does_perform hphase op
    exact ⟨hdoes.onward, hdoes.next, fun hs => hs.does hdoes hphase⟩

/-- **A history takes nothing back** and keeps the memory in order. -/
theorem onward_history {sent : List HostMessage} {contents : List SafeMarkup} {s : Session}
    (h : Ledger True sent contents s) (ops : List Operation) :
    s.Onward (s.history ops).2 ∧ (s.Remembers → (s.history ops).2.Remembers) := by
  induction ops generalizing s sent contents with
  | nil => exact ⟨s.onward_rfl, id⟩
  | cons op ops ih =>
    obtain ⟨hfirst, -, hkeeps⟩ := onward_perform h.outbox_of_closed op
    obtain ⟨hmore, hrest⟩ := ih (h.perform op fun _ _ => trivial)
    exact ⟨hfirst.trans hmore, fun hs => hrest (hkeeps hs)⟩

/-- **Every history goes one way.** In every state that a session can reach there is a reason for
the close exactly where it is closed, nothing waits where it is ready or closed, nothing is about to
be sent where it is closed, and no revision was acknowledged that was not given out. Whatever
happens next, the phase goes on to the next one if to any, and no acknowledgement is taken back. On
a closed session all is in vain: it is left as it is, and each operation has one answer. What is
refused by an open session is either that the context exists, and nothing is changed, or a message
that cannot be sent yet, and the session is closed for that, with all dropped that was not sent. -/
theorem history_goes_one_way (ops : List Operation) :
    let s := (new.history ops).2
    (s.closeReason.isSome = true ↔ s.phase = .closed) ∧
    (s.phase = .ready ∨ s.phase = .closed → s.pending = []) ∧
    (s.phase = .closed → s.outbox = []) ∧
    (∀ revision, s.acknowledged = some revision → revision < s.nextRevision) ∧
    (∀ more, s.Onward (s.history more).2) ∧
    (∀ op, Phase.Next s.phase (s.perform op).2.phase) ∧
    (s.phase = .closed → ∀ more, s.history more = (more.map Operation.vain, s)) ∧
    (s.phase ≠ .closed → ∀ op error, (s.perform op).1 = .refused error →
      (op = .contextCreated ∧ error = .unexpected "context_created" s.phase ∧
        (s.perform op).2 = s) ∨
      ∃ message, op = .receive message ∧ error = .unexpected message.kind s.phase ∧
        (s.perform op).2 = s.shut .protocolViolation) := by
  intro s
  have hledger : Ledger True _ _ s := (ledger_new True).history ops fun _ _ _ _ => trivial
  have hremembers : s.Remembers := (onward_history (ledger_new True) ops).2 remembers_new
  refine ⟨hremembers.reason, hledger.pending_eq_nil, hledger.outbox_of_closed,
    hremembers.acknowledged, fun more => (onward_history hledger more).1, fun op => ?_, ?_, ?_⟩
  · exact (onward_perform hledger.outbox_of_closed op).2.1
  · exact fun hphase => history_of_shut hphase (hledger.outbox_of_closed hphase)
  · intro hopen op error herror
    have hdoes := does_perform hopen op
    rw [herror] at hdoes
    exact hdoes.of_refused

/-- A message that comes before the handshake closes the session for good. -/
example :
    let ops : List Operation := [.receive .ready, .contextCreated, .close .hostClosed]
    (new.history ops).1
        = [.refused (.unexpected "preview_ready" .uninitialized), .refused .closed,
          .changed false] ∧
      (new.history ops).2 = new.shut .protocolViolation := by decide

end Session

end SafePreview
