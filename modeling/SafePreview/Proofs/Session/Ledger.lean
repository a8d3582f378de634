import SafePreview.Session.Basic

/-!
# The books of a session

A session holds messages in two places, the outbox and `pending`, and gives away what was in the
outbox. `Ledger heard sent contents s` is the account of all three, when `sent` was taken out of the
session so far and `contents` were accepted: one line for each phase, and each line says where the
handshake and the contents are. `heard` says whether the context was heard to be ready, and no
content is sent before that. Every operation keeps the books (`Ledger.perform`), and what is said of
histories of a session and of links needs no other invariant of the session.

While a session lives, what was sent, the outbox and `pending` make up one sequence, the handshake
and the contents in order (`Ledger.flow`). In a closed session the rest of that sequence is gone,
and what was sent is a part of it from its front on.
-/

namespace SafePreview

open Markup (SafeMarkup)

/-- **Contents under the revisions 1, 2, 3 and so on.** -/
def numbered (contents : List SafeMarkup) : List HostMessage :=
  contents.mapIdx fun i markup => .update (i + 1) markup

/-- The next content has the next revision. -/
theorem numbered_concat (contents : List SafeMarkup) (markup : SafeMarkup) :
    numbered (contents ++ [markup])
      = numbered contents ++ [.update (contents.length + 1) markup] := List.mapIdx_concat

/-- Whether a message carries a content. -/
def HostMessage.isUpdate (m : HostMessage) : Bool := m.revision?.isSome

theorem isUpdate_of_mem_numbered {contents : List SafeMarkup} {m : HostMessage}
    (h : m ∈ numbered contents) : m.isUpdate = true := by
  obtain ⟨i, _, rfl⟩ := List.mem_mapIdx.1 h
  rfl

/-- The contents of the whole sequence. -/
theorem filter_isUpdate_numbered (contents : List SafeMarkup) :
    (numbered contents).filter HostMessage.isUpdate = numbered contents :=
  List.filter_eq_self.2 fun _ h => isUpdate_of_mem_numbered h

/-- **The whole sequence for the context**: the handshake, and the contents in order. -/
def sequence (contents : List SafeMarkup) : List HostMessage := .handshake :: numbered contents

/-- The handshake is no content. -/
theorem filter_isUpdate_sequence (contents : List SafeMarkup) :
    (sequence contents).filter HostMessage.isUpdate = numbered contents := by
  rw [sequence, List.filter_cons_of_neg (by decide)]
  exact filter_isUpdate_numbered contents

namespace Session

/-! ## What an operation comes to -/

theorem isClosed_iff (s : Session) : s.isClosed = true ↔ s.phase = .closed := decide_eq_true_iff

theorem requestUpdate_of_closed {s : Session} (markup : SafeMarkup) (h : s.phase = .closed) :
    s.requestUpdate markup = (.error .closed, s) := by
  rw [requestUpdate, if_pos ((isClosed_iff s).2 h)]

theorem contextCreated_of_closed {s : Session} (h : s.phase = .closed) :
    s.contextCreated = (.error .closed, s) := by
  unfold contextCreated
  rw [h]

theorem receive_of_closed {s : Session} (message : ContextMessage) (h : s.phase = .closed) :
    s.receive message = (.error .closed, s) := by
  unfold receive
  rw [h]

theorem handshakeTimedOut_of_closed {s : Session} (h : s.phase = .closed) :
    s.handshakeTimedOut = (false, s) := by
  rw [handshakeTimedOut, if_neg (by rw [h]; decide)]

theorem close_of_closed {s : Session} (reason : CloseReason) (h : s.phase = .closed) :
    s.close reason = s := by
  rw [close, if_pos ((isClosed_iff s).2 h)]

/-- A session that is ready puts the content in its outbox. -/
theorem requestUpdate_of_ready {s : Session} (markup : SafeMarkup) (h : s.phase = .ready) :
    s.requestUpdate markup
      = (.ok (.delivered s.nextRevision),
        { s with
          nextRevision := s.nextRevision + 1
          outbox := s.outbox ++ [.update s.nextRevision markup] }) := by
  rw [requestUpdate, if_neg (by rw [isClosed_iff, h]; decide)]
  simp only
  rw [if_pos h]

/-- Until then the content waits. -/
theorem requestUpdate_of_waiting {s : Session} (markup : SafeMarkup) (hready : s.phase ≠ .ready)
    (hopen : s.phase ≠ .closed) :
    s.requestUpdate markup
      = (.ok (.queued s.nextRevision),
        { s with
          nextRevision := s.nextRevision + 1
          pending := s.pending ++ [.update s.nextRevision markup] }) := by
  rw [requestUpdate, if_neg (by rwa [isClosed_iff])]
  simp only
  rw [if_neg hready]

/-- A session that is open takes the content under its next revision. -/
theorem exists_receipt {s : Session} (markup : SafeMarkup) (h : s.phase ≠ .closed) :
    ∃ receipt, (s.requestUpdate markup).1 = .ok receipt ∧ receipt.revision = s.nextRevision ∧
      (s.requestUpdate markup).2.nextRevision = s.nextRevision + 1 := by
  by_cases hready : s.phase = .ready
  · rw [requestUpdate_of_ready markup hready]
    exact ⟨_, rfl, rfl, rfl⟩
  · rw [requestUpdate_of_waiting markup hready h]
    exact ⟨_, rfl, rfl, rfl⟩

/-- The context is ready: what waited goes out. -/
theorem receive_ready_of_handshaking {s : Session} (h : s.phase = .handshaking) :
    s.receive .ready
      = (.ok (), { s with phase := .ready, outbox := s.outbox ++ s.pending, pending := [] }) := by
  unfold receive
  rw [h]

theorem phase_close (s : Session) (reason : CloseReason) : (s.close reason).phase = .closed := by
  unfold close
  split
  · rename_i hclosed
    exact (isClosed_iff s).1 hclosed
  · rfl

/-- A session whose context exists has not to wait for it again. -/
theorem perform_phase_ne {s : Session} (h : s.phase ≠ .uninitialized) (op : Operation) :
    (s.perform op).2.phase ≠ .uninitialized := by
  have hclose (reason : CloseReason) : (s.close reason).phase ≠ .uninitialized := by
    rw [phase_close]
    decide
  cases op with
  | contextCreated =>
    rw [perform]
    unfold contextCreated
    split
    · exact nofun
    · exact h
    · exact h
  | update markup =>
    rw [perform]
    unfold requestUpdate
    split
    · exact h
    · dsimp only
      split
      · exact h
      · exact h
  | receive message =>
    rw [perform]
    unfold receive
    split
    · exact h
    · exact nofun
    · exact h
    · split
      · exact h
      · exact h
    · exact hclose _
  | timeout =>
    rw [perform]
    unfold handshakeTimedOut
    split
    · exact hclose _
    · exact h
  | close reason => exact hclose _
  | takeOutbox => exact h

/-! ## The books -/

/-- **The books of a session**, when `sent` was taken out of it, `contents` were accepted, and the
context was heard to be ready if `heard`. -/
inductive Ledger (heard : Prop) (sent : List HostMessage) (contents : List SafeMarkup)
    (s : Session) : Prop
  /-- Nothing is sent, and the contents wait. -/
  | uninitialized (phase : s.phase = .uninitialized) (flow : sent = []) (outbox : s.outbox = [])
      (pending : s.pending = numbered contents) (next : s.nextRevision = contents.length + 1)
  /-- The handshake is sent or about to be, and the contents wait. -/
  | handshaking (phase : s.phase = .handshaking) (flow : sent ++ s.outbox = [.handshake])
      (pending : s.pending = numbered contents) (next : s.nextRevision = contents.length + 1)
  /-- All is sent or about to be. -/
  | ready (phase : s.phase = .ready) (flow : sent ++ s.outbox = sequence contents)
      (pending : s.pending = []) (next : s.nextRevision = contents.length + 1) (ready : heard)
  /-- Nothing more is sent. -/
  | closed (phase : s.phase = .closed) (flow : sent <+: sequence contents)
      (outbox : s.outbox = []) (pending : s.pending = []) (ready : heard ∨ sent <+: [.handshake])

theorem ledger_new (heard : Prop) : Ledger heard [] [] new := .uninitialized rfl rfl rfl rfl rfl

namespace Ledger

variable {heard : Prop} {sent : List HostMessage} {contents : List SafeMarkup} {s : Session}

/-- **While a session lives nothing is lost**: what was sent, the outbox and what waits are the
handshake and the contents in order. -/
theorem flow (h : Ledger heard sent contents s) (hopen : s.phase ≠ .closed) :
    sent ++ s.outbox ++ s.pending
      = if s.phase = .uninitialized then numbered contents else sequence contents := by
  cases h with
  | uninitialized phase flow outbox pending =>
    rw [flow, outbox, pending, if_pos phase]
    rfl
  | handshaking phase flow pending =>
    rw [flow, pending, phase]
    rfl
  | ready phase flow pending =>
    rw [flow, pending, phase, List.append_nil]
    rfl
  | closed phase => exact absurd phase hopen

/-- **What was sent and what is about to be** are the first of the handshake and the contents. -/
theorem prefix_sequence (h : Ledger heard sent contents s) :
    sent ++ s.outbox <+: sequence contents := by
  cases h with
  | uninitialized _ flow outbox =>
    rw [flow, outbox]
    exact List.nil_prefix
  | handshaking _ flow =>
    rw [flow]
    exact List.prefix_append [HostMessage.handshake] _
  | ready _ flow => exact flow ▸ List.prefix_rfl
  | closed _ flow outbox =>
    rw [outbox, List.append_nil]
    exact flow

/-- **No content before the context is ready**: until then there is nothing but the handshake. -/
theorem heard_or_prefix (h : Ledger heard sent contents s) :
    heard ∨ sent ++ s.outbox <+: [.handshake] := by
  cases h with
  | uninitialized _ flow outbox =>
    rw [flow, outbox]
    exact .inr List.nil_prefix
  | handshaking _ flow =>
    rw [flow]
    exact .inr List.prefix_rfl
  | ready _ _ _ _ ready => exact .inl ready
  | closed _ _ outbox _ ready =>
    rw [outbox, List.append_nil]
    exact ready

/-- A content is sent only to a context that was heard. -/
theorem heard_of_isUpdate (h : Ledger heard sent contents s) {m : HostMessage}
    (hm : m ∈ sent ++ s.outbox) (hupdate : m.isUpdate = true) : heard := by
  rcases h.heard_or_prefix with hheard | hbegins
  · exact hheard
  · rw [List.mem_singleton.1 (hbegins.subset hm)] at hupdate
    cases hupdate

/-- Of a session that waits to hear from the context only the handshake is sent. -/
theorem eq_handshake (h : Ledger heard sent contents s) (hphase : s.phase = .handshaking) :
    sent ++ s.outbox = [.handshake] := by
  cases h with
  | handshaking _ flow => exact flow
  | uninitialized phase | ready phase | closed phase =>
    exact absurd (hphase.symm.trans phase) (by decide)

/-- Of a session without a context nothing is sent. -/
theorem eq_nil (h : Ledger heard sent contents s) (hphase : s.phase = .uninitialized) :
    sent ++ s.outbox = [] := by
  cases h with
  | uninitialized _ flow outbox =>
    rw [flow, outbox]
    rfl
  | handshaking phase | ready phase | closed phase =>
    exact absurd (hphase.symm.trans phase) (by decide)

/-- The next revision is one more than the number of contents. -/
theorem nextRevision_eq (h : Ledger heard sent contents s) (hopen : s.phase ≠ .closed) :
    s.nextRevision = contents.length + 1 := by
  cases h with
  | uninitialized _ _ _ _ next => exact next
  | handshaking _ _ _ next => exact next
  | ready _ _ _ next => exact next
  | closed phase => exact absurd phase hopen

/-- A closed session has nothing to send. -/
theorem outbox_of_closed (h : Ledger heard sent contents s) (hphase : s.phase = .closed) :
    s.outbox = [] := by
  cases h with
  | uninitialized phase | handshaking phase | ready phase =>
    exact absurd (hphase.symm.trans phase) (by decide)
  | closed _ _ outbox => exact outbox

/-- Nothing waits in a session that is ready, or in a closed one. -/
theorem pending_eq_nil (h : Ledger heard sent contents s)
    (hphase : s.phase = .ready ∨ s.phase = .closed) : s.pending = [] := by
  cases h with
  | uninitialized phase | handshaking phase => simp [phase] at hphase
  | ready _ _ pending => exact pending
  | closed _ _ _ pending => exact pending

/-- What was sent by a closed session may count for less. -/
theorem shorten (h : Ledger heard sent contents s) (hphase : s.phase = .closed)
    {less : List HostMessage} (hless : less <+: sent) : Ledger heard less contents s := by
  cases h with
  | uninitialized phase | handshaking phase | ready phase =>
    exact absurd (hphase.symm.trans phase) (by decide)
  | closed _ flow outbox pending ready =>
    exact .closed hphase (hless.trans flow) outbox pending (ready.imp_right hless.trans)

/-! ## Each operation keeps the books -/

theorem close (h : Ledger heard sent contents s) (reason : CloseReason) :
    Ledger heard sent contents (s.close reason) := by
  have hsent : sent <+: sent ++ s.outbox := List.prefix_append _ _
  unfold Session.close
  split
  · exact h
  · exact .closed rfl (hsent.trans h.prefix_sequence) rfl rfl
      (h.heard_or_prefix.imp_right hsent.trans)

theorem contextCreated (h : Ledger heard sent contents s) :
    Ledger heard sent contents s.contextCreated.2 := by
  unfold Session.contextCreated
  split
  · rename_i hphase
    cases h with
    | uninitialized _ flow outbox pending next =>
      exact .handshaking rfl (by rw [flow, outbox]; rfl) pending next
    | handshaking phase | ready phase | closed phase =>
      exact absurd (hphase.symm.trans phase) (by decide)
  · exact h
  · exact h

theorem requestUpdate (h : Ledger heard sent contents s) (hopen : s.phase ≠ .closed)
    (markup : SafeMarkup) :
    Ledger heard sent (contents ++ [markup]) (s.requestUpdate markup).2 := by
  have hlength : (contents ++ [markup]).length = contents.length + 1 := List.length_append
  cases h with
  | uninitialized phase flow outbox pending next =>
    rw [requestUpdate_of_waiting markup (by rw [phase]; decide) hopen]
    refine .uninitialized phase flow outbox ?_ ?_
    · rw [numbered_concat, pending, next]
    · rw [hlength, next]
  | handshaking phase flow pending next =>
    rw [requestUpdate_of_waiting markup (by rw [phase]; decide) hopen]
    refine .handshaking phase flow ?_ ?_
    · rw [numbered_concat, pending, next]
    · rw [hlength, next]
  | ready phase flow pending next ready =>
    -- nothing waits any more, so the content is the next of the sequence
    rw [requestUpdate_of_ready markup phase]
    refine .ready phase ?_ pending ?_ ready
    · rw [sequence, numbered_concat, ← next, ← List.append_assoc, flow]
      rfl
    · rw [hlength, next]
  | closed phase => exact absurd phase hopen

/-- Hearing the context keeps the books, if it counts as heard that it is ready. -/
theorem receive (h : Ledger heard sent contents s) (message : ContextMessage)
    (hready : s.phase = .handshaking → message = .ready → heard) :
    Ledger heard sent contents (s.receive message).2 := by
  unfold Session.receive
  split
  · exact h
  · rename_i hphase
    cases h with
    | handshaking phase flow pending next =>
      -- what waited goes behind the handshake, which is all that was sent
      refine .ready rfl ?_ rfl next (hready phase rfl)
      rw [← List.append_assoc, flow, pending]
      rfl
    | uninitialized phase | ready phase | closed phase =>
      exact absurd (hphase.symm.trans phase) (by decide)
  · exact h
  · rename_i hphase
    split
    · exact h
    · cases h with
      | ready phase flow pending next ready => exact .ready phase flow pending next ready
      | uninitialized phase | handshaking phase | closed phase =>
        exact absurd (hphase.symm.trans phase) (by decide)
  · exact h.close .protocolViolation

theorem handshakeTimedOut (h : Ledger heard sent contents s) :
    Ledger heard sent contents s.handshakeTimedOut.2 := by
  unfold Session.handshakeTimedOut
  split
  · exact h.close .handshakeTimeout
  · exact h

/-- What is taken was about to be sent and now is. -/
theorem takeOutbox (h : Ledger heard sent contents s) :
    Ledger heard (sent ++ s.outbox) contents s.takeOutbox.2 := by
  cases h with
  | uninitialized phase flow outbox pending next =>
    exact .uninitialized phase (by rw [flow, outbox]; rfl) rfl pending next
  | handshaking phase flow pending next =>
    exact .handshaking phase (by rw [flow]; rfl) pending next
  | ready phase flow pending next ready =>
    exact .ready phase (by rw [flow]; exact List.append_nil _) pending next ready
  | closed phase flow outbox pending ready =>
    rw [outbox, List.append_nil]
    exact .closed phase flow rfl pending ready

end Ledger

end Session

end SafePreview
