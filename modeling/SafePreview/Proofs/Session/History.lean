import SafePreview.Proofs.Session.Ledger

/-!
# What a history of a session delivers

A history takes messages out of a session and brings contents in. This module reads both off the
outcomes, keeps the books along the history (`Ledger.history`), and says what follows for whoever
is at the other end: the handshake first, then every accepted content once and in order, none of
them before the context said that it is ready, and nothing after the close.

The books are kept for a fixed proposition `heard`, and what a history owes for it is that `heard`
follows from any point at which the session waits and the context says that it is ready. So the
induction over a history needs no record of what was heard.
-/

namespace SafePreview

open Markup (SafeMarkup)

namespace Session

/-! ## What goes out and what comes in -/

/-- What an operation took out of the session. -/
def Outcome.messages : Outcome → List HostMessage
  | .taken messages => messages
  | _ => []

/-- The content that an operation brought in. -/
def Operation.accepted : Operation → Outcome → List SafeMarkup
  | .update markup, .accepted _ => [markup]
  | _, _ => []

/-- **All that was taken out of a session**, in order. -/
def drained (outcomes : List Outcome) : List HostMessage := outcomes.flatMap Outcome.messages

/-- **The contents that were accepted**, in the order in which they were asked for. -/
def accepted : List Operation → List Outcome → List SafeMarkup
  | op :: ops, outcome :: outcomes => op.accepted outcome ++ accepted ops outcomes
  | _, _ => []

theorem drained_cons (outcome : Outcome) (outcomes : List Outcome) :
    drained (outcome :: outcomes) = outcome.messages ++ drained outcomes := List.flatMap_cons

/-! ## The books along a history -/

/-- **An operation keeps the books**: what it took counts as sent, and what it brought as
accepted. -/
theorem Ledger.perform {heard : Prop} {sent : List HostMessage} {contents : List SafeMarkup}
    {s : Session} (h : Ledger heard sent contents s) (op : Operation)
    (hready : s.phase = .handshaking → op = .receive .ready → heard) :
    Ledger heard (sent ++ (s.perform op).1.messages) (contents ++ op.accepted (s.perform op).1)
      (s.perform op).2 := by
  cases op with
  | contextCreated =>
    have hnone : (Outcome.ofUnit s.contextCreated.1).messages = [] := by
      cases s.contextCreated.1 <;> rfl
    show Ledger heard (sent ++ (Outcome.ofUnit s.contextCreated.1).messages) (contents ++ [])
      s.contextCreated.2
    rw [hnone, List.append_nil, List.append_nil]
    exact h.contextCreated
  | update markup =>
    by_cases hopen : s.phase = .closed
    · rw [Session.perform, requestUpdate_of_closed markup hopen]
      simp only [Outcome.ofReceipt, Outcome.messages, Operation.accepted, List.append_nil]
      exact h
    · have hledger := h.requestUpdate hopen markup
      by_cases hphase : s.phase = .ready
      · rw [Session.perform, requestUpdate_of_ready markup hphase] at *
        simp only [Outcome.ofReceipt, Outcome.messages, Operation.accepted, List.append_nil]
        exact hledger
      · rw [Session.perform, requestUpdate_of_waiting markup hphase hopen] at *
        simp only [Outcome.ofReceipt, Outcome.messages, Operation.accepted, List.append_nil]
        exact hledger
  | receive message =>
    have hnone : (Outcome.ofUnit (s.receive message).1).messages = [] := by
      cases (s.receive message).1 <;> rfl
    show Ledger heard (sent ++ (Outcome.ofUnit (s.receive message).1).messages) (contents ++ [])
      (s.receive message).2
    rw [hnone, List.append_nil, List.append_nil]
    exact h.receive message fun hphase hmessage => hready hphase (by rw [hmessage])
  | timeout =>
    show Ledger heard (sent ++ []) (contents ++ []) s.handshakeTimedOut.2
    rw [List.append_nil, List.append_nil]
    exact h.handshakeTimedOut
  | close reason =>
    show Ledger heard (sent ++ []) (contents ++ []) (s.close reason)
    rw [List.append_nil, List.append_nil]
    exact h.close reason
  | takeOutbox =>
    show Ledger heard (sent ++ s.outbox) (contents ++ []) s.takeOutbox.2
    rw [List.append_nil]
    exact h.takeOutbox

/-- **A history keeps the books**, if the context counts as heard wherever it says that it is ready
to a session that waits for that. -/
theorem Ledger.history {heard : Prop} {sent : List HostMessage} {contents : List SafeMarkup}
    {s : Session} (h : Ledger heard sent contents s) (ops : List Operation)
    (hready : ∀ before after, ops = before ++ .receive .ready :: after →
      (s.history before).2.phase = .handshaking → heard) :
    Ledger heard (sent ++ drained (s.history ops).1) (contents ++ accepted ops (s.history ops).1)
      (s.history ops).2 := by
  induction ops generalizing s sent contents with
  | nil =>
    show Ledger heard (sent ++ []) (contents ++ []) s
    rw [List.append_nil, List.append_nil]
    exact h
  | cons op ops ih =>
    -- a point in the rest at which the context is heard is one of the whole history
    have hfirst := h.perform op fun hphase hop => hready [] ops (by rw [hop]; rfl) hphase
    have hrest := ih hfirst fun before after hops hphase =>
      hready (op :: before) after (by rw [hops]; rfl) hphase
    rw [List.append_assoc, List.append_assoc, ← drained_cons] at hrest
    exact hrest

/-- The books of a session whose history is known: the context was heard if there is a point at
which the session waits and the context says that it is ready. -/
theorem ledger_history (ops : List Operation) :
    Ledger
      (∃ before after, ops = before ++ .receive .ready :: after ∧
        (new.history before).2.phase = .handshaking)
      (drained (new.history ops).1) (accepted ops (new.history ops).1) (new.history ops).2 :=
  (ledger_new _).history ops fun before after hops hphase => ⟨before, after, hops, hphase⟩

/-! ## What the other end sees -/

section Ledger

variable {heard : Prop} {sent : List HostMessage} {contents : List SafeMarkup} {s : Session}

/-- Every content is sent, is about to be or waits, in order. -/
theorem Ledger.filter_flow (h : Ledger heard sent contents s) (hopen : s.phase ≠ .closed) :
    (sent ++ s.outbox ++ s.pending).filter HostMessage.isUpdate = numbered contents := by
  rw [h.flow hopen]
  split
  · exact filter_isUpdate_numbered contents
  · exact filter_isUpdate_sequence contents

/-- What is sent begins with the handshake, and there is no second one. -/
theorem Ledger.handshake_first (h : Ledger heard sent contents s) :
    sent ++ s.outbox = [] ∨
      ∃ updates, sent ++ s.outbox = .handshake :: updates ∧ ∀ m ∈ updates, m.isUpdate = true := by
  rcases List.prefix_cons_iff.1 h.prefix_sequence with hnil | ⟨updates, hcons, hupdates⟩
  · exact .inl hnil
  · exact .inr ⟨updates, hcons, fun m hm => isUpdate_of_mem_numbered (hupdates.subset hm)⟩

/-- A closed session has sent the first contents. -/
theorem Ledger.filter_prefix (h : Ledger heard sent contents s) :
    sent.filter HostMessage.isUpdate <+: numbered contents := by
  rw [← filter_isUpdate_sequence]
  exact ((List.prefix_append sent s.outbox).trans h.prefix_sequence).filter _

end Ledger

/-- **Where an accepted content goes** is what its receipt says. -/
theorem receipt_of_perform {s : Session} {markup : SafeMarkup} {receipt : Receipt}
    (h : (s.perform (.update markup)).1 = .accepted receipt) :
    s.phase ≠ .closed ∧ receipt.revision = s.nextRevision ∧
    (receipt = .delivered receipt.revision ↔
      (s.perform (.update markup)).2.outbox
        = s.outbox ++ [.update receipt.revision markup]) ∧
    (receipt = .queued receipt.revision ↔
      (s.perform (.update markup)).2.pending
        = s.pending ++ [.update receipt.revision markup]) := by
  have hgrows (messages : List HostMessage) (m : HostMessage) : messages ≠ messages ++ [m] :=
    fun heq => by simpa using congrArg List.length heq
  by_cases hopen : s.phase = .closed
  · rw [perform, requestUpdate_of_closed markup hopen] at h
    cases h
  · by_cases hready : s.phase = .ready
    · rw [perform, requestUpdate_of_ready markup hready] at *
      cases h
      exact ⟨hopen, rfl, iff_of_true rfl rfl, iff_of_false Receipt.noConfusion (hgrows _ _)⟩
    · rw [perform, requestUpdate_of_waiting markup hready hopen] at *
      cases h
      exact ⟨hopen, rfl, iff_of_false Receipt.noConfusion (hgrows _ _), iff_of_true rfl rfl⟩

/-- A closed session with nothing to send gives nothing and stays as it is. -/
theorem perform_of_closed {s : Session} (hphase : s.phase = .closed) (houtbox : s.outbox = [])
    (op : Operation) : (s.perform op).1.messages = [] ∧ (s.perform op).2 = s := by
  cases op with
  | contextCreated =>
    rw [perform, contextCreated_of_closed hphase]
    exact ⟨rfl, rfl⟩
  | update markup =>
    rw [perform, requestUpdate_of_closed markup hphase]
    exact ⟨rfl, rfl⟩
  | receive message =>
    rw [perform, receive_of_closed message hphase]
    exact ⟨rfl, rfl⟩
  | timeout =>
    rw [perform, handshakeTimedOut_of_closed hphase]
    exact ⟨rfl, rfl⟩
  | close reason =>
    rw [perform, close_of_closed reason hphase]
    exact ⟨rfl, rfl⟩
  | takeOutbox =>
    rw [perform, takeOutbox]
    refine ⟨houtbox, ?_⟩
    rw [← houtbox]

/-- Nothing comes out of it in any history. -/
theorem drained_of_closed {s : Session} (hphase : s.phase = .closed) (houtbox : s.outbox = [])
    (ops : List Operation) : drained (s.history ops).1 = [] := by
  induction ops with
  | nil => rfl
  | cons op ops ih =>
    obtain ⟨hmessages, hsame⟩ := perform_of_closed hphase houtbox op
    rw [history, drained_cons, hmessages, hsame]
    exact ih

/-- **What every history of a session delivers.** While the session lives, its contents are all in
what was taken, in the outbox or waiting, in the order of the requests and under the revisions from
1 on. What is sent is the handshake and then contents, and contents only if there was a point at
which the handshake alone was sent and the context said that it is ready. A receipt says where its
content went. A closed session has sent the first contents, and nothing comes out of it any more. -/
theorem history_delivers_in_order (ops : List Operation) :
    let outcomes := (new.history ops).1
    let reached := (new.history ops).2
    let contents := accepted ops outcomes
    let stream := drained outcomes ++ reached.outbox
    (reached.phase ≠ .closed →
      (stream ++ reached.pending).filter HostMessage.isUpdate = numbered contents) ∧
    (stream = [] ∨
      ∃ updates, stream = .handshake :: updates ∧ ∀ m ∈ updates, m.isUpdate = true) ∧
    (∀ m ∈ stream, m.isUpdate = true →
      ∃ before after, ops = before ++ .receive .ready :: after ∧
        drained (new.history before).1 ++ (new.history before).2.outbox = [.handshake] ∧
        ((new.history before).2.perform (.receive .ready)).1 = .done) ∧
    (∀ markup receipt, (reached.perform (.update markup)).1 = .accepted receipt →
      receipt.revision = contents.length + 1 ∧
      (receipt = .delivered receipt.revision ↔
        (reached.perform (.update markup)).2.outbox
          = reached.outbox ++ [.update receipt.revision markup]) ∧
      (receipt = .queued receipt.revision ↔
        (reached.perform (.update markup)).2.pending
          = reached.pending ++ [.update receipt.revision markup])) ∧
    (reached.phase = .closed →
      (drained outcomes).filter HostMessage.isUpdate <+: numbered contents ∧
      ∀ more, drained (reached.history more).1 = []) := by
  intro outcomes reached contents stream
  have hledger := ledger_history ops
  refine ⟨hledger.filter_flow, hledger.handshake_first, ?_, ?_, ?_⟩
  · intro m hm hupdate
    obtain ⟨before, after, hops, hphase⟩ := hledger.heard_of_isUpdate hm hupdate
    refine ⟨before, after, hops, (ledger_history before).eq_handshake hphase, ?_⟩
    rw [perform, receive_ready_of_handshaking hphase]
    rfl
  · intro markup receipt haccepted
    obtain ⟨hopen, hrevision, hdelivered, hqueued⟩ := receipt_of_perform haccepted
    exact ⟨hrevision.trans (hledger.nextRevision_eq hopen), hdelivered, hqueued⟩
  · intro hphase
    exact ⟨hledger.filter_prefix, drained_of_closed hphase (hledger.outbox_of_closed hphase)⟩

/-- A content that was asked for before there was a context, and one that was asked for after it was
ready. -/
theorem history_delivers_early_and_late :
    let early := Markup.sanitize .preview "early"
    let late := Markup.sanitize .preview "late"
    let ops : List Operation :=
      [.update early, .contextCreated, .takeOutbox, .receive .ready, .update late, .takeOutbox]
    (new.history ops).2.phase ≠ .closed ∧
      (drained (new.history ops).1 ++ (new.history ops).2.outbox
        ++ (new.history ops).2.pending).filter HostMessage.isUpdate
        = [.update 1 early, .update 2 late] := by
  intro early late ops
  have hopen : (new.history ops).2.phase ≠ .closed := by decide
  exact ⟨hopen, (history_delivers_in_order ops).1 hopen⟩

end Session

end SafePreview
