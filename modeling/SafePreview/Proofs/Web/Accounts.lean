import SafePreview.Proofs.Web.Runs

/-!
# What becomes of every push

The books of a server are kept for the sake of what is said here. `Accounts` is the part of them
that can be checked from outside: given the requests that arrived and what could be seen, there is
a list of pushes that sessions took, and this list explains every message on a socket and every
response to a push. Its entries carry all that has to fit together, as one preview goes into the
response with its map and to the context with its markup, and one receipt is told to the request
and numbers the message.

A push that is answered with an error is not on the list, which says that nothing ever comes of it,
and the error says why: the push is not understood, or no registered session was called so when it
arrived (`Server.Misses`), or its blocks cannot be rendered, or its session is closed. That nothing
was done for it either is said of the moves: those in which a push gets on or is given up, and the
one in which it is refused, leave all sessions alone (`Server.LeavesAlone`).

Whoever made a push may go away before it is answered. The push may be taken all the same, if its
content was in the channel by then, and it is the only kind that is taken without an answer.
-/

namespace SafePreview

open Markup (Policy SafeMarkup)

section Lives

variable [Channels]

namespace Link

/-- **All that a link holds for its context** are the handshake and contents that were taken. -/
theorem Flow.mem_sequence {heard : Prop} {size : Nat} {got handed : List HostMessage}
    {contents : List SafeMarkup} {l : Link} (h : Flow heard size got handed contents l)
    {m : HostMessage} (hm : m ∈ l.outbound ++ l.unsent ++ l.session.outbox ++ l.session.pending) :
    m ∈ sequence contents := by
  have hsent : ∀ m ∈ handed ++ l.unsent ++ l.session.outbox, m ∈ sequence contents :=
    h.ledger.prefix_sequence.subset
  rcases List.mem_append.1 hm with hm | hm
  · refine hsent m ?_
    rw [List.append_assoc] at hm ⊢
    rcases List.mem_append.1 hm with hm | hm
    · exact List.mem_append_left _ (h.begins.subset (List.mem_append_right _ hm))
    · exact List.mem_append_right _ hm
  · -- a closed session keeps nothing that waits, and an open one is accounted for in full
    by_cases hopen : l.session.phase = .closed
    · cases h.ledger with
      | closed _ _ _ pending =>
        rw [pending] at hm
        cases hm
      | uninitialized phase | handshaking phase | ready phase =>
        exact absurd (hopen.symm.trans phase) (by decide)
    · have hflow := List.mem_append_right (handed ++ l.unsent ++ l.session.outbox) hm
      rw [h.ledger.flow hopen] at hflow
      split at hflow
      · exact List.mem_cons_of_mem _ hflow
      · exact hflow

end Link

variable [ParentOrder]

namespace Server

/-- What a session sends of all that it took: the handshake, and each content with the revision of
its receipt. -/
def messagesOf (index : Nat) (took : List Taken) : List HostMessage :=
  .handshake :: (takenBy index took).map Taken.message

/-- **An account of all pushes** among the requests `asked`, where `took` lists what the sessions
took. The requests with the tickets in `gone` are those whose makers went away, and a text that
stands with a ticket in `unknown` is one by which that request found no session. -/
structure Accounts (policy : Policy) (asked : List Request) (unknown : Nat → String → Prop)
    (gone : List Nat) (seen : List Reaction) (took : List Taken) (s : Server) : Prop where
  /-- All that was taken was pushed, and to the session that took it, and is rendered from the
  blocks of that push. -/
  pushed : ∀ p ∈ took, ∃ r, asked[p.ticket]? = some r ∧ r.Pushes policy p.id p.preview ∧
    s.HasId p.session p.id
  /-- No push was taken twice, be it by one session or by two. -/
  once : (took.map (·.ticket)).Nodup
  /-- A session takes one push after the other under the revisions 1, 2, 3 and so on, -/
  revisions : ∀ i, (takenBy i took).map (·.receipt.revision)
    = List.range' 1 (takenBy i took).length
  /-- and nothing else has used up a revision. -/
  next : ∀ i o, s.host.session? i = some o → o.link.session.phase ≠ .closed →
    o.link.session.nextRevision = (takenBy i took).length + 1
  /-- The messages put on a socket are the first that its session sends. -/
  delivered : ∀ i, written i seen <+: messagesOf i took
  /-- All that is on its way is of this kind, wherever it waits, -/
  underWay : ∀ i o, s.host.session? i = some o →
    ∀ m ∈ o.link.outbound ++ o.link.unsent ++ o.link.session.outbox ++ o.link.session.pending,
      m ∈ messagesOf i took
  /-- and nothing is lost as long as the session is open and its socket can be written to. -/
  kept : ∀ i o, s.host.session? i = some o → o.link.session.phase ≠ .closed →
    o.link.listening = true → o.link.started = true →
    written i seen ++ o.link.outbound ++ o.link.unsent ++ o.link.session.outbox
      ++ o.link.session.pending = messagesOf i took
  /-- No request is answered twice. -/
  answeredOnce : ((responded seen).map (·.1)).Nodup
  /-- Each push that was taken was answered with its receipt and the map of its preview, if whoever
  made it was still there. -/
  given : ∀ p ∈ took, (p.ticket, p.response) ∈ responded seen ∨ p.ticket ∈ gone
  /-- A push that was answered was taken and so answered, or the answer says why it failed, and
  nothing ever came of it. -/
  answered : ∀ ticket response r, (ticket, response) ∈ responded seen → asked[ticket]? = some r →
    r.IsPush → (response.status = 200 ∧ ∃ p ∈ took, p.ticket = ticket ∧ p.response = response) ∨
      (response.status ≠ 200 ∧ r.FailsWith policy (unknown ticket) s.HasClosed response ∧
        ∀ p ∈ took, p.ticket ≠ ticket)

namespace Books

variable {policy : Policy} {asked : List Request} {unknown : Nat → String → Prop}
  {seen : List Reaction} {took : List Taken} {left : List Awaited} {s : Server} {i : Nat}

/-- The contents that a session took are numbered as their receipts are. -/
theorem sequence_contentsOf (h : Books policy asked unknown seen took left s) (i : Nat) :
    sequence (contentsOf i took) = messagesOf i took := by
  rw [sequence, messagesOf, numbered, contentsOf]
  refine congrArg _ (List.ext_getElem (by simp) fun n hn hn' => ?_)
  rw [List.length_map] at hn'
  have hrevision : ((takenBy i took)[n]).receipt.revision = n + 1 := by
    have hnth := congrArg (·[n]?) (h.revisions i)
    simpa [hn', Nat.add_comm] using hnth
  rw [List.getElem_mapIdx, List.getElem_map, List.getElem_map, Taken.message, hrevision]

/-- One response at most is given to a ticket. -/
theorem eq_response (h : Books policy asked unknown seen took left s) {ticket : Nat}
    {response response' : Response} (hmem : (ticket, response) ∈ responded seen)
    (hmem' : (ticket, response') ∈ responded seen) : response = response' := by
  have htickets := h.tickets
  rw [ticketsOf, List.nodup_append] at htickets
  exact (Prod.ext_iff.1 (List.inj_on_of_nodup_map htickets.1 hmem hmem' rfl)).2

/-- What was taken is answered with nothing else. -/
theorem response_of_taken (h : Books policy asked unknown seen took left s) {p : Taken}
    (hp : p ∈ took) {response : Response} (hmem : (p.ticket, response) ∈ responded seen) :
    response = p.response := by
  rcases h.given p hp with hgiven | hleft
  · exact h.eq_response hmem (mem_responded.2 hgiven)
  · -- who went away has no response
    have htickets := h.tickets
    rw [ticketsOf, List.nodup_append, List.map_append, List.append_assoc] at htickets
    exact absurd rfl (htickets.2.2 _ (List.mem_map_of_mem (f := Prod.fst) hmem) _
      (List.mem_append_right _ (List.mem_append_left _ hleft)))

/-- **What the books account for.** -/
theorem accounts (h : Books policy asked unknown seen took left s) {gone : List Nat}
    (hgone : ∀ a ∈ left, a.ticket ∈ gone) :
    Accounts policy asked unknown gone seen took s where
  pushed := h.taken
  once := h.once
  revisions := h.revisions
  next i o ho hopen := by
    obtain ⟨size, handed, hflow⟩ := (h.sessions i o ho).flow
    rw [hflow.ledger.nextRevision_eq hopen, contentsOf, List.length_map]
  delivered i := by
    cases ho : s.host.session? i with
    | none =>
      rw [(h.beyond i ho).1]
      exact List.nil_prefix
    | some o =>
      obtain ⟨size, handed, hflow⟩ := (h.sessions i o ho).flow
      rw [← h.sequence_contentsOf]
      have hsent := hflow.ledger.prefix_sequence
      rw [List.append_assoc] at hsent
      have hhanded := (List.prefix_append _ _).trans hsent
      exact ((List.prefix_append _ _).trans hflow.begins).trans hhanded
  underWay i o ho m hm := by
    obtain ⟨size, handed, hflow⟩ := (h.sessions i o ho).flow
    rw [← h.sequence_contentsOf]
    exact hflow.mem_sequence hm
  kept i o ho hopen hlistening hstarted := by
    obtain ⟨size, handed, hflow⟩ := (h.sessions i o ho).flow
    rw [hflow.eq_due hopen hlistening, Link.due, if_pos hstarted, h.sequence_contentsOf]
  answeredOnce := by
    have htickets := h.tickets
    rw [ticketsOf, List.nodup_append] at htickets
    exact htickets.1
  given p hp := (h.given p hp).imp mem_responded.2 fun hleft => by
    obtain ⟨a, ha, hticket⟩ := List.mem_map.1 hleft
    exact hticket ▸ hgone a ha
  answered ticket response r hmem hr hpush := by
    rcases h.answered ticket response r (mem_responded.1 hmem) hr hpush with
      ⟨p, hp, hticket, rfl⟩ | hfails
    · exact .inl ⟨rfl, p, hp, hticket, rfl⟩
    · refine .inr ⟨hfails.status_ne, hfails, fun p hp hticket => hfails.status_ne ?_⟩
      rw [← hticket] at hmem
      rw [h.response_of_taken hp hmem]
      rfl

end Books

/-! ## Moves that touch no session -/

/-- **A move in which a push gets on**: it arrives, goes on with the session that it has found,
brings its content in, or gets into the channel of commands, or whoever made it goes away. -/
def Move.IsOfPush : Move → Prop
  | .event (.arrive r) => r.IsPush
  | .event (.proceed _) | .event (.post _) | .event (.vanish _) | .event (.admitCommand _) => True
  | _ => False

/-- No push touches a session by getting on. -/
theorem leavesAlone_of_isOfPush (s : Server) {m : Move} (h : m.IsOfPush) :
    s.LeavesAlone (s.move m) := by
  cases m with
  | work i w => exact h.elim
  | event e =>
    cases e with
    | arrive r => exact s.leavesAlone_arrive h
    | proceed ticket => exact s.leavesAlone_proceed ticket
    | post ticket => exact s.leavesAlone_post ticket
    | vanish ticket => exact s.leavesAlone_vanish ticket
    | admitCommand i => exact s.leavesAlone_act i fun l => l.undisturbed_step nofun nofun nofun
    | connect | connectInVain | speak | take | hangUp | hear | leave | forward | turn
    | admitMessage | elapse | sweep => exact h.elim

/-- **What becomes of all pushes in every life of a server**, whatever happens between the parts of
turns and in which order. There is an account of them: each session takes pushes that name it, no
push is taken twice, and what was taken by a session is what its socket carries, in order, each
content under the revision of its receipt. A push is answered with 200 if it was taken, with its
receipt and with the map of the preview that was taken, unless whoever made it has gone away. One
that is answered with another status is answered with the reason, with 404 if it named no session
that was registered when it arrived, with 422 if its blocks cannot be rendered and with 409 if its
session is closed, and nothing ever comes of it: in none of the moves in which a push gets on is any
session touched, nor is there one in which a push is answered with an error. -/
theorem life_accounts_for_pushes (settings : ServerSettings) (limits : Limits) (policy : Policy)
    (files : Files) (assetRoot : String) (sweep : Option Sweep) (moves : List Move) :
    let new : Server := { new settings limits policy files assetRoot with sweep }
    let s := (new.life moves).1
    (∃ took, Accounts policy (arrivals moves) (new.Misses moves) (departures moves)
      (new.life moves).2 took s) ∧
    (∀ m, m.IsOfPush ∨ Fails (arrivals (moves ++ [m])) (s.move m).2 → s.LeavesAlone (s.move m)) ∧
    (∀ events, moves = events.map .event → new.life moves = new.run events) := by
  intro new s
  refine ⟨?_, fun m hm => ?_, ?_⟩
  · obtain ⟨took, left, hbooks, hgone⟩ :=
      (books_new settings limits policy files assetRoot sweep (new.Misses moves)).life moves
        fun before r after hmoves text hmiss =>
          ⟨before, r, after, hmoves, (Nat.zero_add _).symm, hmiss⟩
    exact ⟨took, hbooks.accounts fun a ha => (hgone a ha).resolve_left List.not_mem_nil⟩
  · rcases hm with hpush | hfails
    · exact s.leavesAlone_of_isOfPush hpush
    · -- why it failed does not matter here
      obtain ⟨took, left, hbooks, -⟩ :=
        (books_new settings limits policy files assetRoot sweep fun _ _ => True).life moves
          fun _ _ _ _ _ _ => trivial
      obtain ⟨left', hkept, -⟩ := hbooks.move m fun _ _ _ _ => trivial
      rw [arrivals_append] at hfails
      exact hkept.spares hfails
  · rintro events rfl
    exact new.life_events events

end Server

end Lives

namespace Server

/-- Three pushes to a session that is not ready yet. The first cannot be rendered, and whoever made
the last goes away when its content is in the channel. -/
example :
    let new : Server := .new .standard .standard .preview ⟨.directory [], []⟩ ""
    let push (body : String) : Event := .arrive
      ⟨.post, ⟨"/api/preview/sessions/00000000000000000000000000000007/content", ""⟩,
        [("content-type", "application/json")], body⟩
    let lived := new.run
      [.connect (.ofNat 7), .turn 0, push "[[\x7b\"id\":\"v\",\"type\":\"video\"\x7d]]", .proceed 0,
        push "[[]]", .proceed 1, .post 1, .turn 0, push "[[]]", .proceed 2, .post 2, .vanish 2,
        .turn 0, .speak 0 (.text "[\"preview_ready\"]"), .hear 0, .turn 0, .forward 0, .forward 0,
        .forward 0]
    (responded lived.2).map (fun given => (given.1, given.2.status)) = [(0, 422), (1, 200)] ∧
      (written 0 lived.2).map (·.revision?) = [none, some 1, some 2] := by
  decide +kernel

end Server

end SafePreview
