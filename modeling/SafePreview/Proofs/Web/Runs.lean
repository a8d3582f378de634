import SafePreview.Proofs.Web.Requests

/-!
# Every move keeps the books

The moves of a server that are left are those of its sockets, of the keepers and of time. Frames
come in and go out, and one of these carries a message out of a session: the frame and the pulse in
which the message is read are entered together, as what was put on a socket is what its session let
go.

So the books are kept in every move and in every life (`Server.Books.life`), and every life can be
looked at as a list of requests with an account of what became of each.
-/

namespace SafePreview

open Markup (Policy)

namespace Server

/-! ## Those who come and those who go -/

/-- **The requests that arrive**, in order. -/
def arrivals (moves : List Move) : List Request :=
  moves.filterMap fun
    | .event (.arrive r) => some r
    | _ => none

/-- **The tickets of those who went away**, in order. -/
def departures (moves : List Move) : List Nat :=
  moves.filterMap fun
    | .event (.vanish ticket) => some ticket
    | _ => none

theorem arrivals_append (first more : List Move) :
    arrivals (first ++ more) = arrivals first ++ arrivals more := List.filterMap_append

theorem departures_append (first more : List Move) :
    departures (first ++ more) = departures first ++ departures more := List.filterMap_append

variable [Channels]

/-- Nobody is answered with a frame. -/
theorem responded_write (s : Server) (i : Nat) (frame : Written) :
    responded (s.write i frame).2 = [] := by
  rw [write]
  split
  · rfl
  · rfl

/-- Nobody is answered when a context closes its session. -/
theorem responded_close (s : Server) (i : Nat) : responded (s.act i (.close 0)).2 = [] := by
  have htold (l : Link) : (l.askClose 0).2 ⊆ [.answered 0 .done] := by
    rw [Link.askClose]
    split
    · exact List.Subset.refl _
    · dsimp only
      split
      · exact List.Subset.refl _
      · exact List.nil_subset _
  refine List.eq_nil_iff_forall_not_mem.2 fun given hmem => ?_
  obtain ⟨ticket, response⟩ := given
  rw [mem_responded, act_eq_beat, beat] at hmem
  split at hmem
  · cases hmem
  · rename_i o _
    obtain ⟨a, -, answer, hanswer, -⟩ :=
      (s.pulseOf_concludes i o (.event (.close 0))).responses ticket response hmem
    exact Nat.succ_ne_zero _ (Link.mem_of_answered (htold o.link) hanswer)

variable [ParentOrder] {policy : Policy} {asked : List Request} {unknown : Nat → String → Prop}
  {seen : List Reaction} {took : List Taken} {left : List Awaited} {s : Server} {i : Nat}

namespace Books

/-! ## Frames -/

/-- What happens at a socket is no business of the books, -/
theorem setSocket (h : Books policy asked unknown seen took left s) (i : Nat)
    (f : Socket → Socket) :
    Books policy asked unknown seen took left (s.setSocket i f) :=
  h.carryQuietly (sameEntries_of_host rfl) rfl rfl rfl rfl

/-- nor is a frame that carries no message. -/
theorem write (h : Books policy asked unknown seen took left s) (i : Nat) (frame : Written)
    (hframe : ∀ message, frame ≠ .message message) :
    Kept policy asked unknown seen left s (s.write i frame) := by
  have hnone (j : Nat) : written j [.wrote i frame] = [] := by
    cases frame with
    | message m => exact absurd rfl (hframe m)
    | notice id => rfl
    | pong bytes => rfl
    | close => rfl
  rw [Server.write]
  split
  · have hcarried : Books policy asked unknown (seen ++ [.wrote i frame]) took left
        (s.setSocket i (·.write frame)) :=
      h.carry (sameEntries_of_host rfl) rfl rfl rfl rfl hnone rfl
    exact kept_of_unanswered hcarried rfl
  · exact h.kept_of_silent

/-- The server stops to write to a socket. -/
theorem stopWriting (h : Books policy asked unknown seen took left s) (i : Nat) :
    Books policy asked unknown seen took left (s.stopWriting i) :=
  (h.setSocket i _).silently i (e := .deafen) (fun _ => rfl) rfl rfl

/-- **The server reads a frame.** -/
theorem hearFrame (h : Books policy asked unknown seen took left s) (i : Nat)
    (frame : ClientFrame) :
    Kept policy asked unknown seen left s (s.hearFrame i frame) := by
  cases frame with
  | close => exact (h.release i).kept_of_silent
  | binary bytes => exact h.kept_of_silent
  | ping bytes => exact h.write i _ nofun
  | text content =>
    rw [Server.hearFrame]
    split
    · rename_i message _
      rw [act_eq_beat]
      exact h.beat_of_others i (p := .event (.send 0 message)) rfl
        (List.forall_mem_singleton.2 (.inl rfl)) nofun
    · exact h.kept_of_silent

theorem hear (h : Books policy asked unknown seen took left s) (i : Nat) :
    Kept policy asked unknown seen left s (s.hear i) := by
  rw [Server.hear]
  split
  · split
    · split
      · exact ((h.setSocket i _).hearFrame i _).of_host rfl
      · exact (h.release i).kept_of_silent
    · exact h.kept_of_silent
  · exact h.kept_of_silent

theorem leave (h : Books policy asked unknown seen took left s) (i : Nat) :
    Books policy asked unknown seen took left (s.leave i) := by
  rw [Server.leave]
  split
  · split
    · exact h.release i
    · exact h
  · exact h

/-- **A message is passed on**: its frame is what was read of the session. -/
theorem forwardMessage (h : Books policy asked unknown seen took left s) {o : Opened}
    (ho : s.host.session? i = some o) {message : HostMessage} {rest : List HostMessage}
    (houtbound : o.link.outbound = message :: rest)
    (hconnected : (s.sockets[i]?).any (·.connected) = true) :
    Kept policy asked unknown seen left s
      (andThen (s.act i .read) (·.write i (.message message))) := by
  -- a context that can read no more has nothing left to read
  have hlistening : o.link.listening = true := by
    obtain ⟨size, handed, hflow⟩ := (h.sessions i o ho).flow
    by_contra hdeaf
    have hnil := hflow.deaf (Bool.eq_false_iff.2 hdeaf)
    rw [houtbound] at hnil
    cases hnil
  have hread : (o.link.pulse (.event .read)).2 = [.read message] := by
    show o.link.read.2 = _
    rw [Link.read, houtbound]
    dsimp only
    rw [if_pos hlistening]
  have hact : s.act i .read = s.pulseOf i o (.event .read) := by
    rw [act_eq_beat, Server.beat, ho]
    dsimp only
    rw [hread]
    rfl
  have hwrite : (s.pulseOf i o (.event .read)).1.write i (.message message)
      = ((s.pulseOf i o (.event .read)).1.setSocket i (·.write (.message message)),
        [.wrote i (.message message)]) := by
    have hsockets : (s.pulseOf i o (.event .read)).1.sockets = s.sockets := by
      rw [(s.pulseOf_concludes i o _).server]
    rw [Server.write, hsockets, if_pos hconnected]
  have hwritten (j : Nat) : written j [.wrote i (.message message)]
      = if j = i then Link.received (o.link.pulse (.event .read)).2 else [] := by
    rw [hread]
    by_cases hj : i = j
    · rw [if_pos hj.symm, hj]
      simp [written, Link.received]
    · rw [if_neg (Ne.symm hj)]
      simp [written, hj]
  have hfits := h.fits_of_others (p := .event .read) ho rfl (List.forall_mem_nil _)
  obtain ⟨⟨took', hbooks⟩, -⟩ := h.pulseOf hfits hwritten rfl
  -- nobody is told anything when a context reads
  have hnone : responded (s.pulseOf i o (.event .read)).2 = [] := by
    rw [Server.pulseOf, hread]
    rfl
  rw [andThen, hact, hwrite]
  refine kept_of_unanswered (hbooks.setSocket i _) ?_
  rw [responded_append, hnone]
  rfl

theorem forward (h : Books policy asked unknown seen took left s) (i : Nat) :
    Kept policy asked unknown seen left s (s.forward i) := by
  rw [Server.forward]
  split
  · rename_i socket o hsocket ho
    split
    · split
      · rename_i message rest houtbound
        split
        · rename_i hconnected
          exact h.forwardMessage ho houtbound (by rw [hsocket]; exact hconnected)
        · exact (h.stopWriting i).kept_of_silent
      · obtain ⟨took', hclosed⟩ := (h.write i .close nofun).books
        exact (hclosed.stopWriting i).kept_of_unanswered (s.responded_write i .close)
    · exact h.kept_of_silent
  · exact h.kept_of_silent

/-! ## Sessions and time -/

/-- **A socket is opened**, and with it a session. -/
theorem connect (h : Books policy asked unknown seen took left s) (id : SessionId) :
    Kept policy asked unknown seen left s (s.connect id) := by
  rw [Server.connect]
  have hopened : Books policy asked unknown seen took left { s with
      host := s.host.openSession id
      sockets := s.sockets ++ [Socket.opened]
      turned := s.turned ++ [s.host.clock] } :=
    (h.openSession id).carryQuietly (sameEntries_of_host rfl) rfl rfl rfl rfl
  obtain ⟨took', hbooks⟩ := (hopened.write s.host.sessions.length (.notice id) nofun).books
  exact hbooks.kept_of_unanswered (responded_write _ _ _)

/-- A socket is opened in vain, and its session closed at once. -/
theorem connectInVain (h : Books policy asked unknown seen took left s) (id : SessionId) :
    Kept policy asked unknown seen left s (s.connectInVain id) := by
  rw [Server.connectInVain]
  have hopened : Books policy asked unknown seen took left { s with
      host := s.host.openSession id
      sockets := s.sockets ++ [Socket.opened.hangUp]
      turned := s.turned ++ [s.host.clock] } :=
    (h.openSession id).carryQuietly (sameEntries_of_host rfl) rfl rfl rfl rfl
  have hbeat := hopened.beat_of_others s.host.sessions.length (p := .event (.close 0)) rfl
    (List.forall_mem_singleton.2 (.inl rfl)) nofun
  obtain ⟨took', hclosed⟩ := hbeat.books
  have hnone := responded_close { s with
      host := s.host.openSession id
      sockets := s.sockets ++ [Socket.opened.hangUp]
      turned := s.turned ++ [s.host.clock] } s.host.sessions.length
  rw [act_eq_beat] at hnone ⊢
  exact (hclosed.release _).kept_of_unanswered hnone

/-- The keeper of a session takes a turn. -/
theorem turn (h : Books policy asked unknown seen took left s) (i : Nat) :
    Kept policy asked unknown seen left s (s.turn i) := by
  rw [Server.turn]
  split
  · have hturned : Books policy asked unknown seen took left
        { s with turned := s.turned.set i s.host.clock } :=
      h.carryQuietly (sameEntries_of_host rfl) rfl rfl rfl rfl
    have hbeat := hturned.beat_of_others i (p := .event .turn) rfl (List.forall_mem_nil _) nofun
    rw [act_eq_beat]
    exact hbeat.of_host rfl
  · exact h.kept_of_silent

/-- Time passes. -/
theorem elapse (h : Books policy asked unknown seen took left s) (ms : Nat) :
    Books policy asked unknown seen took left { s with host := s.host.elapse ms } :=
  h.carryQuietly (sameEntries_of_map (fun _ => List.getElem?_map) fun _ _ =>
    ⟨rfl, ⟨rfl, rfl, rfl, rfl, rfl, rfl⟩, ⟨rfl, rfl, rfl⟩, rfl, rfl⟩) rfl rfl rfl rfl

/-- Closed sessions leave the register. -/
theorem sweepUp (h : Books policy asked unknown seen took left s) (most : Nat) :
    Books policy asked unknown seen took left (s.sweepUp most) := by
  rw [Server.sweepUp]
  split
  · dsimp only
    split
    · exact h
    · exact h.carryQuietly (sameEntries_of_map (fun _ => List.getElem?_map) fun _ _ =>
        sameEntry_of_link rfl rfl) rfl rfl rfl rfl
  · exact h

/-- What a keeper does by itself. -/
theorem work (h : Books policy asked unknown seen took left s) (i : Nat) (w : Link.Work) :
    Kept policy asked unknown seen left s (s.beat i w.pulse) := by
  have hasks : w.pulse.asks = [] := by cases w <;> rfl
  have hothers : w.pulse.others = [] := by cases w <;> rfl
  have hread : w.pulse ≠ .event .read := by cases w <;> nofun
  exact h.beat_of_others i hasks (hothers ▸ List.forall_mem_nil _) hread

end Books

/-! ## Lives -/

/-- **A request found no session by a text**, in a life: none that was registered when it arrived
was called so. -/
def Misses (s : Server) (moves : List Move) (ticket : Nat) (text : String) : Prop :=
  ∃ before r after, moves = before ++ .event (.arrive r) :: after ∧
    (arrivals before).length = ticket ∧ ¬ (s.life before).1.Knows text

/-- Where no request arrives, all that arrived are known. -/
theorem Kept.of_append_nil {done : Server × List Reaction}
    (h : Kept policy asked unknown seen left s done) :
    Kept policy (asked ++ []) unknown seen left s done := (List.append_nil asked).symm ▸ h

namespace Books

/-- **Every move keeps the books**, and a push that fails in it leaves all sessions alone. -/
theorem move (h : Books policy asked unknown seen took left s) (m : Move)
    (hunknown : ∀ r, m = .event (.arrive r) → ∀ text, ¬ s.Knows text → unknown asked.length text) :
    ∃ left', Kept policy (asked ++ arrivals [m]) unknown seen left' s (s.move m) ∧
      ∀ a ∈ left', a ∈ left ∨ a.ticket ∈ departures [m] := by
  -- whoever stood in the books as gone still does, and a move adds one at the most
  have hsame {done : Server × List Reaction}
      (hkept : Kept policy (asked ++ arrivals [m]) unknown seen left s done) :
      ∃ left', Kept policy (asked ++ arrivals [m]) unknown seen left' s done ∧
        ∀ a ∈ left', a ∈ left ∨ a.ticket ∈ departures [m] :=
    ⟨left, hkept, fun _ ha => .inl ha⟩
  cases m with
  | work i w => exact hsame (h.work i w).of_append_nil
  | event e =>
    cases e with
    | arrive r => exact hsame (h.arrive r (hunknown r rfl))
    | proceed ticket => exact hsame (h.proceed ticket).of_append_nil
    | post ticket => exact hsame (h.post ticket).of_append_nil
    | vanish ticket =>
      obtain ⟨left', hkept, hleft⟩ := h.vanish ticket
      exact ⟨left', hkept.of_append_nil, fun a ha =>
        (hleft a ha).imp_right List.mem_singleton.2⟩
    | connect id => exact hsame (h.connect id).of_append_nil
    | connectInVain id => exact hsame (h.connectInVain id).of_append_nil
    | speak i frame => exact hsame (h.setSocket i _).kept_of_silent.of_append_nil
    | take i => exact hsame (h.setSocket i _).kept_of_silent.of_append_nil
    | hangUp i => exact hsame (h.setSocket i _).kept_of_silent.of_append_nil
    | hear i => exact hsame (h.hear i).of_append_nil
    | leave i => exact hsame (h.leave i).kept_of_silent.of_append_nil
    | forward i => exact hsame (h.forward i).of_append_nil
    | turn i => exact hsame (h.turn i).of_append_nil
    | admitCommand i =>
      have hbeat := h.beat_of_others i (p := .event .admitCommand) rfl (List.forall_mem_nil _) nofun
      rw [Server.move, step, act_eq_beat]
      exact hsame hbeat.of_append_nil
    | admitMessage i =>
      have hbeat := h.beat_of_others i (p := .event .admitMessage) rfl (List.forall_mem_nil _) nofun
      rw [Server.move, step, act_eq_beat]
      exact hsame hbeat.of_append_nil
    | elapse ms => exact hsame (h.elapse ms).kept_of_silent.of_append_nil
    | sweep most => exact hsame (h.sweepUp most).kept_of_silent.of_append_nil

/-- **Every life keeps the books.** -/
theorem life (h : Books policy asked unknown seen took left s) (moves : List Move)
    (hunknown : ∀ before r after, moves = before ++ .event (.arrive r) :: after →
      ∀ text, ¬ (s.life before).1.Knows text →
        unknown (asked.length + (arrivals before).length) text) :
    ∃ took' left', Books policy (asked ++ arrivals moves) unknown (seen ++ (s.life moves).2) took'
        left' (s.life moves).1 ∧ ∀ a ∈ left', a ∈ left ∨ a.ticket ∈ departures moves := by
  induction moves generalizing s asked seen took left with
  | nil =>
    refine ⟨took, left, ?_, fun _ ha => .inl ha⟩
    rw [show arrivals [] = [] from rfl, List.append_nil]
    exact (List.append_nil seen).symm ▸ h
  | cons m moves ih =>
    have hnow : ∀ r, m = .event (.arrive r) → ∀ text, ¬ s.Knows text →
        unknown asked.length text := by
      rintro r rfl text htext
      exact hunknown [] r moves rfl text htext
    obtain ⟨first, hkept, hgone⟩ := h.move m hnow
    obtain ⟨took', hfirst⟩ := hkept.books
    have hlater : ∀ before r after, moves = before ++ .event (.arrive r) :: after →
        ∀ text, ¬ ((s.move m).1.life before).1.Knows text →
          unknown ((asked ++ arrivals [m]).length + (arrivals before).length) text := by
      rintro before r after rfl text htext
      rw [List.length_append, Nat.add_assoc, ← List.length_append, ← arrivals_append]
      exact hunknown (m :: before) r after rfl text htext
    obtain ⟨took'', left'', hmore, hgone'⟩ := ih hfirst hlater
    have harrivals : arrivals (m :: moves) = arrivals [m] ++ arrivals moves :=
      arrivals_append [m] moves
    have hdepartures : departures (m :: moves) = departures [m] ++ departures moves :=
      departures_append [m] moves
    refine ⟨took'', left'', ?_, fun a ha => ?_⟩
    · rw [Server.life, harrivals, ← List.append_assoc]
      rw [List.append_assoc seen] at hmore
      exact hmore
    · rw [hdepartures, List.mem_append, ← or_assoc]
      exact (hgone' a ha).imp_left (hgone a)

end Books

/-- The books of a server to which nothing happened yet. -/
theorem books_new (settings : ServerSettings) (limits : Limits) (policy : Policy) (files : Files)
    (assetRoot : String) (sweep : Option Sweep) (unknown : Nat → String → Prop) :
    Books policy [] unknown [] [] [] { new settings limits policy files assetRoot with sweep } where
  renders := rfl
  requests := rfl
  found := List.forall_mem_nil _
  awaited := List.forall_mem_nil _
  tickets := List.nodup_nil
  bound := List.forall_mem_nil _
  sessions i o ho := by
    cases List.getElem?_nil.symm.trans ho
  beyond _ _ := ⟨rfl, rfl⟩
  taken := List.forall_mem_nil _
  once := List.nodup_nil
  ended := List.forall_mem_nil _
  revisions _ := rfl
  given := List.forall_mem_nil _
  answered _ _ _ hmem := absurd hmem List.not_mem_nil

end Server

end SafePreview
