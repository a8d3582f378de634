import SafePreview.Proofs.Session.Flow
import SafePreview.Proofs.Session.Keeper

/-!
# What a link delivers

The flow of messages is kept by every pulse, and so by every life of a link, whatever happens in it
and in which order. This module says what the context gets of it (`life_delivers_in_order`): as long
as it can read and the session is open, nothing is lost between the session and the context, and in
every case it gets the handshake and the contents from the first on, no content before it said that
it is ready and nothing that was not in the channel when the session was closed.

A life is over what can be seen of it. What the context read and what the session took are read off
the effects, so nothing is recorded in the link for the sake of these theorems.
-/

namespace SafePreview

open Markup (SafeMarkup)

namespace Link

section Lives

variable [Channels]

namespace Flow

variable {heard : Prop} {size : Nat} {read handed : List HostMessage}
  {contents : List SafeMarkup} {l : Link}

/-! ## Every pulse keeps the flow -/

/-- The context reads the oldest message of the channel. -/
theorem readNext (h : Flow heard size read handed contents l) :
    FlowAfter heard size read contents l.read := by
  unfold Link.read
  split
  · exact h.quietly ⟨rfl, rfl⟩
  · rename_i message rest houtbound
    split
    · have hmoved : read ++ [message] ++ rest = read ++ l.outbound := by
        rw [houtbound, List.append_assoc]
        rfl
      refine ⟨handed, ?_⟩
      show Flow heard size (read ++ [message]) handed (contents ++ []) { l with outbound := rest }
      rw [List.append_nil]
      exact {
        ledger := h.ledger
        begins := by rw [hmoved]; exact h.begins
        kept := by rw [hmoved]; exact h.kept
        deaf := fun hdeaf => by
          have hnil := h.deaf hdeaf
          rw [houtbound] at hnil
          cases hnil
        capacity := h.capacity
        room := by
          have hroom := h.room
          rw [houtbound, List.length_cons] at hroom
          exact Nat.le_of_succ_le hroom
        idle := h.idle
        begun := h.begun }
    · exact h.quietly ⟨rfl, rfl⟩

/-- The context goes away, and what is in the channel with it. -/
theorem deafen (h : Flow heard size read handed contents l) :
    Flow heard size read handed contents { l with listening := false, outbound := [] } where
  ledger := h.ledger
  begins := by
    rw [List.append_nil]
    exact (List.prefix_append read l.outbound).trans h.begins
  kept := nofun
  deaf _ := rfl
  capacity := h.capacity
  room := Nat.zero_le _
  idle := h.idle
  begun := h.begun

/-- **An event keeps the flow**, and leaves the outbox empty if it was. -/
theorem step (h : Flow heard size read handed contents l) (e : Event)
    (hready : l.HearsReady (l.step e).1 → heard) :
    FlowAfter heard size read contents (l.step e) ∧
      (l.session.outbox = [] → (l.step e).1.session.outbox = []) := by
  by_cases hread : e = .read
  · rw [hread]
    have hsession := (l.sameKeeper_step (e := .read) nofun).session
    exact ⟨h.readNext, fun houtbox => (congrArg Session.outbox hsession).trans houtbox⟩
  by_cases hdeafen : e = .deafen
  · rw [hdeafen]
    exact ⟨h.deafen.quietly ⟨rfl, rfl⟩, id⟩
  -- of the other events only a turn touches the session or the channel
  by_cases hturn : e = .turn
  · rw [hturn, Link.step] at hready ⊢
    cases hnext : l.turn? with
    | none => exact ⟨h.quietly ⟨rfl, rfl⟩, id⟩
    | some next =>
      rw [hnext] at hready
      obtain ⟨hflow, houtbox⟩ := h.turn hnext hready
      exact ⟨hflow, fun _ => houtbox⟩
  obtain ⟨hsame, hquiet⟩ := l.agrees_step hread hdeafen hturn
  refine ⟨(h.of_agrees hsame).quietly hquiet, fun houtbox => ?_⟩
  rw [hsame.session, houtbox]

/-- **A pulse keeps the flow**, if the context counts as heard where it is heard that it is
ready. -/
theorem pulse (h : Flow heard size read handed contents l) (p : Pulse)
    (hready : l.HearsReady (l.pulse p).1 → heard) :
    FlowAfter heard size read contents (l.pulse p) := by
  have hquiet : IsQuiet [] := ⟨rfl, rfl⟩
  cases p with
  | event e => exact (h.step e hready).1
  | create =>
    rw [Link.pulse]
    split
    · exact h.quietly hquiet
    · rename_i hnot
      exact (h.create (by rwa [Bool.not_eq_true] at hnot)).quietly hquiet
  | part p =>
    rw [Link.pulse] at hready ⊢
    split
    · rename_i hwork
      rw [if_pos hwork] at hready
      exact h.part hwork.1 hwork.2 p hready
    · exact h.quietly hquiet
  | discard =>
    rw [Link.pulse]
    split
    · rename_i hclosed
      exact (h.discard hclosed).quietly hquiet
    · exact h.quietly hquiet
  | publish => exact (h.of_agrees (agrees_publish l)).quietly hquiet
  | stop =>
    rw [Link.pulse]
    split
    · exact h.stop
    · exact h.quietly hquiet

/-! ## Every life keeps the flow -/

/-- **A life keeps the flow**, if the context counts as heard wherever it is heard that it is
ready. -/
theorem life (h : Flow heard size read handed contents l) (pulses : List Pulse)
    (hready : ∀ before p after, pulses = before ++ p :: after →
      (l.life before).1.HearsReady ((l.life before).1.pulse p).1 → heard) :
    FlowAfter heard size read contents (l.life pulses) := by
  induction pulses generalizing l read handed contents with
  | nil => exact h.quietly ⟨rfl, rfl⟩
  | cons p pulses ih =>
    obtain ⟨handed', hfirst⟩ := h.pulse p (hready [] p pulses rfl)
    obtain ⟨handed'', hmore⟩ := ih hfirst fun before q after hpulses =>
      hready (p :: before) q after (by rw [hpulses]; rfl)
    refine ⟨handed'', ?_⟩
    rw [Link.life, received_append, accepted_append, ← List.append_assoc, ← List.append_assoc]
    exact hmore

/-- Between whole turns the outbox is empty. -/
theorem outbox_run (h : Flow True size read handed contents l) (houtbox : l.session.outbox = [])
    (events : List Event) : (l.run events).1.session.outbox = [] := by
  induction events generalizing l read handed contents with
  | nil => exact houtbox
  | cons e events ih =>
    obtain ⟨⟨handed', hfirst⟩, hkept⟩ := h.step e fun _ => trivial
    exact ih hfirst (hkept houtbox)

end Flow

/-! ## From the close on -/

/-- To settle a turn closes the session only if nobody can read, and then leaves the channel as it
is. -/
theorem settleTurn_closing {l : Link} (h : l.settleTurn.session.phase = .closed) :
    l.settleTurn.outbound = l.outbound ∧ (l.session.phase = .closed ∨ l.listening = false) := by
  by_cases hopen : l.session.phase = .closed
  · rw [settleTurn_of_closed hopen]
    exact ⟨rfl, .inl hopen⟩
  · rw [settleTurn_of_open hopen] at h ⊢
    cases hlistening : l.listening with
    | true =>
      -- to collect and to hand over leave an open session open
      have hcollected : l.collect.listening = true := hlistening
      rw [drain_of_listening hcollected] at h
      exact absurd h hopen
    | false =>
      have hcollected : l.collect.listening = false := hlistening
      refine ⟨?_, .inr rfl⟩
      by_cases hunsent : l.collect.unsent = []
      · rw [drain_of_nil hunsent]
        rfl
      · rw [drain_of_deaf hcollected hunsent]
        rfl

/-- A turn that closes the session, or finds it closed, leaves the channel as it is. -/
theorem turn?_closing {l l' : Link} {effects : List Effect}
    (hturn : l.turn? = some (l', effects)) (hclosed : l'.session.phase = .closed) :
    l'.outbound = l.outbound ∧ received effects = [] := by
  rcases turn?_cases hturn with ⟨_, rfl, rfl⟩ | ⟨_, rfl, rfl⟩ | ⟨_, hopen, p, _, rfl, rfl⟩
  · refine ⟨?_, rfl⟩
    rw [start_eq] at hclosed ⊢
    split
    · rename_i hok
      rw [hok] at hclosed
      exact (settleTurn_closing hclosed).1
    · rfl
  · exact ⟨rfl, (isQuiet_stop l).1⟩
  · obtain ⟨_, hreceived, hframe⟩ := part_frame l p
    obtain ⟨houtbound, hreason⟩ := settleTurn_closing hclosed
    refine ⟨houtbound.trans ?_, hreceived⟩
    -- a part that hands over leaves the session open for a context that can read
    rcases hframe with hsame | ⟨hsession, hlistening⟩
    · exact hsame
    · rcases hreason with hphase | hdeaf
      · rw [hsession] at hphase
        exact absurd hphase hopen
      · exact absurd (hlistening.symm.trans hdeaf) (by decide)

/-- An event that closes the session, or finds it closed, only takes out of the channel what is
read, or all. -/
theorem step_closing {l : Link} {e : Event} (h : (l.step e).1.session.phase = .closed) :
    received (l.step e).2 ++ (l.step e).1.outbound <+: l.outbound := by
  by_cases hread : e = .read
  · rw [hread, step]
    unfold read
    split
    · exact List.prefix_rfl
    · rename_i houtbound
      split
      · rw [houtbound]
        exact List.prefix_rfl
      · exact List.prefix_rfl
  by_cases hdeafen : e = .deafen
  · rw [hdeafen]
    exact List.nil_prefix
  by_cases hturn : e = .turn
  · rw [hturn, step] at h ⊢
    cases hnext : l.turn? with
    | none => exact List.prefix_rfl
    | some next =>
      rw [hnext] at h
      obtain ⟨houtbound, hreceived⟩ := turn?_closing hnext h
      show received next.2 ++ next.1.outbound <+: l.outbound
      rw [hreceived, houtbound]
      exact List.prefix_rfl
  obtain ⟨hsame, hquiet⟩ := l.agrees_step hread hdeafen hturn
  rw [hquiet.1, hsame.outbound]
  exact List.prefix_rfl

/-- **Nothing enters the channel in a pulse that closes the session**, or finds it closed. -/
theorem pulse_closing {l : Link} {p : Pulse} (h : (l.pulse p).1.session.phase = .closed) :
    received (l.pulse p).2 ++ (l.pulse p).1.outbound <+: l.outbound := by
  cases p with
  | event e => exact step_closing h
  | create =>
    rw [pulse]
    split
    · exact List.prefix_rfl
    · exact List.prefix_rfl
  | part p =>
    rw [pulse] at h ⊢
    split
    · rename_i hwork
      rw [if_pos hwork] at h
      obtain ⟨_, hreceived, hsame | ⟨hsession, _⟩⟩ := part_frame l p
      · rw [hreceived, hsame]
        exact List.prefix_rfl
      · rw [hsession] at h
        exact absurd h hwork.2
    · exact List.prefix_rfl
  | discard =>
    rw [pulse]
    split
    · exact List.prefix_rfl
    · exact List.prefix_rfl
  | publish => exact List.prefix_rfl
  | stop =>
    rw [pulse]
    split
    · rw [(isQuiet_stop l).1]
      exact List.prefix_rfl
    · exact List.prefix_rfl

/-- **Nothing enters the channel after the close**, in any life. -/
theorem life_of_closed {l : Link} (h : l.session.phase = .closed) (pulses : List Pulse) :
    received (l.life pulses).2 ++ (l.life pulses).1.outbound <+: l.outbound := by
  induction pulses generalizing l with
  | nil => exact List.prefix_rfl
  | cons p pulses ih =>
    have hclosed : (l.pulse p).1.session.phase = .closed := by rwa [session_pulse_of_closed h]
    have hmore := ih hclosed
    rw [life, received_append, List.append_assoc]
    exact ((List.prefix_append_right_inj _).2 hmore).trans (pulse_closing hclosed)

/-- Nor from the pulse on that closes the session. -/
theorem life_closing {l : Link} {p : Pulse}
    (h : l.session.phase = .closed ∨ (l.pulse p).1.session.phase = .closed) (more : List Pulse) :
    received (l.life (p :: more)).2 ++ (l.life (p :: more)).1.outbound <+: l.outbound := by
  have hclosed : (l.pulse p).1.session.phase = .closed := by
    rcases h with hbefore | hafter
    · rwa [session_pulse_of_closed hbefore]
    · exact hafter
  rw [life, received_append, List.append_assoc]
  exact ((List.prefix_append_right_inj _).2 (life_of_closed hclosed more)).trans
    (pulse_closing hclosed)

/-! ## What the context gets -/

/-- **What is on its way to the context**, when `contents` were accepted: the handshake and the
contents in order, and nothing before the keeper begins. -/
def due (l : Link) (contents : List SafeMarkup) : List HostMessage :=
  if l.started then sequence contents else []

section Flow

variable {heard : Prop} {size : Nat} {got handed : List HostMessage}
  {contents : List SafeMarkup} {l : Link}

/-- **Nothing is lost** as long as the session is open and the context can read. -/
theorem Flow.eq_due (h : Flow heard size got handed contents l) (hopen : l.session.phase ≠ .closed)
    (hlistening : l.listening = true) :
    got ++ l.outbound ++ l.unsent ++ l.session.outbox ++ l.session.pending = l.due contents := by
  rw [h.kept hlistening, h.ledger.flow hopen, due]
  cases hstarted : l.started with
  | true =>
    rw [if_neg (h.begun hstarted)]
    rfl
  | false =>
    obtain ⟨hphase, hnone⟩ := h.idle hstarted
    rw [if_pos hphase, hnone]
    rfl

/-- **The context gets the first that is due**, in every case. -/
theorem Flow.prefix_due (h : Flow heard size got handed contents l) :
    got ++ l.outbound <+: l.due contents := by
  have hbegins : got ++ l.outbound <+: handed ++ l.unsent ++ l.session.outbox := by
    rw [List.append_assoc handed]
    exact h.begins.trans (List.prefix_append _ _)
  rw [due]
  cases hstarted : l.started with
  | true => exact hbegins.trans h.ledger.prefix_sequence
  | false =>
    obtain ⟨hphase, hnone⟩ := h.idle hstarted
    have hnothing := h.ledger.eq_nil hphase
    rw [hnothing] at hbegins
    exact hbegins

/-- Until the context was heard there is nothing for it but the handshake. -/
theorem Flow.prefix_handshake (h : Flow heard size got handed contents l)
    (hphase : l.session.phase = .handshaking) : got ++ l.outbound <+: [.handshake] := by
  rw [← h.ledger.eq_handshake hphase, List.append_assoc]
  exact h.begins.trans (List.prefix_append _ _)

/-- No content is for a context that was not heard. -/
theorem Flow.heard_of_isUpdate (h : Flow heard size got handed contents l) {m : HostMessage}
    (hm : m ∈ got ++ l.outbound) (hupdate : m.isUpdate = true) : heard := by
  have hsent : m ∈ handed ++ l.unsent ++ l.session.outbox := by
    rw [List.append_assoc]
    exact List.mem_append_left _ (h.begins.subset hm)
  exact h.ledger.heard_of_isUpdate hsent hupdate

end Flow

/-- The flow in a life of which everything is known: the context was heard if there is a pulse in
which it was. -/
theorem flow_life (capacity clock timeout : Nat) (pulses : List Pulse) :
    let new := opened capacity clock timeout
    ∃ handed, Flow
      (∃ before p after, pulses = before ++ p :: after ∧
        (new.life before).1.HearsReady ((new.life before).1.pulse p).1)
      (max capacity 1) (received (new.life pulses).2) handed (accepted (new.life pulses).2)
      (new.life pulses).1 :=
  (flow_opened _ capacity clock timeout).life pulses fun before p after hpulses hhears =>
    ⟨before, p, after, hpulses, hhears⟩

/-- **What the context gets in every life of a link**, whatever happens between the parts of a turn
and in which order, and however little the channels hold. While the session is open and the context
can read, what it read, what is in the channel, what found no room, the outbox and what waits in the
session are the handshake and the accepted contents in order. What it read and what is in the
channel are in every case the first of these, and the channel holds no more than it should. No
content is among them unless the context was heard to be ready when there was nothing but the
handshake, and nothing enters the channel from the close on. In a life in whole turns the outbox is
empty. -/
theorem life_delivers_in_order (capacity clock timeout : Nat) (pulses : List Pulse) :
    let new := opened capacity clock timeout
    let l := (new.life pulses).1
    let got := received (new.life pulses).2
    let contents := accepted (new.life pulses).2
    (l.session.phase ≠ .closed → l.listening = true →
      got ++ l.outbound ++ l.unsent ++ l.session.outbox ++ l.session.pending = l.due contents) ∧
    got ++ l.outbound <+: l.due contents ∧
    l.outbound.length ≤ max capacity 1 ∧
    (∀ m ∈ got ++ l.outbound, m.isUpdate = true →
      ∃ before p after, pulses = before ++ p :: after ∧
        (new.life before).1.HearsReady ((new.life before).1.pulse p).1 ∧
        received (new.life before).2 ++ (new.life before).1.outbound <+: [.handshake]) ∧
    (∀ p more, l.session.phase = .closed ∨ (l.pulse p).1.session.phase = .closed →
      received (l.life (p :: more)).2 ++ (l.life (p :: more)).1.outbound <+: l.outbound) ∧
    (∀ events, pulses = events.map .event →
      new.life pulses = new.run events ∧ l.session.outbox = []) := by
  intro new l got contents
  obtain ⟨handed, hflow⟩ := flow_life capacity clock timeout pulses
  refine ⟨hflow.eq_due, hflow.prefix_due, hflow.room, ?_, ?_, ?_⟩
  · intro m hm hupdate
    obtain ⟨before, p, after, hpulses, hhears⟩ := hflow.heard_of_isUpdate hm hupdate
    obtain ⟨handed', hbefore⟩ := flow_life capacity clock timeout before
    exact ⟨before, p, after, hpulses, hhears, hbefore.prefix_handshake hhears.1⟩
  · exact fun p more hclosed => life_closing hclosed more
  · rintro events rfl
    refine ⟨life_events new events, ?_⟩
    have houtbox := (flow_opened True capacity clock timeout).outbox_run rfl events
    rw [← life_events] at houtbox
    exact houtbox

end Lives

/-- A channel for one message, and a context that reads only when it has to. -/
example :
    let markup := Markup.sanitize .preview "early"
    let lived := (opened 0 0 5000).run
      [.turn, .call 1 markup, .post 1, .turn, .send 2 .ready, .turn, .turn, .read, .turn, .read]
    received lived.2 = [.handshake, .update 1 markup] ∧ lived.1.unsent = [] := ⟨rfl, rfl⟩

end Link

end SafePreview
