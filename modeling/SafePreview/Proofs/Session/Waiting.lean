import SafePreview.Proofs.Session.Keeper

/-!
# Sessions that wait for their context

A session waits until its context says that it is ready, until it is closed for something else, or
until the time for the handshake is over. This module says what one pulse, and then a whole life,
can do to a session that waits.

Two facts about a pulse carry all of it. No pulse makes a session wait again, and none but the one
in which its keeper gives up lets it run out of time (`Link.abides_pulse`). And while a session
waits, no message of its context leaves the channel, since the first that is heard ends the
waiting one way or the other (`Link.gathers_pulse`). A keeper that finds the channel empty
therefore finds it as it was from the opening on: that nothing is there to be heard and that
nothing was ever sent are one and the same.
-/

namespace SafePreview

namespace Session

variable {s s' s'' : Session}

/-- **A session that waits** to hear that its context is ready. -/
def IsWaiting (s : Session) : Prop := s.phase = .uninitialized ∨ s.phase = .handshaking

theorem not_isWaiting_of_ready (h : s.phase = .ready) : ¬ s.IsWaiting := by
  rw [IsWaiting, h]
  decide

theorem not_isWaiting_of_closed (h : s.phase = .closed) : ¬ s.IsWaiting := by
  rw [IsWaiting, h]
  decide

/-- **What leaves the handshake alone**: a session that did not wait does not begin to, and one that
had not run out of time has not done so now. -/
structure Abides (s s' : Session) : Prop where
  waiting : s'.IsWaiting → s.IsWaiting
  expired : s'.closeReason = some .handshakeTimeout → s.closeReason = some .handshakeTimeout

theorem abides_rfl (s : Session) : s.Abides s := ⟨id, id⟩

theorem Abides.trans (h : s.Abides s') (h' : s'.Abides s'') : s.Abides s'' :=
  ⟨h.waiting ∘ h'.waiting, h.expired ∘ h'.expired⟩

theorem abides_close (s : Session) {reason : CloseReason} (h : reason ≠ .handshakeTimeout) :
    s.Abides (s.close reason) := by
  refine ⟨fun hwaiting => absurd hwaiting (not_isWaiting_of_closed (s.phase_close reason)), ?_⟩
  unfold close
  split
  · exact id
  · exact fun hreason => absurd (Option.some.inj hreason) h

/-- The context exists. -/
theorem abides_contextCreated (s : Session) : s.Abides s.contextCreated.2 := by
  unfold contextCreated
  split
  · rename_i hphase
    exact ⟨fun _ => .inl hphase, id⟩
  · exact s.abides_rfl
  · exact s.abides_rfl

/-- A content is asked for. -/
theorem abides_requestUpdate (s : Session) (markup : Markup.SafeMarkup) :
    s.Abides (s.requestUpdate markup).2 := by
  unfold requestUpdate
  split
  · exact s.abides_rfl
  · dsimp only
    split
    · exact ⟨id, id⟩
    · exact ⟨id, id⟩

/-- **A message of the context ends the waiting**, one way or the other. -/
theorem not_isWaiting_receive (s : Session) (message : ContextMessage) :
    ¬ (s.receive message).2.IsWaiting := by
  unfold receive
  split
  · rename_i hphase
    exact not_isWaiting_of_closed hphase
  · exact not_isWaiting_of_ready rfl
  · rename_i hphase
    exact not_isWaiting_of_ready hphase
  · rename_i revision hphase
    split
    · exact not_isWaiting_of_ready hphase
    · exact not_isWaiting_of_ready hphase
  · exact not_isWaiting_of_closed (s.phase_close _)

theorem abides_receive (s : Session) (message : ContextMessage) :
    s.Abides (s.receive message).2 := by
  refine ⟨fun hwaiting => absurd hwaiting (s.not_isWaiting_receive message), ?_⟩
  unfold receive
  split
  · exact id
  · exact id
  · exact id
  · split
    · exact id
    · exact id
  · exact (s.abides_close (by decide)).expired

end Session

variable [Channels]

namespace Link

variable {l l' l'' : Link} {p : Pulse}

/-! ## What a keeper turns to -/

/-- The deadline comes after the context and the commands. -/
theorem of_nextPart?_expire (h : l.nextPart? = some .expire) :
    l.inbound.items = [] ∧ l.commands.items = [] ∧
      l.session.phase = .handshaking ∧ l.deadline ≤ l.clock := by
  unfold nextPart? at h
  split at h
  · cases h
  rename_i hsilent
  split at h
  · cases h
  split at h
  · cases h
  rename_i hunasked
  split at h
  · cases h
  split at h
  · rename_i hexpired
    exact ⟨Decidable.of_not_not hsilent, Decidable.of_not_not hunasked, hexpired⟩
  split at h
  · split at h
    · cases h
    · cases h
  · cases h

/-- The context comes first. -/
theorem nextPart?_of_items (h : l.inbound.items ≠ []) : l.nextPart? = some .hear := by
  rw [nextPart?, if_pos h]

/-! ## What a pulse does to the handshake -/

/-- **The keeper gives up** in a pulse, as the time for the handshake is over. -/
structure Expires (l : Link) (p : Pulse) : Prop where
  phase : l.session.phase = .handshaking
  due : l.deadline ≤ l.clock
  choice : p = .part .expire ∨ p = .event .turn ∧ l.nextPart? = some .expire
  closes : (l.pulse p).1.session = l.session.close .handshakeTimeout

/-- A keeper that chooses in order gives up only if there is nothing to hear and nothing to obey. -/
theorem Expires.items_eq_nil (h : l.Expires p) (hpicks : l.Picks p) :
    l.inbound.items = [] ∧ l.commands.items = [] := by
  have hnext : l.nextPart? = some .expire := by
    rcases h.choice with rfl | ⟨_, hnext⟩
    · exact hpicks rfl
    · exact hnext
  have hfound := of_nextPart?_expire hnext
  exact ⟨hfound.1, hfound.2.1⟩

theorem abides_drain (l : Link) : l.session.Abides l.drain.session := by
  unfold drain
  split
  · exact l.session.abides_rfl
  · split
    · exact l.session.abides_close (by decide)
    · exact l.session.abides_rfl

theorem abides_settleTurn (l : Link) : l.session.Abides l.settleTurn.session := by
  by_cases h : l.session.phase = .closed
  · rw [settleTurn_of_closed h]
    exact l.session.abides_rfl
  · rw [settleTurn_of_open h]
    have hcollect : l.session.Abides l.collect.session := ⟨id, id⟩
    exact hcollect.trans l.collect.abides_drain

theorem abides_start (l : Link) : l.session.Abides l.start.session := by
  have hcreate : l.session.Abides l.create.session := l.session.abides_contextCreated
  rw [start_eq]
  split
  · exact hcreate.trans l.create.abides_settleTurn
  · exact hcreate

/-- Every part but one leaves the handshake alone. -/
theorem abides_part (l : Link) {part : Part} (h : part ≠ .expire) :
    l.session.Abides (l.part part).1.session := by
  have hsame := l.session.abides_rfl
  cases part with
  | hear =>
    rw [Link.part]
    split
    · exact l.session.abides_receive _
    · exact hsame
  | obey =>
    rw [Link.part]
    split
    · rename_i command commands _
      cases command with
      | close caller => exact l.session.abides_close (by decide)
      | update caller markup => exact l.session.abides_requestUpdate markup
    · exact hsame
  | miss =>
    rw [Link.part]
    split
    · exact l.session.abides_close (by decide)
    · exact hsame
  | forgo =>
    rw [Link.part]
    split
    · exact l.session.abides_close (by decide)
    · exact hsame
  | expire => exact absurd rfl h
  | collect => exact ⟨id, id⟩
  | handOver n => exact hsame
  | giveUp =>
    rw [Link.part]
    split
    · exact l.session.abides_close (by decide)
    · exact hsame

/-- To give up for the deadline closes a session that is waiting for the handshake, -/
theorem session_part_expire {l : Link} (hphase : l.session.phase = .handshaking)
    (hdue : l.deadline ≤ l.clock) :
    (l.part .expire).1.session = l.session.close .handshakeTimeout := by
  rw [part, if_pos hdue]
  show l.session.handshakeTimedOut.2 = _
  rw [Session.handshakeTimedOut, if_pos hphase]

/-- and no other. -/
theorem session_part_expire_of_not {l : Link}
    (h : ¬ (l.session.phase = .handshaking ∧ l.deadline ≤ l.clock)) :
    (l.part .expire).1.session = l.session := by
  rw [part]
  split
  · rename_i hdue
    show l.session.handshakeTimedOut.2 = l.session
    rw [Session.handshakeTimedOut, if_neg fun hphase => h ⟨hphase, hdue⟩]
  · rfl

/-- **A pulse leaves the handshake alone**, unless the keeper gives up in it. -/
theorem abides_pulse (l : Link) (p : Pulse) :
    l.session.Abides (l.pulse p).1.session ∨ l.Expires p := by
  have hsame := l.session.abides_rfl
  cases p with
  | event e =>
    by_cases hturn : e = .turn
    · subst hturn
      rw [pulse, step]
      cases hnext : l.turn? with
      | none => exact .inl hsame
      | some next =>
        obtain ⟨l', effects⟩ := next
        rcases turn?_cases hnext with
          ⟨_, rfl, rfl⟩ | ⟨_, rfl, rfl⟩ | ⟨_, _, part, hpart, rfl, rfl⟩
        · exact .inl l.abides_start
        · exact .inl hsame
        · by_cases hexpire : part = .expire
          · subst hexpire
            obtain ⟨_, _, hphase, hdue⟩ := of_nextPart?_expire hpart
            have hcloses := session_part_expire hphase hdue
            refine .inr ⟨hphase, hdue, .inr ⟨rfl, hpart⟩, ?_⟩
            have hclosed : (l.part .expire).1.session.phase = .closed := by
              rw [hcloses, Session.phase_close]
            rw [pulse, step, hnext, Option.getD_some, settleTurn_of_closed hclosed]
            exact hcloses
          · exact .inl ((l.abides_part hexpire).trans (l.part part).1.abides_settleTurn)
    · refine .inl ?_
      rw [pulse, (l.sameKeeper_step hturn).session]
      exact hsame
  | create =>
    refine .inl ?_
    rw [pulse]
    split
    · exact hsame
    · exact l.session.abides_contextCreated
  | part part =>
    by_cases hwork : l.started ∧ l.session.phase ≠ .closed
    · rw [pulse, if_pos hwork]
      by_cases hexpire : part = .expire
      · subst hexpire
        by_cases hover : l.session.phase = .handshaking ∧ l.deadline ≤ l.clock
        · refine .inr ⟨hover.1, hover.2, .inl rfl, ?_⟩
          rw [pulse, if_pos hwork]
          exact session_part_expire hover.1 hover.2
        · rw [session_part_expire_of_not hover]
          exact .inl hsame
      · exact .inl (l.abides_part hexpire)
    · rw [pulse, if_neg hwork]
      exact .inl hsame
  | discard =>
    refine .inl ?_
    rw [pulse]
    split
    · exact hsame
    · exact hsame
  | publish => exact .inl hsame
  | stop =>
    refine .inl ?_
    rw [pulse]
    split
    · exact hsame
    · exact hsame

/-- No pulse makes a session wait again. -/
theorem isWaiting_of_pulse (l : Link) (p : Pulse) (h : (l.pulse p).1.session.IsWaiting) :
    l.session.IsWaiting :=
  (l.abides_pulse p).elim (fun habides => habides.waiting h) fun hexpires => .inr hexpires.phase

/-! ## What a pulse does to the messages of the context -/

/-- **Messages of the context only come in** between two links: none leaves the channel, and nobody
begins to stand in line before an empty one. -/
structure Gathers (l l' : Link) : Prop where
  items : l.inbound.items <+: l'.inbound.items
  line : 0 < l.capacity → (l.inbound.items = [] → l.inbound.waiting = []) →
    l'.inbound.items = [] → l'.inbound.waiting = []

theorem gathers_of_eq (h : l'.inbound = l.inbound) : l.Gathers l' where
  items := h ▸ List.prefix_rfl
  line _ hline := by rwa [h]

theorem gathers_rfl (l : Link) : l.Gathers l := gathers_of_eq rfl

theorem Gathers.trans (h : l.Gathers l') (h' : l'.Gathers l'')
    (hcapacity : l'.capacity = l.capacity) : l.Gathers l'' where
  items := h.items.trans h'.items
  line hroom hline := h'.line (hcapacity ▸ hroom) (h.line hroom hline)

/-- A message that is sent is the last in the channel, or its sender stands in line. -/
theorem gathers_send (l : Link) (sender : Nat) (message : ContextMessage) :
    l.Gathers (l.send sender message).1 := by
  rw [send]
  split
  · exact l.gathers_rfl
  cases hroom : l.inbound.hasRoom l.capacity with
  | true =>
    obtain ⟨hitems, -⟩ := Channel.send_of_hasRoom (a := (sender, message)) hroom
    refine ⟨hitems ▸ List.prefix_append _ _, fun _ _ hempty => absurd (hitems ▸ hempty) ?_⟩
    exact List.append_ne_nil_of_right_ne_nil _ (List.cons_ne_nil _ _)
  | false =>
    obtain ⟨hitems, -⟩ := Channel.send_of_not_hasRoom (a := (sender, message)) hroom
    refine ⟨hitems ▸ List.prefix_rfl, fun hcapacity hline hempty => ?_⟩
    -- before an empty channel nobody stands in line, and there is room in it
    have hnone : l.inbound.items = [] := hitems ▸ hempty
    rw [Channel.hasRoom, hline hnone, hnone] at hroom
    exact absurd hcapacity (of_decide_eq_false hroom)

/-- Who gets in is the last in the channel. -/
theorem gathers_admitMessage (l : Link) : l.Gathers (l.step .admitMessage).1 := by
  rw [step, admitMessage?]
  cases hadmit : l.inbound.admit? l.capacity with
  | none => exact l.gathers_rfl
  | some admitted =>
    obtain ⟨⟨sender, message⟩, inbound⟩ := admitted
    have hitems : inbound.items = l.inbound.items ++ [(sender, message)] :=
      Channel.items_of_admit? hadmit
    refine ⟨hitems ▸ List.prefix_append _ _, fun _ _ hempty => absurd (hitems ▸ hempty) ?_⟩
    exact List.append_ne_nil_of_right_ne_nil _ (List.cons_ne_nil _ _)

/-- Who goes away takes nothing out of the channel. -/
theorem gathers_vanish (l : Link) (caller : Nat) : l.Gathers (l.vanish caller) := by
  have hitems : (l.vanish caller).inbound.items = l.inbound.items := Channel.items_withdraw _ _
  refine ⟨hitems ▸ List.prefix_rfl, fun _ hline hempty => ?_⟩
  show (l.inbound.withdraw _).waiting = []
  rw [Channel.waiting_withdraw, hline (hitems ▸ hempty), List.filter_nil]

/-- **Messages are only added** by those who send them. -/
theorem gathers_step (l : Link) {e : Event} (hturn : e ≠ .turn) : l.Gathers (l.step e).1 := by
  cases e with
  | call caller markup =>
    rw [step, call]
    split
    · exact l.gathers_rfl
    · exact gathers_of_eq rfl
  | post caller =>
    rw [step, post]
    split
    · exact l.gathers_rfl
    · dsimp only
      split
      · exact gathers_of_eq rfl
      · exact gathers_of_eq rfl
  | close caller =>
    rw [step, askClose]
    split
    · exact l.gathers_rfl
    · exact gathers_of_eq rfl
  | send sender message => exact l.gathers_send sender message
  | admitCommand =>
    rw [step, admitCommand?]
    cases l.commands.admit? l.capacity with
    | none => exact l.gathers_rfl
    | some admitted => exact gathers_of_eq rfl
  | admitMessage => exact l.gathers_admitMessage
  | read =>
    rw [step, read]
    split
    · exact l.gathers_rfl
    · split
      · exact gathers_of_eq rfl
      · exact l.gathers_rfl
  | deafen => exact gathers_of_eq rfl
  | silence => exact gathers_of_eq rfl
  | vanish caller => exact l.gathers_vanish caller
  | forsake => exact gathers_of_eq rfl
  | elapse ms => exact gathers_of_eq rfl
  | turn => exact absurd rfl hturn

/-- A keeper takes messages out of the channel only to hear them. -/
theorem inbound_part (l : Link) {part : Part} (h : part ≠ .hear) :
    (l.part part).1.inbound = l.inbound := by
  cases part with
  | hear => exact absurd rfl h
  | obey =>
    rw [Link.part]
    split
    · rename_i command commands _
      cases command with
      | close caller => rfl
      | update caller markup => rfl
    · rfl
  | miss =>
    rw [Link.part]
    split
    · rfl
    · rfl
  | forgo =>
    rw [Link.part]
    split
    · rfl
    · rfl
  | expire =>
    rw [Link.part]
    split
    · rfl
    · rfl
  | collect => rfl
  | handOver n => rfl
  | giveUp =>
    rw [Link.part]
    split
    · rfl
    · rfl

/-- To hear a message ends the waiting, so a session that still waits has heard none. -/
theorem gathers_part (l : Link) (part : Part) (h : (l.part part).1.session.IsWaiting) :
    l.Gathers (l.part part).1 := by
  by_cases hhear : part = .hear
  · subst hhear
    rw [Link.part] at h ⊢
    split at h
    · exact absurd h (l.session.not_isWaiting_receive _)
    · exact l.gathers_rfl
  · exact gathers_of_eq (l.inbound_part hhear)

/-- **While a session waits no message of its context is lost**, and none is heard. -/
theorem gathers_pulse (l : Link) (p : Pulse) (h : (l.pulse p).1.session.IsWaiting) :
    l.Gathers (l.pulse p).1 := by
  cases p with
  | event e =>
    by_cases hturn : e = .turn
    · subst hturn
      rw [pulse, step] at h ⊢
      cases hnext : l.turn? with
      | none => exact l.gathers_rfl
      | some next =>
        obtain ⟨l', effects⟩ := next
        rw [hnext] at h
        rcases turn?_cases hnext with
          ⟨_, rfl, rfl⟩ | ⟨hclosed, rfl, rfl⟩ | ⟨_, _, part, _, rfl, rfl⟩
        · exact gathers_of_eq l.rests_start.inbound
        · exact absurd h (Session.not_isWaiting_of_closed hclosed)
        · have hsettled := (l.part part).1.rests_settleTurn
          have hpart := l.gathers_part part ((l.part part).1.abides_settleTurn.waiting h)
          exact hpart.trans (gathers_of_eq hsettled.inbound) (l.steady_part part).1.capacity
    · exact l.gathers_step hturn
  | create =>
    rw [pulse]
    split
    · exact l.gathers_rfl
    · exact gathers_of_eq rfl
  | part part =>
    rw [pulse] at h ⊢
    split
    · rename_i hwork
      rw [if_pos hwork] at h
      exact l.gathers_part part h
    · exact l.gathers_rfl
  | discard =>
    rw [pulse]
    split
    · exact gathers_of_eq rfl
    · exact l.gathers_rfl
  | publish => exact gathers_of_eq rfl
  | stop =>
    rw [pulse] at h ⊢
    split
    · rename_i hclosed
      rw [if_pos hclosed] at h
      exact absurd h (Session.not_isWaiting_of_closed hclosed)
    · exact l.gathers_rfl

/-! ## What a life does to a session that waits -/

/-- **A session that waits has waited all its life**, and all that its context sent is still there.
-/
theorem waiting_life (l : Link) (pulses : List Pulse) (h : (l.life pulses).1.session.IsWaiting) :
    l.session.IsWaiting ∧ l.Gathers (l.life pulses).1 := by
  induction pulses generalizing l with
  | nil => exact ⟨h, l.gathers_rfl⟩
  | cons p pulses ih =>
    obtain ⟨hwaiting, hgathers⟩ := ih (l.pulse p).1 h
    exact ⟨l.isWaiting_of_pulse p hwaiting,
      (l.gathers_pulse p hwaiting).trans hgathers (l.attends_pulse p).capacity⟩

/-- **A session runs out of time in one pulse**, if it ever does. -/
theorem expired_life (l : Link) (pulses : List Pulse)
    (h : (l.life pulses).1.session.closeReason = some .handshakeTimeout) :
    l.session.closeReason = some .handshakeTimeout ∨
      ∃ before p after, pulses = before ++ p :: after ∧ (l.life before).1.Expires p := by
  induction pulses generalizing l with
  | nil => exact .inl h
  | cons p pulses ih =>
    rcases ih (l.pulse p).1 h with hbefore | ⟨before, q, after, rfl, hexpires⟩
    · refine (l.abides_pulse p).imp (fun habides => habides.expired hbefore) fun hexpires => ?_
      exact ⟨[], p, pulses, rfl, hexpires⟩
    · exact .inr ⟨p :: before, q, after, rfl, hexpires⟩

end Link

end SafePreview
