import SafePreview.Proofs.Session.Delivery
import SafePreview.Proofs.Session.Mailbox

/-!
# A keeper that does its work in order

A life in pulses lets anything follow anything. A keeper does not: a turn begins with one part, goes
on with the outbox and with what waits for room, and ends with the publication of the status. This
module says which pulses may follow (`Link.Follows`), with all others still free to do what they
like between any two of them, and what is known between two turns of a life in which they do
(`Link.Works.inPlace`).

How a keeper comes through its turn does not depend on the channels. Nothing in a turn waits for
room: what finds none stays behind, and the turn can always be ended (`Link.exists_works_between`).
A command to close is therefore obeyed in its turn, and is lost on no way to it unless its caller
goes away before it got in (`Link.Awaits.life`).
-/

namespace SafePreview

variable [Channels]

namespace Channel

/-! ## What is sure to be received -/

variable {α : Type} {capacity : Nat} {c rest : Channel α} {a : α} {stays : Bool}

/-- **What is sure to be received**: what is in the channel, and what waits to be as long as its
sender stays. -/
def certain (stays : Bool) (c : Channel α) : List α := if stays then c.toList else c.items

theorem certain_send : c.certain stays ⊆ (c.send capacity a).certain stays := by
  cases stays with
  | true =>
    show c.toList ⊆ (c.send capacity a).toList
    rw [toList_send]
    exact List.subset_append_left _ _
  | false =>
    show c.items ⊆ (c.send capacity a).items
    cases hroom : c.hasRoom capacity with
    | true =>
      rw [(send_of_hasRoom hroom).1]
      exact List.subset_append_left _ _
    | false =>
      rw [(send_of_not_hasRoom hroom).1]
      exact List.Subset.refl _

theorem certain_receive? (h : c.receive? = some (a, rest)) :
    c.certain stays = a :: rest.certain stays := by
  cases stays with
  | true => exact toList_receive? h
  | false => exact items_of_receive? h

theorem certain_admit? (h : c.admit? capacity = some (a, rest)) :
    c.certain stays ⊆ rest.certain stays := by
  cases stays with
  | true =>
    show c.toList ⊆ rest.toList
    rw [toList_admit? h]
    exact List.Subset.refl _
  | false =>
    show c.items ⊆ rest.items
    rw [items_of_admit? h]
    exact List.subset_append_left _ _

/-- Where others leave the line, nothing becomes less certain. -/
theorem mem_certain_withdraw {gone : α → Bool} (h : a ∈ c.certain stays)
    (hstays : stays = true → gone a = false) : a ∈ (c.withdraw gone).certain stays := by
  cases stays with
  | true =>
    refine (List.mem_append.1 h).elim (fun hitem => ?_) fun hline => ?_
    · refine List.mem_append_left _ ?_
      rw [items_withdraw]
      exact hitem
    · refine List.mem_append_right _ ?_
      rw [waiting_withdraw, List.mem_filter, hstays rfl]
      exact ⟨hline, rfl⟩
  | false =>
    show a ∈ (c.withdraw gone).items
    rw [items_withdraw]
    exact h

end Channel

namespace Link

/-! ## The order of a turn -/

/-- **How far a keeper is** in its turn. -/
inductive Place where
  /-- It is between two turns, or has not begun. -/
  | between
  /-- It did the part that the turn begins with. -/
  | acted
  /-- It collected the outbox. -/
  | collected

/-- The parts in which a keeper gets rid of what waits for room. -/
def Part.delivers : Part → Bool
  | .handOver _ | .giveUp => true
  | .hear | .obey | .miss | .forgo | .expire | .collect => false

/-- **What may follow** when a keeper is at a place, and the place where it is then. -/
inductive Follows (l : Link) : Place → Pulse → Place → Prop
  /-- The others do what they like, wherever the keeper is. -/
  | aside {place : Place} {e : Event} (isAside : e ≠ .turn) : Follows l place (.event e) place
  /-- A turn may go by in one piece. -/
  | turn : Follows l .between (.event .turn) .between
  /-- The first turn begins with the context, -/
  | create : Follows l .between .create .acted
  /-- and every other one with any part but the collecting. -/
  | act {part : Part} (begins : part ≠ .collect) : Follows l .between (.part part) .acted
  /-- What waits is handed over as far as there is room, before the outbox is collected or after, -/
  | deliver {place : Place} {part : Part} (inTurn : place ≠ .between)
      (delivers : part.delivers = true) : Follows l place (.part part) place
  /-- or is dropped. -/
  | discard {place : Place} (inTurn : place ≠ .between) : Follows l place .discard place
  | collect : Follows l .acted (.part .collect) .collected
  /-- The turn ends with the status, -/
  | publish : Follows l .collected .publish .between
  /-- at once if it closed the session. -/
  | conclude (closed : l.session.phase = .closed) : Follows l .acted .publish .between
  | stop : Follows l .between .stop .between

/-- **A life in which the keeper works in order**, from one place to another. -/
inductive Works : Link → Place → List Pulse → Place → Prop
  | nil {l : Link} {place : Place} : Works l place [] place
  | cons {l : Link} {place next last : Place} {p : Pulse} {pulses : List Pulse}
      (follows : l.Follows place p next) (works : (l.pulse p).1.Works next pulses last) :
      Works l place (p :: pulses) last

variable {l l' : Link} {place next last : Place} {p : Pulse} {pulses : List Pulse}

theorem Works.append {more : List Pulse} (h : l.Works place pulses next)
    (hmore : (l.life pulses).1.Works next more last) : l.Works place (pulses ++ more) last := by
  induction h with
  | nil => exact hmore
  | cons hfollows _ ih => exact .cons hfollows (ih hmore)

/-- In whole turns a keeper works in order. -/
theorem works_events (l : Link) (events : List Event) :
    l.Works .between (events.map .event) .between := by
  induction events generalizing l with
  | nil => exact .nil
  | cons e events ih =>
    by_cases hturn : e = .turn
    · exact .cons (hturn ▸ .turn) (ih _)
    · exact .cons (.aside hturn) (ih _)

/-- **A turn can always be ended**, whatever the channels are like. -/
theorem exists_works_between (l : Link) (place : Place) :
    ∃ pulses, pulses.length ≤ 2 ∧ l.Works place pulses .between := by
  cases place with
  | between => exact ⟨[], Nat.zero_le _, .nil⟩
  | acted => exact ⟨[.part .collect, .publish], Nat.le_refl _, .cons .collect (.cons .publish .nil)⟩
  | collected => exact ⟨[.publish], Nat.le_succ _, .cons .publish .nil⟩

/-! ## What is known at each place -/

/-- **What is known of a link** whose keeper is at a place. -/
def InPlace (l : Link) : Place → Prop
  | .between => l.session.outbox = [] ∧ l.status = l.session.status
  | .acted => True
  | .collected => l.session.outbox = []

section Flow

variable {size : Nat} {read handed : List HostMessage} {contents : List Markup.SafeMarkup}

/-- Nothing is in the outbox of a session that is not at work. -/
theorem Flow.outbox_of_not_working (h : Flow True size read handed contents l)
    (hidle : ¬ (l.started = true ∧ l.session.phase ≠ .closed)) : l.session.outbox = [] := by
  by_cases hclosed : l.session.phase = .closed
  · exact h.ledger.outbox_of_closed hclosed
  · have hnot : l.started = false := Bool.eq_false_iff.2 fun hstarted => hidle ⟨hstarted, hclosed⟩
    exact (List.append_eq_nil_iff.1 (h.ledger.eq_nil (h.idle hnot).1)).2

/-- To deliver leaves the outbox empty if it is. -/
theorem outbox_part {part : Part} (hdelivers : part.delivers = true)
    (houtbox : l.session.outbox = []) : (l.part part).1.session.outbox = [] := by
  cases part with
  | handOver n => exact houtbox
  | giveUp =>
    rw [Link.part]
    split
    · show (l.session.close .contextGone).outbox = []
      unfold Session.close
      split
      · exact houtbox
      · rfl
    · exact houtbox
  | hear => cases hdelivers
  | obey => cases hdelivers
  | miss => cases hdelivers
  | forgo => cases hdelivers
  | expire => cases hdelivers
  | collect => cases hdelivers

/-- **What is known at a place holds** when the keeper gets there. -/
theorem Follows.inPlace (h : l.Follows place p next) (hflow : Flow True size read handed contents l)
    (hplace : l.InPlace place) : (l.pulse p).1.InPlace next := by
  cases h with
  | aside haside =>
    have hsame := l.sameKeeper_step haside
    cases place with
    | between =>
      refine ⟨?_, ?_⟩
      · rw [pulse, hsame.session]
        exact hplace.1
      · rw [pulse, hsame.session, hsame.status]
        exact hplace.2
    | acted => trivial
    | collected =>
      show (l.step _).1.session.outbox = []
      rw [hsame.session]
      exact hplace
  | turn => exact ⟨hflow.outbox_run hplace.1 [.turn], status_run hplace.2 [.turn]⟩
  | create => trivial
  | act _ => trivial
  | deliver hturn hdelivers =>
    cases place with
    | between => exact absurd rfl hturn
    | acted => trivial
    | collected =>
      rw [pulse]
      split
      · exact outbox_part hdelivers hplace
      · exact hplace
  | discard hturn =>
    cases place with
    | between => exact absurd rfl hturn
    | acted => trivial
    | collected =>
      rw [pulse]
      split
      · exact hplace
      · exact hplace
  | collect =>
    rw [pulse]
    split
    · exact rfl
    · rename_i hidle
      exact hflow.outbox_of_not_working hidle
  | publish => exact ⟨hplace, rfl⟩
  | conclude hclosed => exact ⟨hflow.ledger.outbox_of_closed hclosed, rfl⟩
  | stop =>
    rw [pulse]
    split
    · exact hplace
    · exact hplace

/-- **What is known at each place of a life.** -/
theorem Works.inPlace (h : l.Works place pulses last)
    (hflow : Flow True size read handed contents l) (hplace : l.InPlace place) :
    (l.life pulses).1.InPlace last := by
  induction h generalizing read handed contents with
  | nil => exact hplace
  | cons hfollows _ ih =>
    obtain ⟨handed', hnext⟩ := hflow.pulse _ fun _ => trivial
    exact ih hnext (hfollows.inPlace hflow hplace)

/-! ## A keeper with nothing to do -/

/-- **A link whose keeper has nothing to do**, though its session is open. -/
structure IsAtRest (l : Link) : Prop where
  heard : l.inbound.items = []
  obeyed : l.commands.items = []
  /-- Somebody is left who could give a command. -/
  tended : l.isForsaken = false
  /-- All messages of the session were handed over, up to those for which there is no room. -/
  outbox : l.session.outbox = []
  full : l.unsent ≠ [] → l.listening = true ∧ l.outbound.length = l.capacity
  /-- The host sees the session as it is. -/
  status : l.status = l.session.status

/-- A keeper for which there is no part to do has heard and obeyed all, and handed over what there
was room for. -/
theorem of_nextPart?_eq_none (h : l.nextPart? = none) :
    l.inbound.items = [] ∧ l.commands.items = [] ∧ l.isForsaken = false
      ∧ l.canDeliver = false := by
  unfold nextPart? at h
  split at h
  · cases h
  rename_i hsilent
  split at h
  · cases h
  split at h
  · cases h
  rename_i hunasked
  split at h
  · cases h
  rename_i htended
  split at h
  · cases h
  split at h
  · cases h
  rename_i hfull
  exact ⟨Decidable.of_not_not hsilent, Decidable.of_not_not hunasked, Bool.eq_false_iff.2 htended,
    Bool.eq_false_iff.2 hfull⟩

/-- **A keeper that takes no turn is at rest**, if it is between two turns. -/
theorem isAtRest_of_turn?_eq_none (htruth : l.IsTruthful)
    (hflow : Flow True size read handed contents l) (hplace : l.InPlace .between)
    (hturn : l.turn? = none) (hopen : l.session.phase ≠ .closed) : l.IsAtRest := by
  have hstopped : l.stopped = false := Bool.eq_false_iff.2 fun hstop => hopen (htruth.stopped hstop)
  have hstarted : l.started = true := by
    cases hstarted : l.started with
    | true => rfl
    | false =>
      rw [turn?, hstopped, hstarted] at hturn
      cases hturn
  rw [turn?_of_open hstopped hstarted hopen, Option.map_eq_none_iff] at hturn
  obtain ⟨hheard, hobeyed, htended, hfull⟩ := of_nextPart?_eq_none hturn
  refine ⟨hheard, hobeyed, htended, hplace.1, fun hunsent => ?_, hplace.2⟩
  rw [canDeliver, List.isEmpty_eq_false_iff.2 hunsent, Bool.not_false, Bool.true_and,
    Bool.or_eq_false_iff, Bool.not_eq_false', decide_eq_false_iff_not] at hfull
  have hroom := hflow.room
  rw [← hflow.capacity] at hroom
  exact ⟨hfull.1, Nat.le_antisymm hroom (Nat.le_of_not_lt hfull.2)⟩

end Flow

/-! ## A command to close -/

variable {caller : Nat} {stays : Bool}

/-- **A command to close was given** and is sure to be taken, as far as its caller stays, or the
session is closed. -/
def Awaits (l : Link) (caller : Nat) (stays : Bool) : Prop :=
  l.session.phase = .closed ∨ .close caller ∈ l.commands.certain stays

theorem awaits_of_subset (h : l.Awaits caller stays) (hsession : l'.session = l.session)
    (hcommands : l.commands.certain stays ⊆ l'.commands.certain stays) : l'.Awaits caller stays :=
  h.imp (fun hclosed => hsession ▸ hclosed) fun hmem => hcommands hmem

/-- **Commands are only added** by those who give them, unless one of them goes away. -/
theorem certain_step (l : Link) {e : Event} (hturn : e ≠ .turn)
    (hstays : ∀ caller, e ≠ .vanish caller) :
    l.commands.certain stays ⊆ (l.step e).1.commands.certain stays := by
  have hsame : l.commands.certain stays ⊆ l.commands.certain stays := List.Subset.refl _
  cases e with
  | call caller markup =>
    rw [step, call]
    split
    · exact hsame
    · exact hsame
  | post caller =>
    rw [step, post]
    split
    · exact hsame
    · dsimp only
      split
      · exact hsame
      · exact Channel.certain_send
  | close caller =>
    rw [step, askClose]
    split
    · exact hsame
    · exact Channel.certain_send
  | send sender message =>
    rw [step, send]
    split
    · exact hsame
    · exact hsame
  | admitCommand =>
    rw [step, admitCommand?]
    cases hlet : l.commands.admit? l.capacity with
    | none => exact hsame
    | some admitted => exact Channel.certain_admit? hlet
  | admitMessage =>
    rw [step, admitMessage?]
    cases l.inbound.admit? l.capacity with
    | none => exact hsame
    | some admitted => exact hsame
  | read =>
    rw [step, read]
    split
    · exact hsame
    · split
      · exact hsame
      · exact hsame
  | deafen => exact hsame
  | silence => exact hsame
  | vanish caller => exact absurd rfl (hstays caller)
  | forsake => exact hsame
  | elapse ms => exact hsame
  | turn => exact absurd rfl hturn

/-- Who goes away takes back no command of another, nor one that is in the channel. -/
theorem Awaits.vanish (h : l.Awaits caller stays) {other : Nat}
    (hstays : stays = true → caller ≠ other) : (l.vanish other).Awaits caller stays :=
  h.imp_right fun hmem => Channel.mem_certain_withdraw hmem fun hstay =>
    decide_eq_false (hstays hstay)

/-- A keeper that takes a command to close obeys it. -/
theorem Awaits.part (h : l.Awaits caller stays) (hopen : l.session.phase ≠ .closed)
    (part : Part) : (l.part part).1.Awaits caller stays := by
  have hmem := h.resolve_left hopen
  by_cases hpart : part = .obey
  · subst hpart
    rw [Link.part]
    cases hcommand : l.commands.receive? with
    | none => exact h
    | some received =>
      obtain ⟨command, commands⟩ := received
      rw [Channel.certain_receive? hcommand] at hmem
      cases command with
      | close other => exact .inl (l.session.phase_close _)
      | update other markup =>
        have hne : Command.close caller ≠ .update other markup := Command.noConfusion
        exact .inr (List.mem_of_ne_of_mem hne hmem)
  · obtain ⟨-, hcommands, -⟩ := l.part_of_ne_obey hpart
    exact .inr (hcommands ▸ hmem)

/-- To settle a turn is no business of those who give commands. -/
theorem Awaits.settleTurn (h : l.Awaits caller stays) : l.settleTurn.Awaits caller stays := by
  refine h.imp (fun hclosed => ?_) fun hmem => (rests_settleTurn l).commands ▸ hmem
  rw [settleTurn_of_closed hclosed]
  exact hclosed

/-- **No pulse loses a command to close**, as far as its caller stays. -/
theorem Awaits.pulse (h : l.Awaits caller stays) (p : Pulse)
    (hstays : stays = true → p ≠ .event (.vanish caller)) :
    (l.pulse p).1.Awaits caller stays := by
  cases p with
  | event e =>
    by_cases hturn : e = .turn
    · subst hturn
      rw [Link.pulse, step]
      cases hnext : l.turn? with
      | none => exact h
      | some next =>
        obtain ⟨l', effects⟩ := next
        rcases turn?_cases hnext with
          ⟨_, rfl, rfl⟩ | ⟨hclosed, rfl, rfl⟩ | ⟨_, hopen, part, _, rfl, rfl⟩
        · refine h.imp (fun hclosed => ?_) fun hmem => l.rests_start.commands ▸ hmem
          rw [Option.getD_some, start_eq, Session.contextCreated_of_closed hclosed]
          show l.session.contextCreated.2.phase = .closed
          rw [Session.contextCreated_of_closed hclosed]
          exact hclosed
        · exact .inl hclosed
        · exact (h.part hopen part).settleTurn
    · by_cases hgone : ∃ other, e = .vanish other
      · obtain ⟨other, rfl⟩ := hgone
        exact h.vanish fun hstay hsame => hstays hstay (hsame ▸ rfl)
      · exact awaits_of_subset h (l.sameKeeper_step hturn).session
          (l.certain_step hturn fun other hvanish => hgone ⟨other, hvanish⟩)
  | create =>
    rw [Link.pulse]
    split
    · exact h
    · refine h.imp_left fun hclosed => ?_
      show l.session.contextCreated.2.phase = .closed
      rw [Session.contextCreated_of_closed hclosed]
      exact hclosed
  | part part =>
    rw [Link.pulse]
    split
    · rename_i hwork
      exact h.part hwork.2 part
    · exact h
  | discard =>
    rw [Link.pulse]
    split
    · exact h
    · exact h
  | publish => exact h
  | stop =>
    rw [Link.pulse]
    split
    · rename_i hclosed
      exact .inl hclosed
    · exact h

theorem Awaits.life (h : l.Awaits caller stays) (pulses : List Pulse)
    (hstays : stays = true → .event (.vanish caller) ∉ pulses) :
    (l.life pulses).1.Awaits caller stays := by
  induction pulses generalizing l with
  | nil => exact h
  | cons p pulses ih =>
    refine ih (h.pulse p fun hstay hsame => hstays hstay (hsame ▸ List.mem_cons_self)) ?_
    exact fun hstay hmem => hstays hstay (List.mem_cons_of_mem _ hmem)

/-- **A command to close is there** once it is given, unless the keeper has stopped. -/
theorem awaits_close (htruth : l.IsTruthful) (caller : Nat) :
    (l.pulse (.event (.close caller))).1.Awaits caller true := by
  rw [pulse, step, askClose]
  split
  · rename_i hstopped
    exact .inl (htruth.stopped hstopped)
  · refine .inr ?_
    show _ ∈ Channel.toList _
    rw [Channel.toList_send]
    exact List.mem_append_right _ (List.mem_singleton_self _)

/-- A caller that does not stand in line may go away. -/
theorem Awaits.of_not_mem_waiting (h : l.Awaits caller true)
    (hline : .close caller ∉ l.commands.waiting) : l.Awaits caller false :=
  h.imp_right fun hmem => (List.mem_append.1 hmem).resolve_right hline

/-- **A command to close that was not taken back**: it was given in a life, and its caller stayed
the whole time, or at least until it did not stand in line. -/
def GivesClose (l : Link) (pulses : List Pulse) (caller : Nat) : Prop :=
  ∃ before between after, pulses = before ++ .event (.close caller) :: (between ++ after) ∧
    .event (.vanish caller) ∉ between ∧
    (after = [] ∨
      .close caller ∉ (l.life (before ++ .event (.close caller) :: between)).1.commands.waiting)

/-- Whoever never goes away takes nothing back. -/
theorem givesClose_of_mem (l : Link) (hmem : .event (.close caller) ∈ pulses)
    (hstays : .event (.vanish caller) ∉ pulses) : l.GivesClose pulses caller := by
  obtain ⟨before, after, rfl⟩ := List.append_of_mem hmem
  refine ⟨before, after, [], by rw [List.append_nil], fun hgone => hstays ?_, .inl rfl⟩
  exact List.mem_append_right _ (List.mem_cons_of_mem _ hgone)

/-- What was not taken back is not taken back later, as long as its caller stays. -/
theorem GivesClose.append (h : l.GivesClose pulses caller) {more : List Pulse}
    (hstays : .event (.vanish caller) ∉ more) : l.GivesClose (pulses ++ more) caller := by
  obtain ⟨before, between, after, rfl, hstayed, rfl | hline⟩ := h
  · refine ⟨before, between ++ more, [], by simp, fun hgone => ?_, .inl rfl⟩
    exact (List.mem_append.1 hgone).elim hstayed hstays
  · exact ⟨before, between, after ++ more, by simp, hstayed, .inr hline⟩

/-- **A command to close that was not taken back is awaited**, wherever in a life it was given. -/
theorem GivesClose.awaits (h : l.GivesClose pulses caller) (htruth : l.IsTruthful) :
    (l.life pulses).1.Awaits caller true := by
  obtain ⟨before, between, after, rfl, hstays, hin⟩ := h
  have hgiven : (l.life (before ++ .event (.close caller) :: between)).1.Awaits caller true := by
    rw [life_append]
    exact (awaits_close (htruth.life before) caller).life between fun _ => hstays
  have hwhole : before ++ Pulse.event (.close caller) :: (between ++ after)
      = before ++ .event (.close caller) :: between ++ after := by
    rw [List.append_assoc]
    rfl
  rw [hwhole, life_append]
  rcases hin with rfl | hline
  · exact hgiven
  · exact ((hgiven.of_not_mem_waiting hline).life after nofun).imp_right
      fun hmem => List.mem_append_left _ hmem

end Link

end SafePreview
