import SafePreview.Proofs.Session.Keeper
import SafePreview.Session.Host

/-!
# The sessions of a host

A life of a host is a list of moves: sessions are opened, anything happens to one of them, time
passes, and the register is tidied up. Time passes for all sessions at once, so every session has
the time of its host (`Host.KeepsTime.life`).

Apart from that, sessions have nothing to do with each other. The moves that concern a session are
its pulses (`Host.pulsesOf`), and the link of a session is the one that was opened for it after
these pulses and no others (`Host.exists_opening`). Whatever is known of every life of a link is
therefore known of each session of a host, however many there are.
-/

namespace SafePreview

variable [Channels]

namespace Host

/-! ## Lives of a host -/

/-- A link that is set is the link of that session, and of no other. -/
theorem session?_setLink (h : Host) (index : Nat) (link : Link) (i : Nat) :
    (h.setLink index link).session? i
      = (h.session? i).map fun o => if index = i then { o with link } else o := by
  rw [session?, setLink, List.getElem?_modify, session?]
  split
  · rfl
  · simp

/-- **What can happen at a host.** -/
inductive Move where
  | openSession (id : SessionId)
  /-- Something happens to one session. -/
  | pulse (index : Nat) (p : Link.Pulse)
  | elapse (milliseconds : Nat)
  /-- A session leaves the register, as it is about to be closed. -/
  | unregister (id : SessionId)
  /-- All closed sessions leave the register. -/
  | prune

/-- **One move.** Time does not pass for one session alone. -/
def move (h : Host) : Move → Host
  | .openSession id => h.openSession id
  | .pulse index p =>
    match h.session? index with
    | some o => if p.duration = 0 then h.setLink index (o.link.pulse p).1 else h
    | none => h
  | .elapse ms => h.elapse ms
  | .unregister id =>
    match h.unregister id with
    | .ok (_, h) => h
    | .error _ => h
  | .prune => h.prune.2

/-- **A life of a host.** -/
def life (h : Host) (moves : List Move) : Host := moves.foldl move h

/-- **What a move is to a session**, if it concerns it. -/
def Move.pulsesOf (index : Nat) : Move → List Link.Pulse
  | .pulse i p => if i = index ∧ p.duration = 0 then [p] else []
  | .elapse ms => [.event (.elapse ms)]
  | _ => []

/-- **What happens to a session** in a life of its host. -/
def pulsesOf (index : Nat) (moves : List Move) : List Link.Pulse :=
  moves.flatMap (Move.pulsesOf index)

/-- **A move in which a keeper chooses in order**, if it chooses. -/
def Picks (h : Host) : Move → Prop
  | .pulse index p => ∀ o, h.session? index = some o → o.link.Picks p
  | _ => True

/-- **A life of biased keepers.** -/
def IsBiased (h : Host) : List Move → Prop
  | [] => True
  | m :: rest => h.Picks m ∧ (h.move m).IsBiased rest

/-- An event of a session is a move, unless it is that time passes. -/
theorem move_event (h : Host) (index : Nat) {e : Link.Event} (htime : e.duration = 0) :
    h.move (.pulse index (.event e)) = (h.act index e).1 := by
  rw [move, act]
  cases h.session? index with
  | none => rfl
  | some o => exact if_pos htime

variable {h h' : Host} {m : Move} {i : Nat} {o o' : Opened}

/-! ## What a move does to a session -/

/-- **A session after some pulses.** It may have left the register in the meantime. -/
structure Lives (pulses : List Link.Pulse) (o o' : Opened) : Prop where
  id : o'.id = o.id
  link : o'.link = (o.link.life pulses).1

theorem Lives.trans {pulses more : List Link.Pulse} {o'' : Opened} (h : Lives pulses o o')
    (hmore : Lives more o' o'') : Lives (pulses ++ more) o o'' where
  id := hmore.id.trans h.id
  link := by rw [hmore.link, h.link, Link.life_append]

theorem rel_map {pulses : List Link.Pulse} {f : Opened → Opened}
    (hmap : h'.session? i = (h.session? i).map f) (hlives : ∀ o, Lives pulses o (f o)) :
    Option.Rel (Lives pulses) (h.session? i) (h'.session? i) := by
  rw [hmap]
  cases h.session? i with
  | none => exact .none
  | some o => exact .some (hlives o)

theorem rel_rfl (h : Host) (i : Nat) : Option.Rel (Lives []) (h.session? i) (h.session? i) :=
  rel_map Option.map_id'.symm fun _ => ⟨rfl, rfl⟩

/-- What happens to one session happens to no other. -/
theorem rel_pulse (h : Host) (index : Nat) (p : Link.Pulse) (i : Nat) :
    Option.Rel (Lives (Move.pulsesOf i (.pulse index p))) (h.session? i)
      ((h.move (.pulse index p)).session? i) := by
  by_cases hmine : index = i ∧ p.duration = 0
  · rw [Move.pulsesOf, if_pos hmine, move]
    obtain ⟨rfl, htime⟩ := hmine
    cases hindex : h.session? index with
    | none =>
      dsimp only
      rw [hindex]
      exact .none
    | some o =>
      dsimp only
      rw [if_pos htime, session?_setLink, hindex, Option.map_some, if_pos rfl]
      exact .some ⟨rfl, rfl⟩
  · rw [Move.pulsesOf, if_neg hmine, move]
    split
    · split
      · rename_i htime
        refine rel_map (h.session?_setLink index _ i) fun o => ?_
        rw [if_neg fun hi => hmine ⟨hi, htime⟩]
        exact ⟨rfl, rfl⟩
      · exact h.rel_rfl i
    · exact h.rel_rfl i

/-- **A move does to a session what concerns it**, unless it opens another, and nothing else but to
take it out of the register. -/
theorem rel_move (h : Host) (hopens : ∀ id, m ≠ .openSession id) (i : Nat) :
    Option.Rel (Lives (m.pulsesOf i)) (h.session? i) ((h.move m).session? i) := by
  cases m with
  | openSession id => exact absurd rfl (hopens id)
  | pulse index p => exact h.rel_pulse index p i
  | elapse ms => exact rel_map List.getElem?_map fun _ => ⟨rfl, rfl⟩
  | unregister id =>
    rw [move, unregister]
    cases h.find? id with
    | none => exact h.rel_rfl i
    | some index =>
      refine rel_map (List.getElem?_modify ..) fun o => ?_
      split
      · exact ⟨rfl, rfl⟩
      · exact ⟨rfl, rfl⟩
  | prune => exact rel_map List.getElem?_map fun _ => ⟨rfl, rfl⟩

/-- A session is opened behind the others. -/
theorem session?_openSession (h : Host) (id : SessionId) (i : Nat) :
    (h.openSession id).session? i = if i = h.sessions.length then
      some ⟨id, .opened h.limits.mailboxCapacity h.clock h.limits.handshakeTimeout, true⟩
    else h.session? i := by
  rw [session?, openSession]
  dsimp only
  split
  · rename_i hi
    rw [hi, List.getElem?_concat_length]
  · rename_i hi
    rcases Nat.lt_or_gt_of_ne hi with hold | hbeyond
    · rw [List.getElem?_append_left hold, session?]
    · rw [session?, List.getElem?_eq_none_iff.2 (by rw [List.length_append]; exact hbeyond),
        List.getElem?_eq_none_iff.2 (Nat.le_of_lt hbeyond)]

/-- **A session goes on** in every move, with what concerns it. -/
theorem exists_lives_move (m : Move) (ho : h.session? i = some o) :
    ∃ o', (h.move m).session? i = some o' ∧ Lives (m.pulsesOf i) o o' := by
  by_cases hopens : ∃ id, m = .openSession id
  · obtain ⟨id, rfl⟩ := hopens
    have hold : i ≠ h.sessions.length := by
      have hi := (List.getElem?_eq_some_iff.1 ho).1
      exact Nat.ne_of_lt hi
    exact ⟨o, by rw [move, session?_openSession, if_neg hold, ho], rfl, rfl⟩
  · have hrel := h.rel_move (fun id hid => hopens ⟨id, hid⟩) i
    rw [ho] at hrel
    cases hmoved : (h.move m).session? i with
    | none =>
      rw [hmoved] at hrel
      cases hrel
    | some o' =>
      rw [hmoved] at hrel
      cases hrel with
      | some hlives => exact ⟨o', rfl, hlives⟩

/-- A session that was not there before a move was opened in it. -/
theorem openSession_of_none (hnone : h.session? i = none) (ho : (h.move m).session? i = some o) :
    m = .openSession o.id ∧ h.sessions.length = i ∧
      o.link = .opened h.limits.mailboxCapacity h.clock h.limits.handshakeTimeout := by
  by_cases hopens : ∃ id, m = .openSession id
  · obtain ⟨id, rfl⟩ := hopens
    rw [move, session?_openSession] at ho
    split at ho
    · rename_i hi
      cases ho
      exact ⟨rfl, hi.symm, rfl⟩
    · rw [hnone] at ho
      cases ho
  · have hrel := h.rel_move (fun id hid => hopens ⟨id, hid⟩) i
    rw [hnone, ho] at hrel
    cases hrel

/-- The limits of a host are those that it was made with. -/
theorem limits_move (h : Host) (m : Move) : (h.move m).limits = h.limits := by
  cases m with
  | openSession id => rfl
  | pulse index p =>
    rw [move]
    split
    · split
      · rfl
      · rfl
    · rfl
  | elapse ms => rfl
  | unregister id =>
    rw [move, unregister]
    cases h.find? id with
    | none => rfl
    | some index => rfl
  | prune => rfl

/-- A move in which a keeper chooses in order is no other to its session. -/
theorem isBiased_pulsesOf (hpicks : h.Picks m) (ho : h.session? i = some o) :
    o.link.IsBiased (m.pulsesOf i) := by
  cases m with
  | pulse index p =>
    rw [Move.pulsesOf]
    split
    · rename_i hmine
      obtain ⟨rfl, _⟩ := hmine
      exact ⟨hpicks o ho, trivial⟩
    · trivial
  | elapse ms => exact ⟨trivial, trivial⟩
  | openSession id => trivial
  | unregister id => trivial
  | prune => trivial

/-! ## What a life does to a session -/

/-- **A session goes on** in every life of its host, with what concerns it, and its keeper chooses
in order if all do. -/
theorem exists_lives (moves : List Move) (ho : h.session? i = some o) :
    ∃ o', (h.life moves).session? i = some o' ∧ Lives (pulsesOf i moves) o o' ∧
      (h.IsBiased moves → o.link.IsBiased (pulsesOf i moves)) := by
  induction moves generalizing h o with
  | nil => exact ⟨o, ho, ⟨rfl, rfl⟩, fun _ => trivial⟩
  | cons m moves ih =>
    obtain ⟨o', ho', hfirst⟩ := h.exists_lives_move m ho
    obtain ⟨o'', ho'', hmore, hbiased⟩ := ih ho'
    refine ⟨o'', ho'', hfirst.trans hmore, fun hall => ?_⟩
    have hlater := hbiased hall.2
    rw [hfirst.link] at hlater
    exact (isBiased_pulsesOf hall.1 ho).append hlater

/-- **Every session was opened**, and the rest of its life is that of the link that was opened for
it, in the pulses that are its own. -/
theorem exists_opening (moves : List Move) (hnone : h.session? i = none)
    (ho : (h.life moves).session? i = some o) :
    ∃ first rest, moves = first ++ .openSession o.id :: rest ∧
      (h.life first).sessions.length = i ∧
      let opened := Link.opened h.limits.mailboxCapacity (h.life first).clock
        h.limits.handshakeTimeout
      o.link = (opened.life (pulsesOf i rest)).1 ∧
        (h.IsBiased moves → opened.IsBiased (pulsesOf i rest)) := by
  induction moves generalizing h with
  | nil => cases hnone.symm.trans ho
  | cons m moves ih =>
    cases hmoved : (h.move m).session? i with
    | none =>
      obtain ⟨first, rest, rfl, hlength, hlink, hbiased⟩ := ih hmoved ho
      rw [limits_move] at hlink hbiased
      exact ⟨m :: first, rest, rfl, hlength, hlink, fun hall => hbiased hall.2⟩
    | some o' =>
      obtain ⟨rfl, hlength, hopened⟩ := openSession_of_none hnone hmoved
      obtain ⟨o'', ho'', hlives, hbiased⟩ := exists_lives moves hmoved
      cases ho''.symm.trans ho
      refine ⟨[], moves, by rw [hlives.id]; rfl, hlength, ?_⟩
      show let opened := Link.opened h.limits.mailboxCapacity h.clock h.limits.handshakeTimeout
        o.link = (opened.life _).1 ∧ (_ → opened.IsBiased _)
      rw [← hopened]
      exact ⟨hlives.link, fun hall => hbiased hall.2⟩

/-! ## Time -/

/-- **How long a move takes.** -/
def Move.duration : Move → Nat
  | .elapse ms => ms
  | _ => 0

theorem clock_move (h : Host) (m : Move) : (h.move m).clock = h.clock + m.duration := by
  cases m with
  | openSession id => rfl
  | pulse index p =>
    rw [move]
    split
    · split
      · rfl
      · rfl
    · rfl
  | elapse ms => rfl
  | unregister id =>
    rw [move, unregister]
    cases h.find? id with
    | none => rfl
    | some index => rfl
  | prune => rfl

/-- A move takes as long for a session as for the host. -/
theorem clock_pulsesOf (l : Link) (m : Move) (i : Nat) :
    (l.life (m.pulsesOf i)).1.clock = l.clock + m.duration := by
  cases m with
  | pulse index p =>
    rw [Move.pulsesOf]
    split
    · rename_i hmine
      have hclock : (l.life [p]).1.clock = l.clock + p.duration := (l.attends_pulse p).clock
      rw [hclock, hmine.2]
      rfl
    · rfl
  | elapse ms => rfl
  | openSession id => rfl
  | unregister id => rfl
  | prune => rfl

/-- **A host whose sessions all have its time.** -/
def KeepsTime (h : Host) : Prop := ∀ i o, h.session? i = some o → o.link.clock = h.clock

theorem KeepsTime.move (hkeeps : h.KeepsTime) (m : Move) : (h.move m).KeepsTime := by
  intro i o ho
  cases hbefore : h.session? i with
  | none =>
    obtain ⟨rfl, _, hopened⟩ := openSession_of_none hbefore ho
    rw [hopened]
    rfl
  | some before =>
    obtain ⟨o', ho', hlives⟩ := h.exists_lives_move m hbefore
    cases ho'.symm.trans ho
    rw [hlives.link, clock_pulsesOf, clock_move, hkeeps i before hbefore]

/-- **Every session has the time of its host**, in every life. -/
theorem KeepsTime.life (hkeeps : h.KeepsTime) (moves : List Move) : (h.life moves).KeepsTime := by
  induction moves generalizing h with
  | nil => exact hkeeps
  | cons m moves ih => exact ih (hkeeps.move m)

theorem keepsTime_new (limits : Limits) : (new limits).KeepsTime := fun _ _ ho => by cases ho

end Host

end SafePreview
