import Mathlib.Data.List.Nodup
import Mathlib.Data.List.Pairwise
import SafePreview.Proofs.Session.Hosts

/-!
# Who is in the register

A host keeps a register of the sessions that it opened. A session can leave it in two ways
(`Host.Departure`): it is closed through the register, or it is found closed by a sweep. Sessions
close by themselves at any time, so what a sweep finds depends on when it comes, and the question
is whether the register can lose a session that nobody closed, or keep one that left.

It cannot. The register holds the sessions that were opened and did not depart, in the order in
which they were opened (`Host.register_life`), and what departs in a move is known from the register
and from the status of the sessions just before it (`Host.departures`). Ids are taken to be given
out in ascending order; all that is needed of it is that no id is given out twice, up to the order
in which the sessions are listed.

A sweep goes by the status, which can only be behind: it may miss a session that has just closed,
but does not take an open one.
-/

namespace SafePreview

/-- Two ids with one number are one id. -/
theorem SessionId.eq_of_value {a b : SessionId} (h : a.value = b.value) : a = b := by
  cases a
  cases b
  cases h
  rfl

/-- Ids in ascending order are all different. -/
theorem Host.nodup_of_ascending {ids : List SessionId} (hids : ids.Pairwise (·.value < ·.value)) :
    ids.Nodup := by
  refine hids.imp fun {a b} hlt hsame => ?_
  rw [hsame] at hlt
  exact Nat.lt_irrefl _ hlt

section Lives

variable [Channels]

/-- The id of a session, and whether the register has it. -/
def Opened.entry (o : Opened) : SessionId × Bool := (o.id, o.registered)

/-- Whether a session is said to be closed. -/
def Opened.isOver (o : Opened) : Bool := o.link.status.phase = .closed

namespace Host

/-! ## The register as a list of ids -/

/-- **The ids in the register**, in the order of opening. -/
def registered (h : Host) : List SessionId := h.register.map (·.id)

/-- All ids that were given out, in the order of opening. -/
def ids (h : Host) : List SessionId := h.sessions.map (·.id)

/-- They are known from the entries alone. -/
theorem registered_eq (h : Host) :
    h.registered = ((h.sessions.map Opened.entry).filter (·.2)).map (·.1) := by
  rw [registered, register, List.filter_map, List.map_map]
  rfl

theorem ids_eq (h : Host) : h.ids = (h.sessions.map Opened.entry).map (·.1) := by
  rw [ids, List.map_map]
  rfl

/-- What is registered was opened. -/
theorem registered_sublist (h : Host) : h.registered.Sublist h.ids :=
  List.filter_sublist.map _

variable {h : Host}

/-- A registered id is found where its session is. -/
theorem find?_eq_some {id : SessionId} {i : Nat} (hfind : h.find? id = some i) :
    ∃ o, h.session? i = some o ∧ o.registered = true ∧ o.id = id := by
  obtain ⟨hi, hfound, -⟩ := List.findIdx?_eq_some_iff_getElem.1 hfind
  simp only [Bool.and_eq_true, decide_eq_true_eq] at hfound
  exact ⟨_, List.getElem?_eq_getElem hi, hfound⟩

/-- An id that is not registered is not found, and no other. -/
theorem find?_eq_none {id : SessionId} : h.find? id = none ↔ id ∉ h.registered := by
  rw [find?, List.findIdx?_eq_none_iff, registered, register]
  simp only [List.mem_map, List.mem_filter, Bool.and_eq_false_imp, decide_eq_false_iff_not]
  constructor
  · rintro hnone ⟨o, ⟨ho, hregistered⟩, hid⟩
    exact hnone o ho hregistered hid
  · exact fun hnot o ho hregistered hid => hnot ⟨o, ⟨ho, hregistered⟩, hid⟩

/-! ## What a move does to the register -/

/-- What happens to a session leaves its entry as it is, -/
theorem entries_pulse (h : Host) (index : Nat) (p : Link.Pulse) :
    (h.move (.pulse index p)).sessions.map Opened.entry = h.sessions.map Opened.entry := by
  rw [move]
  split
  · split
    · refine List.ext_getElem? fun i => ?_
      rw [List.getElem?_map, List.getElem?_map]
      show ((h.setLink index _).session? i).map Opened.entry = (h.session? i).map Opened.entry
      rw [session?_setLink, Option.map_map]
      refine congrArg (fun f => (h.session? i).map f) (funext fun o => ?_)
      show (if index = i then { o with link := _ } else o).entry = o.entry
      split
      · rfl
      · rfl
    · rfl
  · rfl

/-- and so does time. -/
theorem entries_elapse (h : Host) (ms : Nat) :
    (h.move (.elapse ms)).sessions.map Opened.entry = h.sessions.map Opened.entry := by
  rw [move, elapse, List.map_map]
  rfl

/-- **To take a session out** is to leave all others in. -/
theorem sessions_unregister {id : SessionId} {i : Nat} (hnodup : h.ids.Nodup)
    (hfind : h.find? id = some i) :
    (h.sessions.modify i fun o => { o with registered := false })
      = h.sessions.map fun o => if o.id = id then { o with registered := false } else o := by
  obtain ⟨found, hfound, -, hid⟩ := find?_eq_some hfind
  refine List.ext_getElem? fun j => ?_
  rw [List.getElem?_modify, List.getElem?_map]
  cases ho : h.sessions[j]? with
  | none => rfl
  | some o =>
    have hsame : i = j ↔ o.id = id := by
      constructor
      · rintro rfl
        cases hfound.symm.trans ho
        exact hid
      · intro hsame
        have hi : h.ids[i]? = some id := by
          rw [ids, List.getElem?_map]
          exact (congrArg _ hfound).trans (congrArg some hid)
        have hj : h.ids[j]? = some id := by
          rw [ids, List.getElem?_map, ho]
          exact congrArg some hsame
        obtain ⟨hlt, -⟩ := List.getElem?_eq_some_iff.1 hi
        exact (List.getElem?_inj hlt hnodup).1 (hi.trans hj.symm)
    simp [hsame]

/-- **A session that is closed through the register** leaves it, and no other does. An id that is
not registered is that of no session, and nothing is changed. -/
theorem unregister_cases (hnodup : h.ids.Nodup) (id : SessionId) :
    (id ∈ h.registered ∧ ∃ i o h', h.unregister id = .ok (i, h') ∧ h.session? i = some o ∧
      o.id = id ∧ h'.register = h.register.filter (·.id ≠ id) ∧ h'.ids = h.ids ∧
      h.move (.unregister id) = h') ∨
    (id ∉ h.registered ∧ h.unregister id = .error (.notFound id.text) ∧
      h.move (.unregister id) = h) := by
  cases hfind : h.find? id with
  | none =>
    refine .inr ⟨find?_eq_none.1 hfind, ?_, ?_⟩
    · rw [unregister, hfind]
    · rw [move, unregister, hfind]
  | some i =>
    obtain ⟨o, ho, hregistered, hid⟩ := find?_eq_some hfind
    have hmem : id ∈ h.registered := by
      by_contra hnot
      rw [find?_eq_none.2 hnot] at hfind
      cases hfind
    have hsessions := sessions_unregister hnodup hfind
    refine .inl ⟨hmem, i, o, _, by rw [unregister, hfind], ho, hid, ?_, ?_, ?_⟩
    · rw [register, hsessions, register, List.filter_filter, List.filter_map]
      -- a session that stays is as it was
      rw [List.filter_congr (q := fun o => decide (o.id ≠ id) && o.registered)]
      · refine (List.map_congr_left fun o ho => ?_).trans (List.map_id _)
        rw [List.mem_filter, Bool.and_eq_true, decide_eq_true_eq] at ho
        exact if_neg ho.2.1
      · intro o _
        by_cases hsame : o.id = id
        · simp [hsame]
        · simp [hsame]
    · rw [ids, hsessions, List.map_map]
      refine List.map_congr_left fun o _ => ?_
      show (if o.id = id then { o with registered := false } else o).id = o.id
      split
      · rfl
      · rfl
    · rw [move, unregister, hfind]

/-- What a sweep keeps is what is not said to be closed. -/
theorem register_prune (h : Host) :
    h.prune.2.register = h.register.filter fun o => !o.isOver := by
  rw [prune, register, register, List.filter_filter, List.filter_map]
  rw [List.filter_congr (q := fun o => !o.isOver && o.registered)]
  · refine (List.map_congr_left fun o ho => ?_).trans (List.map_id _)
    rw [List.mem_filter, Bool.and_eq_true, Bool.not_eq_true'] at ho
    obtain ⟨-, hopen, hregistered⟩ := ho
    have hstays : (o.registered && o.link.status.phase ≠ .closed) = o.registered := by
      rw [decide_not, show decide (o.link.status.phase = .closed) = false from hopen]
      simp
    show { o with registered := o.registered && o.link.status.phase ≠ .closed } = o
    rw [hstays]
  · intro o _
    simp [Opened.isOver, Bool.and_comm]

/-- **A sweep takes out those that are said to be closed**, all of them and no others, and by so
many the register becomes shorter. -/
theorem prune_eq (h : Host) :
    h.prune.1 = (h.register.filter Opened.isOver).length ∧
      h.prune.2.register = h.register.filter (fun o => !o.isOver) ∧ h.prune.2.ids = h.ids := by
  refine ⟨?_, h.register_prune, ?_⟩
  · have hcount : h.prune.1 = h.register.length - h.prune.2.register.length := rfl
    rw [hcount, register_prune, List.length_eq_length_filter_add Opened.isOver, Nat.add_sub_cancel]
  · rw [prune, ids, ids, List.map_map]
    rfl

/-! ## Departures -/

/-- **How a session left the register.** -/
inductive Departure where
  /-- It was closed through the register. -/
  | closed (id : SessionId)
  /-- It was closed when a sweep came. -/
  | swept (id : SessionId)
deriving DecidableEq

/-- Who left. -/
def Departure.who : Departure → SessionId
  | .closed id => id
  | .swept id => id

/-- **Who leaves the register in a move.** -/
def leaving (h : Host) : Move → List Departure
  | .unregister id =>
    match h.unregister id with
    | .ok _ => [.closed id]
    | .error _ => []
  | .prune => (h.register.filter Opened.isOver).map fun o => .swept o.id
  | .openSession _ | .pulse _ _ | .elapse _ => []

/-- **Who left the register in a life**, in order. -/
def departures (h : Host) : List Move → List Departure
  | [] => []
  | m :: rest => h.leaving m ++ (h.move m).departures rest

/-- The id that a move gives out. -/
def Move.opens : Move → List SessionId
  | .openSession id => [id]
  | .pulse _ _ | .elapse _ | .unregister _ | .prune => []

/-- **The ids that are given out in a life**, in order. -/
def opens (moves : List Move) : List SessionId := moves.flatMap Move.opens

/-- **Who leaves was registered**, and leaves once. -/
theorem leaving_sublist (hnodup : h.ids.Nodup) (m : Move) :
    ((h.leaving m).map Departure.who).Sublist h.registered := by
  cases m with
  | unregister id =>
    rw [leaving]
    rcases unregister_cases hnodup id with ⟨hmem, i, o, h', hok, -⟩ | ⟨-, herror, -⟩
    · rw [hok]
      exact List.singleton_sublist.2 hmem
    · rw [herror]
      exact List.nil_sublist _
  | prune =>
    rw [leaving, List.map_map]
    exact List.filter_sublist.map _
  | openSession id => exact List.nil_sublist _
  | pulse index p => exact List.nil_sublist _
  | elapse ms => exact List.nil_sublist _

/-- The ids that moves give out are kept in order. -/
theorem ids_move (h : Host) (m : Move) (hnodup : h.ids.Nodup) :
    (h.move m).ids = h.ids ++ m.opens := by
  cases m with
  | openSession id => exact List.map_append
  | pulse index p => rw [ids_eq, entries_pulse, ids_eq, Move.opens, List.append_nil]
  | elapse ms => rw [ids_eq, entries_elapse, ids_eq, Move.opens, List.append_nil]
  | unregister id =>
    rcases unregister_cases hnodup id with ⟨-, i, o, h', -, -, -, -, hids, hmove⟩ | ⟨-, -, hmove⟩
    · rw [hmove, hids, Move.opens, List.append_nil]
    · rw [hmove, Move.opens, List.append_nil]
  | prune =>
    rw [Move.opens, List.append_nil]
    exact h.prune_eq.2.2

/-- **What a move does to the register**: the id that it gives out is the last in it, and those who
leave are not in it any more. -/
theorem registered_move (h : Host) (m : Move) (hids : h.ids.Nodup) :
    (h.move m).registered = (h.registered ++ m.opens).filter
      fun id => id ∉ (h.leaving m).map Departure.who := by
  cases m with
  | openSession id =>
    rw [registered, move, openSession, register, List.filter_append, List.map_append]
    simp [leaving, Move.opens, registered, register]
  | pulse index p =>
    rw [registered_eq, entries_pulse, ← registered_eq]
    simp [leaving, Move.opens]
  | elapse ms =>
    rw [registered_eq, entries_elapse, ← registered_eq]
    simp [leaving, Move.opens]
  | unregister id =>
    rw [leaving, Move.opens, List.append_nil]
    rcases unregister_cases hids id with
      ⟨-, i, o, h', hok, -, -, hregister, -, hmove⟩ | ⟨-, herror, hmove⟩
    · rw [hmove, hok, registered, hregister, registered, List.filter_map]
      refine congrArg _ (List.filter_congr fun o _ => ?_)
      simp [Departure.who]
    · rw [hmove, herror]
      simp
  | prune =>
    rw [leaving, Move.opens, List.append_nil, move, registered, h.prune_eq.2.1, registered,
      List.filter_map, List.map_map]
    refine congrArg _ (List.filter_congr fun o ho => ?_)
    -- as ids are not given out twice, a session has the id of one that leaves only if it leaves
    have hregistered : (h.register.map (·.id)).Nodup := hids.sublist h.registered_sublist
    have hsame : o.id ∈ ((h.register.filter Opened.isOver).map fun o => Departure.who (.swept o.id))
        ↔ o.isOver = true := by
      rw [List.mem_map]
      constructor
      · rintro ⟨other, hother, hid⟩
        rw [List.mem_filter] at hother
        exact List.inj_on_of_nodup_map hregistered hother.1 ho hid ▸ hother.2
      · exact fun hover => ⟨o, List.mem_filter.2 ⟨ho, hover⟩, rfl⟩
    rw [Function.comp_apply, Bool.eq_iff_iff, decide_eq_true_iff]
    show _ ↔ o.id ∉ ((h.register.filter Opened.isOver).map fun o => Departure.who (.swept o.id))
    rw [hsame]
    simp

/-! ## Every life -/

/-- The ids of a life are kept in order. -/
theorem ids_life (h : Host) (moves : List Move) (hnodup : (h.ids ++ opens moves).Nodup) :
    (h.life moves).ids = h.ids ++ opens moves := by
  induction moves generalizing h with
  | nil => exact (List.append_nil _).symm
  | cons m moves ih =>
    have hids := h.ids_move m hnodup.of_append_left
    rw [opens, List.flatMap_cons, ← List.append_assoc] at hnodup ⊢
    rw [← hids] at hnodup ⊢
    exact ih _ hnodup

/-- An id that is given out later is none of those that leave now. -/
theorem notMem_leaving {m : Move} {id : SessionId} {later : List SessionId}
    (hnodup : (h.ids ++ later).Nodup) (hid : id ∈ later) :
    id ∉ (h.leaving m).map Departure.who := by
  intro hmem
  have hbefore := (leaving_sublist hnodup.of_append_left m).subset hmem
  exact List.disjoint_of_nodup_append hnodup (h.registered_sublist.subset hbefore) hid

/-- **The register of a life** holds what was in it and what was opened, less what departed. -/
theorem registered_life (h : Host) (moves : List Move) (hnodup : (h.ids ++ opens moves).Nodup) :
    (h.life moves).registered = (h.registered ++ opens moves).filter
      fun id => id ∉ (h.departures moves).map Departure.who := by
  induction moves generalizing h with
  | nil => simp [life, opens, departures]
  | cons m moves ih =>
    rw [opens, List.flatMap_cons] at hnodup ⊢
    have hlater := hnodup
    rw [← List.append_assoc] at hnodup
    have hbefore := hnodup.of_append_left.of_append_left
    have hmove := h.registered_move m hbefore
    rw [← h.ids_move m hbefore] at hnodup
    show ((h.move m).life moves).registered = _
    rw [ih _ hnodup, hmove, opens, ← List.append_assoc, List.filter_append, List.filter_filter,
      List.filter_append _ (moves.flatMap _)]
    refine congrArg₂ _ (List.filter_congr fun id _ => ?_) (List.filter_congr fun id hid => ?_)
    · rw [departures, List.map_append, Bool.and_comm]
      simp [not_or]
    · have hnot := notMem_leaving (m := m) hlater (List.mem_append_right _ hid)
      simp only [departures, List.map_append, List.mem_append, hnot, false_or]

/-- **Nobody departs twice**, and nobody who was not registered. -/
theorem departures_nodup (h : Host) (moves : List Move) (hnodup : (h.ids ++ opens moves).Nodup) :
    ((h.departures moves).map Departure.who).Nodup ∧
      ∀ id ∈ (h.departures moves).map Departure.who, id ∈ h.registered ++ opens moves := by
  induction moves generalizing h with
  | nil => exact ⟨List.nodup_nil, fun id hid => absurd hid List.not_mem_nil⟩
  | cons m moves ih =>
    rw [opens, List.flatMap_cons] at hnodup ⊢
    have hlater := hnodup
    rw [← List.append_assoc] at hnodup
    have hbefore := hnodup.of_append_left.of_append_left
    have hmove := h.registered_move m hbefore
    have hleaving := leaving_sublist hbefore m
    rw [← h.ids_move m hbefore] at hnodup
    obtain ⟨hrest, hmem⟩ := ih _ hnodup
    rw [departures, List.map_append]
    constructor
    · refine List.nodup_append.2 ⟨?_, hrest, ?_⟩
      · exact (hbefore.sublist h.registered_sublist).sublist hleaving
      · -- who left is not in the register any more, and no id is given out again
        rintro id hid _ hagain rfl
        rcases List.mem_append.1 (hmem id hagain) with hthere | hopened
        · rw [hmove, List.mem_filter, decide_eq_true_iff] at hthere
          exact hthere.2 hid
        · exact notMem_leaving hlater (List.mem_append_right _ hopened) hid
    · intro id hid
      rcases List.mem_append.1 hid with hnow | hthen
      · exact List.mem_append_left _ (hleaving.subset hnow)
      · rcases List.mem_append.1 (hmem id hthen) with hthere | hopened
        · rw [hmove, List.mem_filter] at hthere
          rw [← List.append_assoc]
          exact List.mem_append_left _ hthere.1
        · rw [← List.append_assoc]
          exact List.mem_append_right _ hopened

/-- What the status of a session of a host says of its close is the case. -/
theorem isTruthful_session {limits : Limits} {moves : List Move} {i : Nat} {o : Opened}
    (ho : ((new limits).life moves).session? i = some o) : o.link.IsTruthful := by
  obtain ⟨first, rest, -, -, hlink, -⟩ := exists_opening moves rfl ho
  rw [hlink]
  exact (Link.isTruthful_opened _ _ _).life _

/-- So it is of every registered session. -/
theorem closed_of_isOver {limits : Limits} {moves : List Move} {o : Opened}
    (ho : o ∈ ((new limits).life moves).register) (hover : o.isOver = true) :
    o.link.session.phase = .closed := by
  obtain ⟨i, hi⟩ := List.mem_iff_getElem?.1 (List.mem_filter.1 ho).1
  exact (isTruthful_session hi).status (decide_eq_true_iff.1 hover)

/-! ## What is told about the register -/

/-- **The register is listed in the order of opening**, whatever order it is kept in. -/
theorem mergeSort_of_perm (hids : h.registered.Pairwise (·.value < ·.value))
    {infos : List SessionInfo} (hperm : infos.Perm (h.register.map Opened.info)) :
    infos.mergeSort (fun a b => a.id.value ≤ b.id.value) = h.register.map Opened.info := by
  have hentries : (h.register.map Opened.info).map (·.id) = h.registered := by
    rw [List.map_map]
    rfl
  rw [← hentries] at hids
  have hnodup := nodup_of_ascending hids
  have hsorted : (infos.mergeSort fun a b => a.id.value ≤ b.id.value).Pairwise
      fun a b => decide (a.id.value ≤ b.id.value) = true := by
    refine List.pairwise_mergeSort (fun a b c hab hbc => ?_) (fun a b => ?_) infos
    · rw [decide_eq_true_iff] at *
      exact Nat.le_trans hab hbc
    · rw [Bool.or_eq_true, decide_eq_true_iff, decide_eq_true_iff]
      exact Nat.le_total _ _
  have hsame := (List.mergeSort_perm infos fun a b => a.id.value ≤ b.id.value).trans hperm
  refine List.Perm.eq_of_pairwise (fun a b ha hb hab hba => ?_) hsorted
    ((List.pairwise_map.1 hids).imp fun hlt => decide_eq_true (Nat.le_of_lt hlt)) hsame
  -- an id has one entry
  rw [decide_eq_true_iff] at hab hba
  exact List.inj_on_of_nodup_map hnodup (hsame.mem_iff.1 ha) hb
    (SessionId.eq_of_value (Nat.le_antisymm hab hba))

/-! ## The register in every life -/

/-- **A register in order**: what it holds after some moves, what a next move would do to it, and
what is told about it. -/
structure IsKept (opened : List SessionId) (departures : List Departure) (h : Host) : Prop where
  /-- The sessions that were opened and did not depart, in the order of opening. -/
  holds : h.registered = opened.filter fun id => id ∉ departures.map Departure.who
  /-- Only what was opened departed, and only once. -/
  departed : (departures.map Departure.who).Nodup ∧
    ∀ id ∈ departures.map Departure.who, id ∈ opened
  /-- A session is taken out by a close of its own id, or by a sweep, and then it is closed, and not
  only said to be. -/
  leaves : ∀ m : Move, ∀ id ∈ h.registered, id ∉ (h.move m).registered →
    m = .unregister id ∨
      (m = .prune ∧ ∃ o ∈ h.register, o.id = id ∧ o.link.status.phase = .closed ∧
        o.link.session.phase = .closed)
  /-- A sweep takes out those that are said to be closed, and says how many they are. -/
  sweeps : h.prune.1 = (h.register.filter Opened.isOver).length ∧
    h.prune.2.register = h.register.filter (fun o => !o.isOver)
  /-- A registered session can be closed by its id; all others stay. -/
  closes : ∀ id ∈ h.registered, ∃ i o h', h.unregister id = .ok (i, h') ∧ h.session? i = some o ∧
    o.id = id ∧ h'.register = h.register.filter (·.id ≠ id)
  /-- To close it again, or one that was never opened, is an error that changes nothing. -/
  forgets : ∀ id, id ∈ departures.map Departure.who ∨ id ∉ opened →
    h.unregister id = .error (.notFound id.text) ∧ h.move (.unregister id) = h
  /-- Every registered session is listed once, in the order of opening, -/
  lists : h.list = h.register.map Opened.info ∧ h.list.map (·.id) = h.registered
  /-- whatever the order in which the register is gone through. -/
  sorts : ∀ infos : List SessionInfo, infos.Perm (h.register.map Opened.info) →
    infos.mergeSort (fun a b => a.id.value ≤ b.id.value) = h.list
  /-- Those that are listed and not said to be closed are counted. -/
  counts : h.liveCount = (h.list.filter (·.status.phase ≠ .closed)).length

/-- What takes a session out of the register is known. -/
theorem cases_of_leaving (hids : h.ids.Nodup)
    (htruth : ∀ o ∈ h.register, o.isOver = true → o.link.session.phase = .closed) (m : Move)
    {id : SessionId} (hid : id ∈ (h.leaving m).map Departure.who) :
    m = .unregister id ∨
      (m = .prune ∧ ∃ o ∈ h.register, o.id = id ∧ o.link.status.phase = .closed ∧
        o.link.session.phase = .closed) := by
  cases m with
  | unregister closing =>
    rw [leaving] at hid
    rcases unregister_cases hids closing with ⟨-, i, o, h', hok, -⟩ | ⟨-, herror, -⟩
    · rw [hok] at hid
      exact .inl (congrArg _ (List.mem_singleton.1 hid).symm)
    · rw [herror] at hid
      exact absurd hid List.not_mem_nil
  | prune =>
    rw [leaving, List.map_map, List.mem_map] at hid
    obtain ⟨o, ho, rfl⟩ := hid
    obtain ⟨hmem, hover⟩ := List.mem_filter.1 ho
    exact .inr ⟨rfl, o, hmem, rfl, decide_eq_true_iff.1 hover, htruth o hmem hover⟩
  | openSession _ => exact absurd hid List.not_mem_nil
  | pulse _ _ => exact absurd hid List.not_mem_nil
  | elapse _ => exact absurd hid List.not_mem_nil

/-- **The register is in order in every life of a host**, however sessions are opened, closed, swept
and at work in it, as long as ids are given out in ascending order. -/
theorem register_isKept (limits : Limits) (moves : List Move)
    (hids : (opens moves).Pairwise (·.value < ·.value)) :
    IsKept (opens moves) ((new limits).departures moves) ((new limits).life moves) := by
  have hnodup : ((new limits).ids ++ opens moves).Nodup := nodup_of_ascending hids
  have hopened : ((new limits).life moves).ids = opens moves := ids_life _ moves hnodup
  have hregistered := registered_life _ moves hnodup
  change _ = (opens moves).filter _ at hregistered
  have hleft := departures_nodup _ moves hnodup
  have hunique : ((new limits).life moves).ids.Nodup := hopened ▸ nodup_of_ascending hids
  have hlist : ∀ infos : List SessionInfo, infos.Perm _ → _ = _ := fun _ =>
    mergeSort_of_perm (h := (new limits).life moves)
      (hids.sublist (hregistered ▸ List.filter_sublist))
  have hlisted : ((new limits).life moves).list = _ := hlist _ (List.Perm.refl _)
  refine
    { holds := hregistered
      departed := hleft
      leaves := fun m id hid hgone => ?_
      sweeps := ⟨(prune_eq _).1, (prune_eq _).2.1⟩
      closes := fun id hid => ?_
      forgets := fun id hid => ?_
      lists := ⟨hlisted, ?_⟩
      sorts := fun infos hperm => (hlist infos hperm).trans hlisted.symm
      counts := ?_ }
  · rw [registered_move _ m hunique, List.mem_filter, decide_eq_true_iff] at hgone
    by_contra hnot
    exact hgone ⟨List.mem_append_left _ hid, fun hleaves =>
      hnot (cases_of_leaving hunique (fun o => closed_of_isOver) m hleaves)⟩
  · rcases unregister_cases hunique id with ⟨-, i, o, h', hok, ho, ho', hregister, -⟩ | ⟨hnot, -⟩
    · exact ⟨i, o, h', hok, ho, ho', hregister⟩
    · exact absurd hid hnot
  · have hnot : id ∉ ((new limits).life moves).registered := by
      rw [hregistered, List.mem_filter, decide_eq_true_iff]
      rintro ⟨hmem, hstays⟩
      exact hid.elim hstays fun hunknown => hunknown hmem
    exact (unregister_cases hunique id).elim (fun hthere => absurd hthere.1 hnot) (·.2)
  · rw [hlisted, List.map_map]
    rfl
  · rw [hlisted, List.filter_map, List.length_map, ← List.countP_eq_length_filter]
    rfl

end Host

end Lives

namespace Host

/-- Three sessions: the first is closed twice, the second never says ready and is swept, and the
third is ready when the sweep comes. -/
def threeSessions : List Move :=
  [.openSession (.ofNat 1), .openSession (.ofNat 2), .openSession (.ofNat 3)]
    ++ [.pulse 1 (.event .turn), .pulse 2 (.event .turn), .pulse 2 (.event (.send 7 .ready)),
      .pulse 2 (.event .turn)]
    ++ [.unregister (.ofNat 1), .prune, .unregister (.ofNat 1)]
    ++ [.elapse 1000, .pulse 1 (.event .turn), .prune]

/-- The first two depart, each in its own way, and the third is left. -/
theorem register_threeSessions :
    (opens threeSessions).Pairwise (·.value < ·.value) ∧
      (new ⟨1000, 1, false⟩).departures threeSessions
        = [.closed (.ofNat 1), .swept (.ofNat 2)] ∧
      ((new ⟨1000, 1, false⟩).life threeSessions).registered = [.ofNat 3] ∧
      IsKept (opens threeSessions) ((new ⟨1000, 1, false⟩).departures threeSessions)
        ((new ⟨1000, 1, false⟩).life threeSessions) := by
  have hids : (opens threeSessions).Pairwise (·.value < ·.value) := by decide +kernel
  have hleft : (new ⟨1000, 1, false⟩).departures threeSessions
      = [.closed (.ofNat 1), .swept (.ofNat 2)] := by decide +kernel
  have hkept := register_isKept ⟨1000, 1, false⟩ threeSessions hids
  refine ⟨hids, hleft, ?_, hkept⟩
  rw [hkept.holds, hleft]
  decide +kernel

end Host

end SafePreview
