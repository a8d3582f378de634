import Mathlib.Data.List.Nodup
import SafePreview.Proofs.Web.Pushes

/-!
# A beat keeps the books

What a pulse does for those who ask of its session (`Link.Handles`) is told to the requests that
wait, and the two accounts meet here. An answer names a caller, and the books say who that is: the
one request that waits under that ticket, or somebody who asks for no push. So each content that
leaves the session's account is told to the very request that brought it, and no other answer is.

If the session took a content, the push of that request is entered as taken, be there still someone
to be answered or not. If it refused some, they leave the books, and with them everything about
them: the session is closed, and undisturbed in such a pulse. With the books therefore goes a
promise about the moves of a server (`Server.Kept`): one in which a push is answered with an error
leaves all sessions alone.
-/

namespace SafePreview

open Markup (Policy SafeMarkup)

namespace Server

/-- What one session took in addition is entered for it. -/
theorem takenBy_append {index : Nat} {took new : List Taken}
    (hnew : ∀ p ∈ new, p.session = index) (i : Nat) :
    takenBy i (took ++ new) = takenBy i took ++ if i = index then new else [] := by
  rw [takenBy, takenBy, List.filter_append]
  congr 1
  split
  · rename_i hi
    exact List.filter_eq_self.2 fun p hp => decide_eq_true ((hnew p hp).trans hi.symm)
  · rename_i hi
    refine List.filter_eq_nil_iff.2 fun p hp hsession => hi ?_
    rw [← of_decide_eq_true hsession, hnew p hp]

/-- Where nothing is read nothing has to be written. -/
theorem written_unread {effects : List Effect} (h : Link.received effects = []) (i j : Nat) :
    written j [] = if j = i then Link.received effects else [] := by
  rw [h, ite_self]
  rfl

end Server

variable [Channels]

namespace Link

/-- Those who ask no more in a pulse, and who is answered. -/
theorem Handles.exists_gone {l : Link} {p : Pulse} {happened : Link × List Effect}
    (h : l.Handles p happened) :
    ∃ gone, (l.asking ++ p.asks).Perm (gone ++ happened.1.asking) ∧
      happened.1.others ⊆ l.others ++ p.others ∧
      ∀ caller answer, .answered caller answer ∈ happened.2 →
        caller ∈ gone.map (·.1) ∨ caller ∈ l.others ++ p.others := by
  cases h with
  | refuses gone asking others answered =>
    exact ⟨gone, asking, others, fun caller answer hmem =>
      (answered caller answer hmem).imp_left And.right⟩
  | accepts caller markup receipt asking others effects =>
    refine ⟨[(caller, markup)], asking, others, fun other answer hmem => ?_⟩
    rw [effects] at hmem
    rcases List.mem_cons.1 hmem with hmem | hmem
    · cases hmem
    · cases List.mem_singleton.1 hmem
      exact .inl (List.mem_singleton_self _)

/-- A context reads in one kind of pulse alone. -/
theorem received_pulse (l : Link) {p : Pulse} (hread : p ≠ .event .read) :
    received (l.pulse p).2 = [] := by
  cases p with
  | event e =>
    by_cases hdeafen : e = .deafen
    · rw [hdeafen]
      rfl
    by_cases hturn : e = .turn
    · rw [hturn]
      show received (l.turn?.getD (l, [])).2 = []
      cases hnext : l.turn? with
      | none => rfl
      | some next =>
        obtain ⟨l', effects⟩ := next
        rcases turn?_cases hnext with ⟨_, _, rfl⟩ | ⟨_, _, rfl⟩ | ⟨_, _, part, _, _, rfl⟩
        · rfl
        · exact (isQuiet_stop l).1
        · exact (part_frame l part).2.1
    exact (l.agrees_step (fun he => hread (congrArg _ he)) hdeafen hturn).2.1
  | create =>
    rw [pulse]
    split
    · rfl
    · rfl
  | part part =>
    rw [pulse]
    split
    · exact (part_frame l part).2.1
    · rfl
  | discard =>
    rw [pulse]
    split
    · rfl
    · rfl
  | publish => rfl
  | stop =>
    rw [pulse]
    split
    · exact (isQuiet_stop l).1
    · rfl

end Link

namespace Server

/-! ## What a pulse leaves as it is -/

/-- The server but for those who wait. -/
theorem pulseOf_server (s : Server) (i : Nat) (o : Opened) (p : Link.Pulse) :
    (s.pulseOf i o p).1.host = s.host.setLink i (o.link.pulse p).1 ∧
      (s.pulseOf i o p).1.policy = s.policy ∧ (s.pulseOf i o p).1.requests = s.requests ∧
      (s.pulseOf i o p).1.found = s.found := by
  rw [(pulseOf_concludes s i o p).server]
  exact ⟨rfl, rfl, rfl, rfl⟩

/-- A pulse of a session leaves all sessions in place. -/
theorem keeps_pulseOf (s : Server) {i : Nat} {o : Opened} (ho : s.host.session? i = some o)
    (p : Link.Pulse) : s.Keeps (s.pulseOf i o p).1 := by
  intro j o' ho'
  have hset := Host.session?_setLink s.host i (o.link.pulse p).1 j
  rw [← (pulseOf_server s i o p).1, ho', Option.map_some] at hset
  refine ⟨_, hset, ?_⟩
  split
  · rename_i hj
    rw [← hj, ho] at ho'
    cases ho'
    exact ⟨rfl, fun hclosed => (Link.session_pulse_of_closed hclosed p).symm ▸ hclosed⟩
  · exact ⟨rfl, id⟩

variable {policy : Policy} {asked : List Request} {unknown : Nat → String → Prop}
  {seen frames : List Reaction} {took new : List Taken} {left : List Awaited} {s s' : Server}
  {i : Nat} {o : Opened} {p : Link.Pulse}

/-- After a pulse of a session that session is what it became, and any other is what it was. -/
theorem session_of_pulseOf (ho : s.host.session? i = some o) {j : Nat} {o' : Opened}
    (ho' : (s.pulseOf i o p).1.host.session? j = some o') :
    (j = i ∧ o' = { o with link := (o.link.pulse p).1 }) ∨
      (j ≠ i ∧ s.host.session? j = some o') := by
  rw [(pulseOf_server s i o p).1, Host.session?_setLink] at ho'
  by_cases hj : j = i
  · rw [hj, ho, Option.map_some, if_pos rfl] at ho'
    exact .inl ⟨hj, (Option.some.inj ho').symm⟩
  · obtain ⟨o'', ho'', rfl⟩ := Option.map_eq_some_iff.1 ho'
    rw [if_neg (Ne.symm hj)]
    exact .inr ⟨hj, ho''⟩

/-- Every ticket stands somewhere as before. -/
theorem ticketsOf_pulseOf (s : Server) (i : Nat) (o : Opened) (p : Link.Pulse)
    (seen : List Reaction) (left : List Awaited) (hframes : responded frames = []) :
    (ticketsOf (seen ++ ((s.pulseOf i o p).2 ++ frames)) left (s.pulseOf i o p).1).Perm
      (ticketsOf seen left s) := by
  have htold :=
    ((pulseOf_concludes s i o p).tickets.append_right (left.map (·.ticket))).append_right
      (s.found.map (·.ticket))
  rw [ticketsOf, ticketsOf, (pulseOf_server s i o p).2.2.2, responded_append, responded_append,
    hframes, List.append_nil, List.map_append, List.map_append, List.map_append, List.append_assoc]
  refine .append_left _ ?_
  rw [← List.append_assoc, ← List.append_assoc]
  exact htold

/-- Who is not answered still waits, or went away before. -/
theorem mem_of_unanswered {a : Awaited} (ha : a ∈ s.awaited ++ left)
    (hnot : ∀ answer, .answered (callerOf a.ticket) answer ∉ (o.link.pulse p).2) :
    a ∈ (s.pulseOf i o p).1.awaited ++ left :=
  List.mem_append.2 ((List.mem_append.1 ha).imp_left fun hwaits =>
    (pulseOf_concludes s i o p).kept a hwaits hnot)

/-- **A move that leaves all sessions alone**, and of which no context gets to see anything. -/
structure LeavesAlone (s : Server) (done : Server × List Reaction) : Prop where
  host : s.host.Undisturbed done.1.host
  silent : ∀ i, written i done.2 = []

/-- Only what is done to sessions counts. -/
theorem LeavesAlone.of_host {s s' : Server} {done : Server × List Reaction}
    (h : s'.LeavesAlone done) (hhost : s'.host = s.host) : s.LeavesAlone done :=
  ⟨hhost ▸ h.host, h.silent⟩

variable [ParentOrder]

namespace Books

/-! ## Who is who -/

/-- One that waits is known by its ticket. -/
theorem eq_of_ticket (h : Books policy asked unknown seen took left s) {a b : Awaited}
    (ha : a ∈ s.awaited ++ left) (hb : b ∈ s.awaited ++ left) (hticket : a.ticket = b.ticket) :
    a = b := by
  have htickets := h.tickets
  rw [ticketsOf, List.nodup_append, List.nodup_append] at htickets
  exact List.inj_on_of_nodup_map htickets.2.1.1 ha hb hticket

/-- One that waits with a content is nobody who asks for no push. -/
theorem not_isOther (h : Books policy asked unknown seen took left s) {a : Awaited}
    (ha : a ∈ s.awaited ++ left) {ask : Nat × SafeMarkup} {j : Nat} (hask : AsksFor j ask a) :
    ¬ IsOther asked (callerOf a.ticket) := by
  obtain ⟨r, hr, herrand⟩ := h.awaited a ha
  obtain ⟨-, -, id, preview, hcontent, -⟩ := hask
  rw [hcontent] at herrand
  rintro (hcontext | ⟨ticket, r', hcaller, hr', hother⟩)
  · cases hcontext
  · cases Nat.succ.inj hcaller
    rw [hr] at hr'
    cases hr'
    exact hother herrand.1.isPush

end Books

/-- **A pulse that fits the books**: who asks with it waits and asks for the first time. -/
structure Fits (asked : List Request) (s : Server) (i : Nat) (o : Opened) (p : Link.Pulse) :
    Prop where
  session : s.host.session? i = some o
  asks : ∀ ask ∈ p.asks, ∃ a ∈ s.awaited, AsksFor i ask a
  callers : ((o.link.asking ++ p.asks).map (·.1)).Nodup
  others : ∀ caller ∈ p.others, IsOther asked caller

namespace Books

/-- A pulse in which nobody asks for a push fits. -/
theorem fits_of_others (h : Books policy asked unknown seen took left s)
    (ho : s.host.session? i = some o) (hasks : p.asks = [])
    (hothers : ∀ caller ∈ p.others, IsOther asked caller) :
    Fits asked s i o p where
  session := ho
  asks := hasks ▸ List.forall_mem_nil _
  callers := by
    rw [hasks, List.append_nil]
    exact (h.sessions i o ho).callers
  others := hothers

/-- All who ask wait for that session, -/
theorem asking_of_fits (h : Books policy asked unknown seen took left s)
    (hfits : Fits asked s i o p) :
    ∀ ask ∈ o.link.asking ++ p.asks, ∃ a ∈ s.awaited ++ left, AsksFor i ask a := by
  intro ask hask
  rcases List.mem_append.1 hask with hask | hask
  · exact (h.sessions i o hfits.session).asking ask hask
  · obtain ⟨a, ha, hasks⟩ := hfits.asks ask hask
    exact ⟨a, List.mem_append_left _ ha, hasks⟩

/-- and nobody else who may be answered asks for a push. -/
theorem isOther_of_fits (h : Books policy asked unknown seen took left s)
    (hfits : Fits asked s i o p) :
    ∀ caller ∈ o.link.others ++ p.others, IsOther asked caller := by
  intro caller hcaller
  rcases List.mem_append.1 hcaller with hcaller | hcaller
  · exact (h.sessions i o hfits.session).others caller hcaller
  · exact hfits.others caller hcaller

/-! ## Who still waits -/

/-- Who still asks still waits, -/
theorem kept_here (h : Books policy asked unknown seen took left s) (hfits : Fits asked s i o p)
    {ask : Nat × SafeMarkup} (hask : ask ∈ (o.link.pulse p).1.asking) {a : Awaited}
    (ha : a ∈ s.awaited ++ left) (hasks : AsksFor i ask a) :
    a ∈ (s.pulseOf i o p).1.awaited ++ left := by
  obtain ⟨gone, hperm, -, hanswered⟩ := (o.link.pulse_handles p).exists_gone
  refine mem_of_unanswered ha fun answer hmem => ?_
  rcases hanswered _ _ hmem with hgone | hother
  · -- one caller cannot be gone and still ask
    have hcallers := ((hperm.map Prod.fst).nodup_iff.1 hfits.callers)
    rw [List.map_append, List.nodup_append] at hcallers
    exact hcallers.2.2 _ hgone _ (List.mem_map_of_mem (f := Prod.fst) hask) hasks.2.1
  · exact h.not_isOther ha hasks (h.isOther_of_fits hfits _ hother)

/-- and so does who asks elsewhere. -/
theorem kept_elsewhere (h : Books policy asked unknown seen took left s)
    (hfits : Fits asked s i o p) {j : Nat} (hj : j ≠ i) {ask : Nat × SafeMarkup} {a : Awaited}
    (ha : a ∈ s.awaited ++ left) (hasks : AsksFor j ask a) :
    a ∈ (s.pulseOf i o p).1.awaited ++ left := by
  obtain ⟨gone, hperm, -, hanswered⟩ := (o.link.pulse_handles p).exists_gone
  refine mem_of_unanswered ha fun answer hmem => ?_
  rcases hanswered _ _ hmem with hgone | hother
  · obtain ⟨ask', hask', hcaller⟩ := List.mem_map.1 hgone
    obtain ⟨b, hb, hbasks⟩ :=
      h.asking_of_fits hfits ask' (hperm.symm.subset (List.mem_append_left _ hask'))
    have hsame : b = a := h.eq_of_ticket hb ha (Nat.succ.inj (hbasks.2.1.trans hcaller))
    rw [hsame] at hbasks
    exact hj (hasks.1.symm.trans hbasks.1)
  · exact h.not_isOther ha hasks (h.isOther_of_fits hfits _ hother)

/-! ## The entries after a pulse -/

/-- Who waits was not taken yet. -/
theorem ne_ticket (h : Books policy asked unknown seen took left s) {a : Awaited}
    (ha : a ∈ s.awaited) {t : Taken} (ht : t ∈ took) : t.ticket ≠ a.ticket := by
  intro hticket
  have htickets := h.tickets
  rw [ticketsOf, List.map_append, List.append_assoc, List.nodup_append, List.nodup_append]
    at htickets
  have hwaits := List.mem_map_of_mem (f := Awaited.ticket) ha
  rcases h.given t ht with hgiven | hleft
  · exact htickets.2.2 _ (List.mem_map_of_mem (f := Prod.fst) (mem_responded.2 hgiven)) _
      (List.mem_append_left _ hwaits) hticket
  · exact htickets.2.1.2.2 _ hwaits _ (List.mem_append_left _ hleft) hticket.symm

/-- What was taken is not asked for in a pulse, -/
theorem notMem_asks (h : Books policy asked unknown seen took left s) (hfits : Fits asked s i o p)
    {t : Taken} (ht : t ∈ took) : callerOf t.ticket ∉ (o.link.asking ++ p.asks).map (·.1) := by
  rw [List.map_append, List.mem_append]
  rintro (hasking | hasks)
  · exact h.ended t ht i o hfits.session hasking
  · obtain ⟨ask, hask, hcaller⟩ := List.mem_map.1 hasks
    obtain ⟨a, ha, -, hticket, -⟩ := hfits.asks ask hask
    exact h.ne_ticket ha ht (Nat.succ.inj (hcaller.symm.trans hticket.symm))

/-- nor after it. -/
theorem notMem_asking_pulse (h : Books policy asked unknown seen took left s)
    (hfits : Fits asked s i o p) {t : Taken} (ht : t ∈ took) :
    callerOf t.ticket ∉ (o.link.pulse p).1.asking.map (·.1) := by
  obtain ⟨gone, hperm, -⟩ := (o.link.pulse_handles p).exists_gone
  intro hmem
  exact h.notMem_asks hfits ht
    ((hperm.map Prod.fst).symm.subset (List.map_append ▸ List.mem_append_right _ hmem))

/-- The entry of the session after the pulse, when all that was read in it is put on its socket. -/
theorem sessionBooks_pulse (h : Books policy asked unknown seen took left s)
    (hfits : Fits asked s i o p) {contents : List SafeMarkup}
    (hcontents : contents = contentsOf i took ++ Link.accepted (o.link.pulse p).2) :
    SessionBooks asked ((s.pulseOf i o p).1.awaited ++ left) i
      (written i seen ++ Link.received (o.link.pulse p).2) contents (o.link.pulse p).1 where
  flow := by
    obtain ⟨size, handed, hflow⟩ := (h.sessions i o hfits.session).flow
    obtain ⟨handed', hflow'⟩ := hflow.pulse p fun _ => trivial
    exact ⟨size, handed', hcontents ▸ hflow'⟩
  callers := by
    obtain ⟨gone, hperm, -⟩ := (o.link.pulse_handles p).exists_gone
    have hcallers := (hperm.map Prod.fst).nodup_iff.1 hfits.callers
    rw [List.map_append, List.nodup_append] at hcallers
    exact hcallers.2.1
  asking ask hask := by
    obtain ⟨gone, hperm, -⟩ := (o.link.pulse_handles p).exists_gone
    obtain ⟨a, ha, hasks⟩ :=
      h.asking_of_fits hfits ask (hperm.symm.subset (List.mem_append_right _ hask))
    exact ⟨a, h.kept_here hfits hask ha hasks, hasks⟩
  others caller hcaller := by
    obtain ⟨gone, -, hothers, -⟩ := (o.link.pulse_handles p).exists_gone
    exact h.isOther_of_fits hfits caller (hothers hcaller)
  truthful := (h.sessions i o hfits.session).truthful.pulse p

/-- What has to be known of what is taken in a pulse, for it to be entered. -/
structure Enters (policy : Policy) (asked : List Request) (unknown : Nat → String → Prop)
    (took new : List Taken) (left : List Awaited) (s : Server) (i : Nat) (o : Opened)
    (p : Link.Pulse) : Prop where
  session : ∀ t ∈ new, t.session = i
  contents : new.map (·.preview.markup) = Link.accepted (o.link.pulse p).2
  taken : ∀ t ∈ new, ∃ r, asked[t.ticket]? = some r ∧ r.Pushes policy t.id t.preview ∧
    s.HasId t.session t.id
  once : ((took ++ new).map (·.ticket)).Nodup
  ended : ∀ t ∈ new, callerOf t.ticket ∉ (o.link.pulse p).1.asking.map (·.1) ∧
    ∀ j o', j ≠ i → s.host.session? j = some o' → callerOf t.ticket ∉ o'.link.asking.map (·.1)
  revisions : (takenBy i (took ++ new)).map (·.receipt.revision)
    = List.range' 1 (takenBy i (took ++ new)).length
  given : ∀ t ∈ new, .responded t.ticket t.response ∈ (s.pulseOf i o p).2 ∨
    t.ticket ∈ left.map (·.ticket)
  answered : ∀ ticket response r, .responded ticket response ∈ (s.pulseOf i o p).2 →
    asked[ticket]? = some r → r.IsPush → (∃ t ∈ new, t.ticket = ticket ∧ t.response = response) ∨
      r.FailsWith policy (unknown ticket) s.HasClosed response

/-- What was taken before or in a pulse is asked for by nobody after it. -/
theorem ended_pulse (h : Books policy asked unknown seen took left s) (hfits : Fits asked s i o p)
    (hnew : Enters policy asked unknown took new left s i o p) {t : Taken} (ht : t ∈ took ++ new)
    {j : Nat} {o' : Opened} (ho' : (s.pulseOf i o p).1.host.session? j = some o') :
    callerOf t.ticket ∉ o'.link.asking.map (·.1) := by
  rcases session_of_pulseOf hfits.session ho' with ⟨-, rfl⟩ | ⟨hj, ho⟩
  · rcases List.mem_append.1 ht with ht | ht
    · exact h.notMem_asking_pulse hfits ht
    · exact (hnew.ended t ht).1
  · rcases List.mem_append.1 ht with ht | ht
    · exact h.ended t ht j o' ho
    · exact (hnew.ended t ht).2 j o' hj ho

/-- A push that was answered before or in a pulse was taken, or there was a reason to refuse it. -/
theorem answered_pulse (h : Books policy asked unknown seen took left s)
    (hnew : Enters policy asked unknown took new left s i o p) {ticket : Nat} {response : Response}
    {r : Request} (hmem : .responded ticket response ∈ seen ∨
      .responded ticket response ∈ (s.pulseOf i o p).2)
    (hr : asked[ticket]? = some r) (hpush : r.IsPush) :
    (∃ t ∈ took ++ new, t.ticket = ticket ∧ t.response = response) ∨
      r.FailsWith policy (unknown ticket) s.HasClosed response := by
  rcases hmem with hmem | hmem
  · refine (h.answered ticket response r hmem hr hpush).imp_left fun htaken => ?_
    obtain ⟨t, ht, htold⟩ := htaken
    exact ⟨t, List.mem_append_left _ ht, htold⟩
  · refine (hnew.answered ticket response r hmem hr hpush).imp_left fun htaken => ?_
    obtain ⟨t, ht, htold⟩ := htaken
    exact ⟨t, List.mem_append_right _ ht, htold⟩

/-- **The books after a pulse**, when `new` was taken in it. Frames that are written with it are the
messages that were read in it. -/
theorem enter (h : Books policy asked unknown seen took left s) (hfits : Fits asked s i o p)
    (hnew : Enters policy asked unknown took new left s i o p)
    (hwritten : ∀ j, written j frames = if j = i then Link.received (o.link.pulse p).2 else [])
    (hframes : responded frames = []) :
    Books policy asked unknown (seen ++ ((s.pulseOf i o p).2 ++ frames)) (took ++ new) left
      (s.pulseOf i o p).1 := by
  obtain ⟨hhost, hpolicy, hrequests, hfound⟩ := pulseOf_server s i o p
  have hkeeps := s.keeps_pulseOf hfits.session p
  have htickets := ticketsOf_pulseOf s i o p seen left hframes
  have hsent (j : Nat) : written j (seen ++ ((s.pulseOf i o p).2 ++ frames))
      = written j seen ++ if j = i then Link.received (o.link.pulse p).2 else [] := by
    rw [written_append, written_append, (pulseOf_concludes s i o p).silent, hwritten]
    rfl
  exact {
    renders := hpolicy.trans h.renders
    requests := hrequests.trans h.requests
    found := fun f hf => (h.found f (hfound ▸ hf)).mono List.prefix_rfl hkeeps
    awaited := fun a ha => by
      have hbefore := (List.mem_append.1 ha).imp_left fun hwaits =>
        (pulseOf_concludes s i o p).awaited hwaits
      exact (h.awaited a (List.mem_append.2 hbefore)).mono List.prefix_rfl hkeeps
    tickets := htickets.nodup_iff.2 h.tickets
    bound := fun ticket hticket =>
      h.lt_of_mem_ticketsOf (htickets.subset (List.mem_append_left _ hticket))
    sessions := fun j o' ho' => by
      rw [hsent, contentsOf, takenBy_append hnew.session, List.map_append]
      rcases session_of_pulseOf hfits.session ho' with ⟨hj, rfl⟩ | ⟨hj, ho⟩
      · rw [if_pos hj, if_pos hj, hj]
        refine h.sessionBooks_pulse hfits ?_
        rw [hnew.contents]
        rfl
      · -- the other sessions are as they were, and all who ask there still wait
        rw [if_neg hj, if_neg hj, List.map_nil, List.append_nil, List.append_nil]
        exact (h.sessions j o' ho).mono List.prefix_rfl fun _ _ _ ha hasks =>
          h.kept_elsewhere hfits hj ha hasks
    beyond := fun j hj => by
      rw [hhost, Host.session?_setLink, Option.map_eq_none_iff] at hj
      have hother : j ≠ i := fun hji => by
        rw [hji, hfits.session] at hj
        cases hj
      rw [hsent, takenBy_append hnew.session, if_neg hother, if_neg hother, List.append_nil,
        List.append_nil]
      exact h.beyond j hj
    taken := fun t ht => by
      rcases List.mem_append.1 ht with ht | ht
      · obtain ⟨r, hr, hpushes, hid⟩ := h.taken t ht
        exact ⟨r, hr, hpushes, hkeeps.hasId hid⟩
      · obtain ⟨r, hr, hpushes, hid⟩ := hnew.taken t ht
        exact ⟨r, hr, hpushes, hkeeps.hasId hid⟩
    once := hnew.once
    ended := fun _ ht _ _ ho' => h.ended_pulse hfits hnew ht ho'
    revisions := fun j => by
      by_cases hj : j = i
      · rw [hj]
        exact hnew.revisions
      · rw [takenBy_append hnew.session, if_neg hj, List.append_nil]
        exact h.revisions j
    given := fun t ht => by
      rcases List.mem_append.1 ht with ht | ht
      · exact (h.given t ht).imp_left (List.mem_append_left _)
      · exact (hnew.given t ht).imp_left fun hgiven =>
          List.mem_append_right _ (List.mem_append_left _ hgiven)
    answered := fun ticket response r hmem hr hpush => by
      refine (h.answered_pulse hnew ?_ hr hpush).imp_right (·.mono fun _ => hkeeps.hasClosed)
      rcases List.mem_append.1 hmem with hmem | hmem
      · exact .inl hmem
      rcases List.mem_append.1 hmem with hmem | hmem
      · exact .inr hmem
      · have hnone := mem_responded.2 hmem
        rw [hframes] at hnone
        cases hnone }

/-! ## What was refused and what was taken -/

/-- A push that is answered in a pulse waited, and was told what its caller was answered. -/
theorem push_of_responded (h : Books policy asked unknown seen took left s)
    (hfits : Fits asked s i o p) {ticket : Nat} {response : Response} {r : Request}
    (hmem : .responded ticket response ∈ (s.pulseOf i o p).2) (hr : asked[ticket]? = some r)
    (hpush : r.IsPush) :
    ∃ a ∈ s.awaited, ∃ id preview answer, a.ticket = ticket ∧ a.errand = .content id preview ∧
      r.Pushes policy id preview ∧ s.HasId a.session id ∧
      .answered (callerOf ticket) answer ∈ (o.link.pulse p).2 ∧
      response = (Errand.response (.content id preview) answer).shared ∧
      callerOf ticket ∉ o.link.others ++ p.others := by
  obtain ⟨a, ha, answer, hanswer, rfl, rfl⟩ :=
    (pulseOf_concludes s i o p).responses ticket response hmem
  obtain ⟨r', hr', herrand⟩ := h.awaited a (List.mem_append_left _ ha)
  rw [hr] at hr'
  cases hr'
  cases hcontent : a.errand with
  | closing =>
    rw [hcontent] at herrand
    exact absurd hpush herrand
  | content id preview =>
    rw [hcontent] at herrand
    have hasks : AsksFor a.session (callerOf a.ticket, preview.markup) a :=
      ⟨rfl, rfl, id, preview, hcontent, rfl⟩
    exact ⟨a, ha, id, preview, answer, rfl, hcontent, herrand.1, herrand.2, hanswer, rfl,
      fun hother => h.not_isOther (List.mem_append_left _ ha) hasks
        (h.isOther_of_fits hfits _ hother)⟩

/-- **A push that is refused in a pulse** named a session that is closed, and nothing happens to it.
-/
theorem fails_of_refused (h : Books policy asked unknown seen took left s)
    (hfits : Fits asked s i o p) (hanswered : ∀ caller answer,
      .answered caller answer ∈ (o.link.pulse p).2 → answer = .refused ∨
        caller ∈ o.link.others ++ p.others)
    {ticket : Nat} {response : Response} {r : Request}
    (hmem : .responded ticket response ∈ (s.pulseOf i o p).2) (hr : asked[ticket]? = some r)
    (hpush : r.IsPush) :
    r.FailsWith policy (unknown ticket) s.HasClosed response ∧
      o.link.Undisturbed (o.link.pulse p).1 := by
  obtain ⟨a, ha, id, preview, answer, rfl, hcontent, hpushes, hid, hanswer, rfl, hother⟩ :=
    h.push_of_responded hfits hmem hr hpush
  obtain rfl := (hanswered _ _ hanswer).resolve_right hother
  obtain ⟨markup, hrefusal, hunmoved, -⟩ := (o.link.pulse_course p).exists_refusal hother hanswer
  have hphase := hrefusal.closed (h.sessions i o hfits.session).truthful
  -- the session that refused is the one that the request waits for
  obtain ⟨b, hb, hsession, hticket, -⟩ := h.asking_of_fits hfits _ hrefusal.mem_asking
  have hsame : b = a := h.eq_of_ticket hb (List.mem_append_left _ ha) (Nat.succ.inj hticket)
  rw [← hsame, hsession] at hid
  obtain ⟨o', ho', hid⟩ := hid
  rw [hfits.session] at ho'
  cases ho'
  exact ⟨.closed id preview hpushes ⟨i, o, hfits.session, hid, hphase⟩ rfl rfl, hunmoved⟩

/-- Where some are refused, nothing is taken. -/
theorem enters_nothing (h : Books policy asked unknown seen took left s)
    (hfits : Fits asked s i o p) (haccepted : Link.accepted (o.link.pulse p).2 = [])
    (hanswered : ∀ caller answer, .answered caller answer ∈ (o.link.pulse p).2 →
      answer = .refused ∨ caller ∈ o.link.others ++ p.others) :
    Enters policy asked unknown took [] left s i o p where
  session := List.forall_mem_nil _
  contents := haccepted.symm
  taken := List.forall_mem_nil _
  once := by
    rw [List.append_nil]
    exact h.once
  ended := List.forall_mem_nil _
  revisions := by
    rw [List.append_nil]
    exact h.revisions i
  given := List.forall_mem_nil _
  answered ticket response r hmem hr hpush :=
    .inr (h.fails_of_refused hfits hanswered hmem hr hpush).1

/-- An open session gives the revision after the last that it took a content under. -/
theorem nextRevision_eq (h : Books policy asked unknown seen took left s)
    (ho : s.host.session? i = some o) (hopen : o.link.session.phase ≠ .closed) :
    o.link.session.nextRevision = 1 + (takenBy i took).length := by
  obtain ⟨size, handed, hflow⟩ := (h.sessions i o ho).flow
  rw [hflow.ledger.nextRevision_eq hopen, contentsOf, List.length_map, Nat.add_comm]

/-- One that waits for a session asks in no other. -/
theorem notMem_asking_elsewhere (h : Books policy asked unknown seen took left s) {a : Awaited}
    (ha : a ∈ s.awaited ++ left) {j : Nat} (hj : j ≠ a.session) {o' : Opened}
    (ho' : s.host.session? j = some o') : callerOf a.ticket ∉ o'.link.asking.map (·.1) := by
  intro hmem
  obtain ⟨ask, hask, hcaller⟩ := List.mem_map.1 hmem
  obtain ⟨b, hb, hsession, hticket, -⟩ := (h.sessions j o' ho').asking ask hask
  have hsame : b = a := h.eq_of_ticket hb ha (Nat.succ.inj (hticket.trans hcaller))
  exact hj (hsame ▸ hsession.symm)

/-- Where one caller alone is told something, a response is one to what that caller waits for. -/
theorem response_of_told (h : Books policy asked unknown seen took left s) {a : Awaited}
    (ha : a ∈ s.awaited ++ left) {told : Answer}
    (honly : ∀ caller answer, .answered caller answer ∈ (o.link.pulse p).2 →
      caller = callerOf a.ticket ∧ answer = told) {ticket : Nat} {response : Response}
    (hmem : .responded ticket response ∈ (s.pulseOf i o p).2) :
    ticket = a.ticket ∧ response = (Errand.response a.errand told).shared := by
  obtain ⟨b, hb, answer, hanswer, rfl, rfl⟩ :=
    (pulseOf_concludes s i o p).responses ticket response hmem
  obtain ⟨hcaller, rfl⟩ := honly _ _ hanswer
  rw [h.eq_of_ticket (List.mem_append_left _ hb) ha (Nat.succ.inj hcaller)]
  exact ⟨rfl, rfl⟩

/-- **A content that the session takes is entered for the request that brought it**, also if that
went away. -/
theorem enters_taken (h : Books policy asked unknown seen took left s) (hfits : Fits asked s i o p)
    {caller : Nat} {markup : SafeMarkup} {receipt : Receipt}
    (hasking : (o.link.asking ++ p.asks).Perm ((caller, markup) :: (o.link.pulse p).1.asking))
    (heffects : (o.link.pulse p).2
      = [.accepted receipt markup, .answered caller (.receipt receipt)])
    (hopen : o.link.session.phase ≠ .closed)
    (hrevision : receipt.revision = o.link.session.nextRevision) :
    ∃ t, Enters policy asked unknown took [t] left s i o p ∧
      ∀ ticket response r, .responded ticket response ∈ (s.pulseOf i o p).2 →
        asked[ticket]? = some r → r.IsPush → response.status = 200 := by
  have hask := hasking.symm.subset List.mem_cons_self
  obtain ⟨a, ha, rfl, hcaller, id, preview, hcontent, rfl⟩ := h.asking_of_fits hfits _ hask
  subst hcaller
  have hanswer : Effect.answered (callerOf a.ticket) (.receipt receipt) ∈ (o.link.pulse p).2 := by
    rw [heffects]
    exact List.mem_cons_of_mem _ (List.mem_singleton_self _)
  have honly : ∀ caller answer, .answered caller answer ∈ (o.link.pulse p).2 →
      caller = callerOf a.ticket ∧ answer = .receipt receipt := by
    intro caller answer hmem
    rw [heffects] at hmem
    rcases List.mem_cons.1 hmem with hmem | hmem
    · cases hmem
    · exact Effect.answered.inj (List.mem_singleton.1 hmem)
  have htold (ticket : Nat) (response : Response)
      (hmem : .responded ticket response ∈ (s.pulseOf a.session o p).2) :
      ticket = a.ticket ∧
        response = (Errand.response (.content id preview) (.receipt receipt)).shared :=
    hcontent ▸ h.response_of_told ha honly hmem
  refine ⟨⟨a.session, a.ticket, id, preview, receipt⟩, ?_, ?_⟩
  · exact {
      session := List.forall_mem_singleton.2 rfl
      contents := by
        rw [heffects]
        rfl
      taken := List.forall_mem_singleton.2 (by
        obtain ⟨r, hr, herrand⟩ := h.awaited a ha
        rw [hcontent] at herrand
        exact ⟨r, hr, herrand⟩)
      once := by
        have hnew : a.ticket ∉ took.map (·.ticket) := by
          intro hold
          obtain ⟨t, ht, hticket⟩ := List.mem_map.1 hold
          refine h.notMem_asks hfits ht ?_
          rw [hticket]
          exact List.mem_map_of_mem (f := Prod.fst) hask
        rw [List.map_append]
        exact nodup_of_perm_cons hnew h.once (List.perm_append_singleton _ _).symm
      ended := List.forall_mem_singleton.2 (by
        have hcallers := (hasking.map Prod.fst).nodup_iff.1 hfits.callers
        exact ⟨(List.nodup_cons.1 hcallers).1, fun j o' hj => h.notMem_asking_elsewhere ha hj⟩)
      revisions := by
        rw [takenBy_append (List.forall_mem_singleton.2 rfl), if_pos rfl, List.map_append,
          h.revisions, List.length_append, List.length_singleton, List.range'_1_concat,
          ← h.nextRevision_eq hfits.session hopen, ← hrevision]
        rfl
      given := List.forall_mem_singleton.2 (by
        refine (List.mem_append.1 ha).imp (fun hwaits => ?_) fun hleft =>
          List.mem_map_of_mem (f := Awaited.ticket) hleft
        have hgiven := (pulseOf_concludes s a.session o p).told a hwaits _ hanswer
        obtain ⟨⟨ticket, response⟩, hmem, hticket⟩ := List.mem_map.1 hgiven
        rw [mem_responded] at hmem
        obtain ⟨rfl, rfl⟩ := htold ticket response hmem
        exact hmem)
      answered := fun ticket response r hmem _ _ => by
        obtain ⟨rfl, rfl⟩ := htold ticket response hmem
        exact .inl ⟨_, List.mem_singleton_self _, rfl, rfl⟩ }
  · intro ticket response r hmem _ _
    rw [(htold ticket response hmem).2]
    rfl

/-- **A pulse keeps the books**, and a push that fails in it leaves its session undisturbed. -/
theorem pulseOf (h : Books policy asked unknown seen took left s) (hfits : Fits asked s i o p)
    (hwritten : ∀ j, written j frames = if j = i then Link.received (o.link.pulse p).2 else [])
    (hframes : responded frames = []) :
    (∃ took', Books policy asked unknown (seen ++ ((s.pulseOf i o p).2 ++ frames)) took' left
        (s.pulseOf i o p).1) ∧
      (Fails asked (s.pulseOf i o p).2 → o.link.Undisturbed (o.link.pulse p).1) := by
  cases o.link.pulse_handles p with
  | refuses gone asking others answered accepted =>
    have hrefused (caller : Nat) (answer : Answer)
        (hmem : .answered caller answer ∈ (o.link.pulse p).2) :
        answer = .refused ∨ caller ∈ o.link.others ++ p.others :=
      (answered caller answer hmem).imp_left And.left
    refine ⟨⟨_, h.enter hfits (h.enters_nothing hfits accepted hrefused) hwritten hframes⟩, ?_⟩
    rintro ⟨ticket, response, r, hmem, hr, hpush, -⟩
    exact (h.fails_of_refused hfits hrefused hmem hr hpush).2
  | accepts caller markup receipt asking others effects isOpen revision =>
    obtain ⟨t, hnew, htold⟩ := h.enters_taken hfits asking effects isOpen revision
    refine ⟨⟨_, h.enter hfits hnew hwritten hframes⟩, ?_⟩
    rintro ⟨ticket, response, r, hmem, hr, hpush, hstatus⟩
    exact absurd (htold ticket response r hmem hr hpush) hstatus

end Books

/-! ## What is promised of a move -/

/-- **What a move does to the books**: they are kept, and a push that fails leaves all sessions
alone. -/
structure Kept (policy : Policy) (asked : List Request) (unknown : Nat → String → Prop)
    (seen : List Reaction) (left : List Awaited) (s : Server) (done : Server × List Reaction) :
    Prop where
  books : ∃ took, Books policy asked unknown (seen ++ done.2) took left done.1
  spares : Fails asked done.2 → s.LeavesAlone done

theorem Kept.of_host {done : Server × List Reaction}
    (h : Kept policy asked unknown seen left s' done) (hhost : s'.host = s.host) :
    Kept policy asked unknown seen left s done :=
  ⟨h.books, fun hfails => (h.spares hfails).of_host hhost⟩

namespace Books

/-- A move of which nothing is to be seen. -/
theorem kept_of_silent (h : Books policy asked unknown seen took left s') :
    Kept policy asked unknown seen left s (s', []) where
  books := ⟨took, (List.append_nil seen).symm ▸ h⟩
  spares hfails := absurd hfails (not_fails rfl)

/-- A move in which nobody is answered. -/
theorem kept_of_unanswered {done : Server × List Reaction}
    (h : Books policy asked unknown (seen ++ done.2) took left done.1)
    (hnone : responded done.2 = []) : Kept policy asked unknown seen left s done where
  books := ⟨took, h⟩
  spares hfails := absurd hfails (not_fails hnone)

/-! ## Beats -/

/-- A thing that is done to a link in silence. -/
theorem silently (h : Books policy asked unknown seen took left s) (i : Nat) {e : Link.Event}
    (hsilent : ∀ l : Link, (l.step e).2 = []) (hasks : (Link.Pulse.event e).asks = [])
    (hothers : (Link.Pulse.event e).others = []) :
    Books policy asked unknown seen took left { s with host := (s.host.act i e).1 } := by
  rw [Host.act]
  cases ho : s.host.session? i with
  | none => exact h
  | some o =>
    have hfits : Fits asked s i o (.event e) :=
      h.fits_of_others ho hasks (hothers ▸ List.forall_mem_nil _)
    have heffects : (o.link.pulse (.event e)).2 = [] := hsilent o.link
    have hnew := h.enters_nothing hfits (by rw [heffects]; rfl) fun caller answer hmem => by
      rw [heffects] at hmem
      cases hmem
    have hentered := h.enter hfits hnew (written_unread (by rw [heffects]; rfl) i) rfl
    rw [Server.pulseOf, heffects] at hentered
    have hnothing : seen ++ ([] ++ []) = seen := List.append_nil seen
    rw [List.append_nil took] at hentered
    exact hnothing ▸ hentered

/-- The server is done with a socket. -/
theorem release (h : Books policy asked unknown seen took left s) (i : Nat) :
    Books policy asked unknown seen took left (s.release i) := by
  have hended : Books policy asked unknown seen took left (s.setSocket i Socket.endNow) :=
    h.carryQuietly (sameEntries_of_host rfl) rfl rfl rfl rfl
  have hsilenced := hended.silently i (e := .silence) (fun _ => rfl) rfl rfl
  exact hsilenced.silently i (e := .deafen) (fun _ => rfl) rfl rfl

/-- **A beat keeps the books.** -/
theorem beat (h : Books policy asked unknown seen took left s)
    (hfits : ∀ o, s.host.session? i = some o → Fits asked s i o p) (hread : p ≠ .event .read) :
    Kept policy asked unknown seen left s (s.beat i p) := by
  cases ho : s.host.session? i with
  | none =>
    have hbeat : s.beat i p = (s, []) := by rw [Server.beat, ho]
    rw [hbeat]
    exact h.kept_of_silent
  | some o =>
    obtain ⟨⟨took', hbooks⟩, hfailed⟩ :=
      h.pulseOf (hfits o ho) (written_unread (o.link.received_pulse hread) i) rfl
    rw [List.append_nil] at hbooks
    have hseen : (s.beat i p).2 = (s.pulseOf i o p).2 := by rw [Server.beat, ho]
    refine ⟨⟨took', ?_⟩, fun hfails => ⟨?_, fun j => s.written_beat i p j⟩⟩
    · -- a context whose message was refused is let go, which is no business of the books
      rw [hseen, Server.beat, ho]
      dsimp only
      split
      · exact hbooks.release i
      · exact hbooks
    · refine s.undisturbed_beat i p fun o' ho' => ?_
      rw [ho] at ho'
      cases ho'
      exact hfailed (hseen ▸ hfails)

/-- A beat in which nobody asks for a push. -/
theorem beat_of_others (h : Books policy asked unknown seen took left s) (i : Nat)
    (hasks : p.asks = []) (hothers : ∀ caller ∈ p.others, IsOther asked caller)
    (hread : p ≠ .event .read) : Kept policy asked unknown seen left s (s.beat i p) :=
  h.beat (fun _ ho => h.fits_of_others ho hasks hothers) hread

end Books

end Server

end SafePreview
