import SafePreview.Proofs.Web.Beats

/-!
# Requests and the books

A request that arrives gets the next ticket, which stands nowhere yet. It is answered at once, or
it has found its session, and then it goes on by itself: it leaves the place where its ticket
stood, and is answered or waits for the session, or goes away. A push is answered with an error at
each of these places for another reason (`Request.FailsWith`): it is not understood or names no
registered session, its blocks cannot be rendered, or the session is closed. In none of them has it
touched a session by then.
-/

namespace SafePreview

open Markup (Policy SafeMarkup)

namespace Server

/-- A text that spells no id is the id of no session. -/
theorem error_of_ofString {text : String} {e : SessionError}
    (h : SessionId.ofString text = .error e) : e = .notFound text := by
  rw [SessionId.ofString] at h
  split at h
  · cases h
  · cases h
    rfl

/-- A request of another kind asks for no push. -/
theorem isOther_callerOf {asked : List Request} {ticket : Nat} {r : Request}
    (hr : asked[ticket]? = some r) (hother : ¬ r.IsPush) :
    IsOther asked (callerOf ticket) := .inr ⟨ticket, r, rfl, hr, hother⟩

variable [Channels] {policy : Policy} {asked : List Request} {unknown : Nat → String → Prop}
  {seen : List Reaction} {took : List Taken} {left : List Awaited} {s : Server} {ticket : Nat}
  {r : Request}

/-! ## What becomes of a request that arrives -/

/-- The session that is found has the id that it was looked for by. -/
theorem hasId_of_find? {id : SessionId} {index : Nat} (h : s.host.find? id = some index) :
    s.HasId index id := by
  obtain ⟨hindex, hfound, -⟩ := List.findIdx?_eq_some_iff_getElem.1 h
  rw [Bool.and_eq_true, decide_eq_true_iff] at hfound
  exact ⟨_, List.getElem?_eq_getElem hindex, hfound.2⟩

/-- Where none is found, no registered session has that id. -/
theorem notMem_register_of_find? {h : Host} {o : Opened} (hnone : h.find? o.id = none) :
    o ∉ h.register := by
  intro hmem
  obtain ⟨hmem, hregistered⟩ := List.mem_filter.1 hmem
  have hnot := List.findIdx?_eq_none_iff.1 hnone o hmem
  simp [hregistered] at hnot

/-- Who finds a session to close takes it out of the register. -/
theorem unregister_bind {parsed : Except SessionError SessionId} {h h' : Host} {index : Nat}
    (hfound : parsed.bind h.unregister = .ok (index, h')) :
    ∀ i, h'.session? i = (h.session? i).map fun o =>
      if index = i then { o with registered := false } else o := by
  cases parsed with
  | error e => cases hfound
  | ok id =>
    dsimp only [Except.bind] at hfound
    rw [Host.unregister] at hfound
    split at hfound
    · cases hfound
    · cases hfound
      intro i
      exact List.getElem?_modify _ _ _ _

/-- A session that leaves the register stays the same for the books. -/
theorem sameEntries_of_unregister {host : Host} {index : Nat}
    (h : ∀ i, host.session? i = (s.host.session? i).map fun o =>
      if index = i then { o with registered := false } else o) :
    s.SameEntries { s with host } := by
  refine sameEntries_of_map h fun i o => ?_
  split
  · exact sameEntry_of_link rfl rfl
  · exact sameEntry_rfl o

/-- An event that leaves every link undisturbed leaves all sessions alone. -/
theorem leavesAlone_act (s : Server) (index : Nat) {e : Link.Event}
    (hlink : ∀ l : Link, l.Undisturbed (l.step e).1) : s.LeavesAlone (s.act index e) := by
  rw [act_eq_beat]
  exact ⟨s.undisturbed_beat index _ fun o _ => hlink o.link, s.written_beat index _⟩

/-- A push that brings its content in touches no session, -/
theorem leavesAlone_post (s : Server) (ticket : Nat) : s.LeavesAlone (s.post ticket) := by
  rw [post]
  split
  · exact s.leavesAlone_act _ fun l => l.undisturbed_step nofun nofun nofun
  · exact ⟨s.host.undisturbed_rfl, fun _ => rfl⟩

/-- nor does a request that goes away. -/
theorem leavesAlone_vanish (s : Server) (ticket : Nat) : s.LeavesAlone (s.vanish ticket) := by
  rw [vanish]
  split
  · have hgone (caller : Nat) (l : Link) : l.Undisturbed (l.step (.vanish caller)).1 :=
      l.undisturbed_step nofun nofun nofun
    exact (leavesAlone_act _ _ (hgone _)).of_host rfl
  · exact ⟨s.host.undisturbed_rfl, fun _ => rfl⟩

variable [ParentOrder]

/-- **What a push comes to when it arrives**: the session that it names, or an error that says why
there is none. -/
theorem pushed_cases (s : Server) (policy : Policy) {coded : String} (hmethod : r.method = .post)
    (hroute : Route.ofPath? r.address.path = some (.content coded)) :
    match s.pushed coded r with
    | .error response => r.FailsWith policy (¬ s.Knows ·) s.HasClosed response.shared
    | .ok (id, index, wanted) => r.Wants id wanted ∧ s.HasId index id := by
  rw [pushed]
  cases hid : readId coded with
  | error refusal => exact .unread refusal (.inl ⟨coded, hroute, hid⟩) rfl rfl
  | ok text =>
    have hnames : r.Names text := ⟨coded, hroute, hid⟩
    cases hbody : readBody r with
    | error refusal => exact .unread refusal (.inr ⟨text, hnames, hbody⟩) rfl rfl
    | ok wanted =>
      dsimp only
      rw [findSession]
      cases hparsed : SessionId.ofString text with
      | error e =>
        obtain rfl := error_of_ofString hparsed
        have hunknown : ¬ s.Knows text := fun ⟨_, _, hspelled⟩ =>
          nomatch hparsed.symm.trans hspelled
        exact .unknown text wanted hnames hbody hunknown rfl rfl
      | ok id =>
        dsimp only [bind, Except.bind]
        cases hfound : s.host.find? id with
        | none =>
          have hunknown : ¬ s.Knows text := fun ⟨o, ho, hspelled⟩ => by
            obtain rfl := Except.ok.inj (hparsed.symm.trans hspelled)
            exact notMem_register_of_find? hfound ho
          exact .unknown text wanted hnames hbody hunknown rfl rfl
        | some index =>
          exact ⟨⟨hmethod, ⟨coded, text, hroute, hid, hparsed⟩, hbody⟩, hasId_of_find? hfound⟩

/-- **What becomes of a request that arrives.** -/
inductive Arrives (policy : Policy) (s : Server) (r : Request) (done : Server × List Reaction) :
    Prop
  /-- It is answered at once. A push that is answered at once is answered with an error. -/
  | answered (response : Response)
      (eq : done = ({ s with requests := s.requests + 1 }, [.responded s.requests response]))
      (failed : r.IsPush → r.FailsWith policy (¬ s.Knows ·) s.HasClosed response)
  /-- It has found the session that it pushes a content into. -/
  | finds (id : SessionId) (wanted : PreviewRequest) (index : Nat)
      (eq : done = ({ s with
        requests := s.requests + 1
        found := s.found ++ [⟨s.requests, index, .content id wanted⟩] }, []))
      (wants : r.Wants id wanted)
      (hasId : s.HasId index id)
  /-- It has found the session that it closes, and took it out of the register. -/
  | closes (index : Nat) (host : Host)
      (eq : done = ({ s with
        requests := s.requests + 1
        host
        found := s.found ++ [⟨s.requests, index, .closing⟩] }, []))
      (sessions : ∀ i, host.session? i = (s.host.session? i).map fun o =>
        if index = i then { o with registered := false } else o)
      (other : ¬ r.IsPush)

theorem arrive_arrives (policy : Policy) (s : Server) (r : Request) :
    Arrives policy s r (s.arrive r) := by
  -- whatever is answered at once is answered in one way
  have hnow (response : Response)
      (hfailed : r.IsPush → r.FailsWith policy (¬ s.Knows ·) s.HasClosed response.shared) :
      Arrives policy s r ({ s with requests := s.requests + 1 }, [.responded s.requests
        (if r.method = .head then response.withoutBody else response).shared]) := by
    refine .answered _ rfl fun hpush => ?_
    rw [if_neg (by rw [hpush.1]; nofun)]
    exact hfailed hpush
  rw [arrive]
  dsimp only
  split
  · rename_i hroute
    exact hnow _ fun ⟨_, coded, hcontent⟩ => nomatch hroute.symm.trans hcontent
  rename_i route hroute
  -- from here on a push is known by its route
  have hother (hnot : ∀ coded, route ≠ .content coded) : ¬ r.IsPush := fun ⟨_, coded, hcontent⟩ =>
    hnot coded (Option.some.inj (hroute.symm.trans hcontent))
  split
  · rename_i hoptions
    exact hnow _ fun hpush => nomatch hoptions.symm.trans hpush.1
  split
  · rename_i hrefused
    -- the route of a push accepts its method
    refine hnow _ fun ⟨hpost, coded, hcontent⟩ => ?_
    obtain rfl := Option.some.inj (hroute.symm.trans hcontent)
    rw [hpost] at hrefused
    exact absurd hrefused (by simp [Route.accepts, Route.method])
  rename_i haccepts
  cases route with
  | status | asset | render | frame | sessions | socket =>
    exact hnow _ fun hpush => absurd hpush (hother nofun)
  | content coded =>
    dsimp only
    have hmethod : r.method = .post := by
      rw [Bool.not_eq_true', Bool.not_eq_false, Route.accepts, Bool.or_eq_true] at haccepts
      exact of_decide_eq_true (haccepts.resolve_right (by simp [Route.method]))
    have hpushed := pushed_cases { s with requests := s.requests + 1 } policy hmethod hroute
    split
    · rename_i response hfailed
      rw [hfailed] at hpushed
      exact hnow _ fun _ => hpushed
    · rename_i id index wanted hfound
      rw [hfound] at hpushed
      exact .finds id wanted index rfl hpushed.1 hpushed.2
  | session coded =>
    dsimp only
    split
    · exact hnow _ fun hpush => absurd hpush (hother nofun)
    · split
      · exact hnow _ fun hpush => absurd hpush (hother nofun)
      · rename_i index host hfound
        exact .closes index host rfl (unregister_bind hfound) (hother nofun)

namespace Books

/-! ## Requests that arrive -/

/-- The ticket of the next request stands nowhere. -/
theorem requests_notMem (h : Books policy asked unknown seen took left s) :
    s.requests ∉ ticketsOf seen left s :=
  fun hold => Nat.lt_irrefl _ (h.requests ▸ h.lt_of_mem_ticketsOf hold)

/-- **A request that arrives** is entered under the next ticket. -/
theorem arrive (h : Books policy asked unknown seen took left s) (r : Request)
    (hunknown : ∀ text, ¬ s.Knows text → unknown asked.length text) :
    Kept policy (asked ++ [r]) unknown seen left s (s.arrive r) := by
  have hasked := h.ask r
  have hticket : (asked ++ [r])[s.requests]? = some r := by
    rw [h.requests, List.getElem?_concat_length]
  cases s.arrive_arrives policy r with
  | answered response eq failed =>
    rw [eq]
    refine ⟨⟨took, hasked.respond hticket h.requests_notMem fun hpush => ?_⟩,
      fun _ => ⟨s.host.undisturbed_rfl, fun _ => rfl⟩⟩
    exact (failed hpush).imp (fun text htext => h.requests ▸ hunknown text htext) fun _ => id
  | finds id wanted index eq wants hasId =>
    rw [eq]
    have hfound := hasked.find (f := ⟨s.requests, index, .content id wanted⟩)
      ⟨r, hticket, wants, hasId⟩ h.requests_notMem
    exact hfound.kept_of_silent
  | closes index host eq sessions other =>
    rw [eq]
    have hsame := sameEntries_of_unregister (s := { s with requests := s.requests + 1 }) sessions
    have hfound := (hasked.carryQuietly hsame rfl rfl rfl rfl).find
      (f := ⟨s.requests, index, .closing⟩) ⟨r, hticket, other⟩ h.requests_notMem
    exact hfound.kept_of_silent

/-! ## Requests that go on -/

/-- One that waits for a session to take a content may ask for that, as its ticket stands nowhere
else. -/
theorem fits_call (h : Books policy asked unknown seen took left s) {a : Awaited}
    (hnew : a.ticket ∉ ticketsOf seen left s) {id : SessionId} {preview : Preview}
    (hcontent : a.errand = .content id preview) {o : Opened}
    (ho : s.host.session? a.session = some o) :
    Fits asked { s with awaited := s.awaited ++ [a] } a.session o
      (.event (.call (callerOf a.ticket) preview.markup)) where
  session := ho
  asks := List.forall_mem_singleton.2
    ⟨a, List.mem_append_right _ (List.mem_singleton_self _), rfl, rfl, id, preview, hcontent, rfl⟩
  callers := by
    have hcallers := (h.sessions a.session o ho).callers
    -- who asks already waits, and so its ticket stands somewhere
    have hold : callerOf a.ticket ∉ o.link.asking.map (·.1) := by
      intro hmem
      obtain ⟨ask, hask, hcaller⟩ := List.mem_map.1 hmem
      obtain ⟨b, hb, -, hticket, -⟩ := (h.sessions a.session o ho).asking ask hask
      have hsame : b.ticket = a.ticket := Nat.succ.inj (hticket.trans hcaller)
      refine hnew (hsame ▸ ?_)
      rw [ticketsOf]
      exact List.mem_append_right _ (List.mem_append_left _ (List.mem_map_of_mem hb))
    rw [List.map_append]
    exact nodup_of_perm_cons hold hcallers (List.perm_append_singleton _ _).symm
  others := List.forall_mem_nil _

/-- **A request goes on with the session that it has found.** -/
theorem proceed (h : Books policy asked unknown seen took left s) (ticket : Nat) :
    Kept policy asked unknown seen left s (s.proceed ticket) := by
  rw [Server.proceed]
  split
  · exact h.kept_of_silent
  rename_i f hfound
  obtain ⟨hgone, hnew⟩ := h.goOn hfound
  have hticket : f.ticket = ticket := by simpa using List.find?_some hfound
  obtain ⟨r, hr, hf⟩ := h.found f (List.mem_of_find?_eq_some hfound)
  rw [hticket] at hr
  dsimp only
  split
  · rename_i hwish
    rw [hwish] at hf
    have hawaited := hgone.await (a := ⟨ticket, f.session, .closing⟩) ⟨r, hr, hf⟩ hnew
    have hbeat := hawaited.beat_of_others f.session (p := .event (.close (callerOf ticket))) rfl
      (List.forall_mem_singleton.2 (isOther_callerOf hr hf)) nofun
    rw [Server.await, act_eq_beat]
    exact hbeat.of_host rfl
  · rename_i id wanted hwish
    rw [hwish] at hf
    split
    · rename_i e herror
      rw [h.renders] at herror
      refine ⟨⟨took, hgone.respond hr hnew fun _ => ?_⟩, fun _ => ⟨?_, fun _ => rfl⟩⟩
      · exact .unrendered id wanted e hf.1 herror rfl rfl
      · exact s.host.undisturbed_rfl
    · -- what waits from now on is what the blocks of this request were rendered to
      rename_i preview hpreview
      have ha : AwaitedFor policy asked s ⟨ticket, f.session, .content id preview⟩ := by
        refine ⟨r, hr, ⟨wanted, hf.1, ?_⟩, hf.2⟩
        rw [← h.renders]
        exact hpreview
      have hawaited := hgone.await (a := ⟨ticket, f.session, .content id preview⟩) ha hnew
      have hbeat := hawaited.beat (i := f.session)
        (fun _ ho => hgone.fits_call (a := ⟨ticket, f.session, .content id preview⟩) hnew rfl ho)
        nofun
      rw [Server.await, act_eq_beat]
      exact hbeat.of_host rfl

/-- A push that found its session open brings its content in. -/
theorem post (h : Books policy asked unknown seen took left s) (ticket : Nat) :
    Kept policy asked unknown seen left s (s.post ticket) := by
  rw [Server.post]
  split
  · rename_i a _
    rw [act_eq_beat]
    exact h.beat_of_others a.session (p := .event (.post _)) rfl (List.forall_mem_nil _) nofun
  · exact h.kept_of_silent

/-- **Whoever made a request goes away.** One that waits keeps its entry. -/
theorem vanish (h : Books policy asked unknown seen took left s) (ticket : Nat) :
    ∃ left', Kept policy asked unknown seen left' s (s.vanish ticket) ∧
      ∀ a ∈ left', a ∈ left ∨ a.ticket = ticket := by
  rw [Server.vanish]
  split
  · rename_i a hfound
    have hticket : a.ticket = ticket := by simpa using List.find?_some hfound
    have hbeat := (h.goAway hfound).beat_of_others a.session
      (p := .event (.vanish (callerOf ticket))) rfl (List.forall_mem_nil _) nofun
    rw [act_eq_beat]
    refine ⟨a :: left, hbeat.of_host rfl, fun b hb => ?_⟩
    rcases List.mem_cons.1 hb with rfl | hb
    · exact .inr hticket
    · exact .inl hb
  · exact ⟨left, (h.goAwayEarly ticket).kept_of_silent, fun a ha => .inl ha⟩

end Books

/-! ## Pushes on their way -/

/-- A push that arrives touches no session either, -/
theorem leavesAlone_arrive (s : Server) (hpush : r.IsPush) : s.LeavesAlone (s.arrive r) := by
  cases s.arrive_arrives s.policy r with
  | answered response eq failed =>
    rw [eq]
    exact ⟨s.host.undisturbed_rfl, fun _ => rfl⟩
  | finds id wanted index eq wants hasId =>
    rw [eq]
    exact ⟨s.host.undisturbed_rfl, fun _ => rfl⟩
  | closes index host eq sessions other => exact absurd hpush other

/-- nor does a request that goes on. -/
theorem leavesAlone_proceed (s : Server) (ticket : Nat) : s.LeavesAlone (s.proceed ticket) := by
  rw [proceed]
  split
  · exact ⟨s.host.undisturbed_rfl, fun _ => rfl⟩
  dsimp only
  split
  · have hasks (caller : Nat) (l : Link) : l.Undisturbed (l.step (.close caller)).1 :=
      l.undisturbed_step nofun nofun nofun
    exact (leavesAlone_act _ _ (hasks _)).of_host rfl
  · split
    · exact ⟨s.host.undisturbed_rfl, fun _ => rfl⟩
    · have hasks (caller : Nat) (markup : SafeMarkup) (l : Link) :
          l.Undisturbed (l.step (.call caller markup)).1 := l.undisturbed_step nofun nofun nofun
      exact (leavesAlone_act _ _ (hasks _ _)).of_host rfl

end Server

end SafePreview
