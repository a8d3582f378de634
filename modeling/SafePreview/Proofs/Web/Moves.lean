import SafePreview.Proofs.Session.Callers
import SafePreview.Proofs.Session.Hosts
import SafePreview.Web.Server

/-!
# Everything that can happen at a server

The events of a server let a keeper take a turn in one piece. What a keeper does in a turn can be
taken apart (`Link.Part`), and others can come between: a `Move` is an event of the server or one
thing that a keeper does by itself, and a life in moves (`Server.life`) lets anything happen between
any two of them. A run of events is one of these lives (`Server.life_events`).

All that moves do to sessions are pulses of one link, each followed by the responses that it brings
(`Server.beat`). Two things are said here about a beat for all that follows. It touches one link
alone, and where that link is left undisturbed so is the server. And the responses that it brings
are told to requests that waited, and to each of them once (`concludeAll_concludes`).
-/

namespace SafePreview

namespace Link

/-- **What a keeper does by itself**, one thing at a time. -/
inductive Work where
  | create
  | part (p : Part)
  | discard
  | publish
  | stop

/-- The pulse that it is. -/
def Work.pulse : Work → Pulse
  | .create => .create
  | .part p => .part p
  | .discard => .discard
  | .publish => .publish
  | .stop => .stop

end Link

namespace Server

/-! ## What could be seen -/

/-- **The responses given.** -/
def responded (seen : List Reaction) : List (Nat × Response) :=
  seen.filterMap fun
    | .responded ticket response => some (ticket, response)
    | .wrote _ _ => none

/-- **The messages put on the socket of a session**, in order. -/
def written (index : Nat) (seen : List Reaction) : List HostMessage :=
  seen.filterMap fun
    | .wrote session (.message message) => if session = index then some message else none
    | _ => none

theorem responded_append (first more : List Reaction) :
    responded (first ++ more) = responded first ++ responded more := List.filterMap_append

theorem written_append (index : Nat) (first more : List Reaction) :
    written index (first ++ more) = written index first ++ written index more :=
  List.filterMap_append

theorem mem_responded {seen : List Reaction} {ticket : Nat} {response : Response} :
    (ticket, response) ∈ responded seen ↔ .responded ticket response ∈ seen := by
  rw [responded, List.mem_filterMap]
  constructor
  · rintro ⟨reaction, hmem, hreaction⟩
    cases reaction with
    | responded ticket' response' =>
      cases hreaction
      exact hmem
    | wrote index frame => cases hreaction
  · exact fun hmem => ⟨_, hmem, rfl⟩

end Server

variable [Channels]

namespace Server

/-! ## Moves -/

/-- A pulse of one session, with the responses that it brings. -/
def pulseOf (s : Server) (index : Nat) (o : Opened) (p : Link.Pulse) : Server × List Reaction :=
  { s with host := s.host.setLink index (o.link.pulse p).1 }.concludeAll (o.link.pulse p).2

/-- **A pulse of one session**, with the responses that it brings. A session that takes no more
messages has no more use for its socket. -/
def beat (s : Server) (index : Nat) (p : Link.Pulse) : Server × List Reaction :=
  match s.host.session? index with
  | none => (s, [])
  | some o =>
    let done := s.pulseOf index o p
    (if refusesContext (o.link.pulse p).2 then done.1.release index else done.1, done.2)

/-- An event of one session is a pulse of it. -/
theorem act_eq_beat (s : Server) (index : Nat) (e : Link.Event) :
    s.act index e = s.beat index (.event e) := by
  rw [act, beat, Host.act]
  cases s.host.session? index with
  | none => rfl
  | some o => rfl

/-- **What can happen at a server**, with the turns of keepers in one piece or in parts. -/
inductive Move where
  | event (e : Event)
  | work (session : Nat) (w : Link.Work)

/-- **One move.** -/
def move [ParentOrder] (s : Server) : Move → Server × List Reaction
  | .event e => s.step e
  | .work index w => s.beat index w.pulse

/-- **A life in moves**, and all that could be seen of it. -/
def life [ParentOrder] (s : Server) : List Move → Server × List Reaction
  | [] => (s, [])
  | m :: rest => andThen (s.move m) (·.life rest)

/-- A run of events. -/
theorem life_events [ParentOrder] (s : Server) (events : List Event) :
    s.life (events.map .event) = s.run events := by
  induction events generalizing s with
  | nil => rfl
  | cons e events ih =>
    rw [List.map_cons, life, run, andThen, andThen, ih]
    rfl

end Server

/-! ## Sessions that are left as they are -/

namespace Link

/-- Callers, senders and time leave the session and what was handed over undisturbed. -/
theorem undisturbed_step (l : Link) {e : Event} (hread : e ≠ .read) (hdeafen : e ≠ .deafen)
    (hturn : e ≠ .turn) : l.Undisturbed (l.step e).1 := by
  obtain ⟨hsame, -⟩ := l.agrees_step hread hdeafen hturn
  exact {
    session := hsame.session
    status := (l.sameKeeper_step hturn).status
    unsent := hsame.unsent
    outbound := hsame.outbound ▸ List.prefix_rfl }

/-- A context that goes away takes nothing out of the session. -/
theorem undisturbed_deafen (l : Link) : l.Undisturbed (l.step .deafen).1 :=
  ⟨rfl, rfl, rfl, List.nil_prefix⟩

end Link

namespace Host

variable {h h' h'' : Host}

/-- **A host to whose sessions nothing happened.** -/
structure Undisturbed (h h' : Host) : Prop where
  length : h'.sessions.length = h.sessions.length
  sessions : ∀ i o, h.session? i = some o → ∃ o', h'.session? i = some o' ∧
    o'.id = o.id ∧ o'.registered = o.registered ∧ o.link.Undisturbed o'.link

theorem undisturbed_rfl (h : Host) : h.Undisturbed h :=
  ⟨rfl, fun _ o ho => ⟨o, ho, rfl, rfl, o.link.undisturbed_rfl⟩⟩

theorem Undisturbed.trans (hfirst : h.Undisturbed h') (hmore : h'.Undisturbed h'') :
    h.Undisturbed h'' where
  length := hmore.length.trans hfirst.length
  sessions i o ho := by
    obtain ⟨o', ho', hid, hregistered, hlink⟩ := hfirst.sessions i o ho
    obtain ⟨o'', ho'', hid', hregistered', hlink'⟩ := hmore.sessions i o' ho'
    exact ⟨o'', ho'', hid'.trans hid, hregistered'.trans hregistered, hlink.trans hlink'⟩

theorem undisturbed_setLink {index : Nat} {o : Opened} (ho : h.session? index = some o)
    {link : Link} (hlink : o.link.Undisturbed link) : h.Undisturbed (h.setLink index link) where
  length := List.length_modify _ _ _
  sessions i o' ho' := by
    rw [session?_setLink, ho']
    refine ⟨_, rfl, ?_⟩
    split
    · rename_i hi
      rw [hi, ho'] at ho
      cases ho
      exact ⟨rfl, rfl, hlink⟩
    · exact ⟨rfl, rfl, o'.link.undisturbed_rfl⟩

theorem undisturbed_act (h : Host) (index : Nat) {e : Link.Event}
    (hlink : ∀ l : Link, l.Undisturbed (l.step e).1) : h.Undisturbed (h.act index e).1 := by
  rw [act]
  cases ho : h.session? index with
  | none => exact h.undisturbed_rfl
  | some o => exact undisturbed_setLink ho (hlink o.link)

end Host

namespace Server

/-- The end of a context takes nothing out of its session. -/
theorem undisturbed_release (s : Server) (index : Nat) :
    s.host.Undisturbed (s.release index).host := by
  have hsilence := s.host.undisturbed_act index fun l =>
    l.undisturbed_step (e := .silence) nofun nofun nofun
  exact hsilence.trans (Host.undisturbed_act _ index Link.undisturbed_deafen)

/-! ## Responses to those who wait -/

/-- **What becomes of those who wait** when callers were answered. -/
structure Concludes (effects : List Effect) (s : Server) (done : Server × List Reaction) :
    Prop where
  /-- Nothing else changes, -/
  server : done.1 = { s with awaited := done.1.awaited }
  silent : ∀ index, written index done.2 = []
  /-- and each of them was told something or still waits. -/
  tickets : ((responded done.2).map (·.1) ++ done.1.awaited.map (·.ticket)).Perm
    (s.awaited.map (·.ticket))
  responses : ∀ ticket response, .responded ticket response ∈ done.2 →
    ∃ a ∈ s.awaited, ∃ answer, .answered (callerOf a.ticket) answer ∈ effects ∧
      ticket = a.ticket ∧ response = (Errand.response a.errand answer).shared
  told : ∀ a ∈ s.awaited, ∀ answer, .answered (callerOf a.ticket) answer ∈ effects →
    a.ticket ∈ (responded done.2).map (·.1)
  awaited : done.1.awaited ⊆ s.awaited
  kept : ∀ a ∈ s.awaited, (∀ answer, .answered (callerOf a.ticket) answer ∉ effects) →
    a ∈ done.1.awaited

/-- Nobody who waits is told anything. -/
theorem concludes_nothing (s : Server) {effects : List Effect}
    (h : ∀ a ∈ s.awaited, ∀ answer, .answered (callerOf a.ticket) answer ∉ effects) :
    Concludes effects s (s, []) where
  server := rfl
  silent _ := rfl
  tickets := .rfl
  responses _ _ h := nomatch h
  told a ha answer hanswered := absurd hanswered (h a ha answer)
  awaited := List.Subset.refl _
  kept _ h _ := h

/-- Of two effects after each other, the second is told to those who still wait. -/
theorem Concludes.andThen {effects effects' : List Effect} {s s' s'' : Server}
    {first more : List Reaction} (h : Concludes effects s (s', first))
    (h' : Concludes effects' s' (s'', more)) :
    Concludes (effects ++ effects') s (s'', first ++ more) where
  server := h'.server.trans
    (congrArg (fun t : Server => { t with awaited := s''.awaited }) h.server)
  silent index := by
    rw [written_append, h.silent, h'.silent]
    rfl
  tickets := by
    rw [responded_append, List.map_append, List.append_assoc]
    exact (h'.tickets.append_left _).trans h.tickets
  responses ticket response hmem := by
    rcases List.mem_append.1 hmem with hmem | hmem
    · obtain ⟨a, ha, answer, hanswer, hticket⟩ := h.responses ticket response hmem
      exact ⟨a, ha, answer, List.mem_append_left _ hanswer, hticket⟩
    · obtain ⟨a, ha, answer, hanswer, hticket⟩ := h'.responses ticket response hmem
      exact ⟨a, h.awaited ha, answer, List.mem_append_right _ hanswer, hticket⟩
  told a ha answer hanswered := by
    rw [responded_append, List.map_append, List.mem_append]
    rcases List.mem_append.1 hanswered with hanswered | hanswered
    · exact .inl (h.told a ha answer hanswered)
    · -- one that still waits may be another with the same ticket
      have hticket := h.tickets.mem_iff.2 (List.mem_map_of_mem (f := Awaited.ticket) ha)
      refine (List.mem_append.1 hticket).imp_right fun hwaits => ?_
      obtain ⟨b, hb, hsame⟩ := List.mem_map.1 hwaits
      rw [← hsame] at hanswered ⊢
      exact h'.told b hb answer hanswered
  awaited := fun _ ha => h.awaited (h'.awaited ha)
  kept a ha hnot := by
    refine h'.kept a (h.kept a ha fun answer hmem => ?_) fun answer hmem => ?_
    · exact hnot answer (List.mem_append_left _ hmem)
    · exact hnot answer (List.mem_append_right _ hmem)

/-- **An answer is told to the one who waits for it.** -/
theorem conclude_concludes (s : Server) (effect : Effect) :
    Concludes [effect] s (s.conclude effect) := by
  cases effect with
  | accepted receipt markup =>
    exact s.concludes_nothing fun _ _ _ h => nomatch List.mem_singleton.1 h
  | read message => exact s.concludes_nothing fun _ _ _ h => nomatch List.mem_singleton.1 h
  | answered caller answer =>
    rw [conclude]
    split
    · rename_i a hfound
      have hcaller : callerOf a.ticket = caller := by simpa using List.find?_some hfound
      have hperm := Link.perm_cons_eraseP hfound
      exact {
        server := rfl
        silent := fun _ => rfl
        tickets := (hperm.map Awaited.ticket).symm
        responses := by
          intro ticket response hmem
          cases List.mem_singleton.1 hmem
          exact ⟨a, List.mem_of_find?_eq_some hfound, answer,
            List.mem_singleton.2 (by rw [hcaller]), rfl, rfl⟩
        told := by
          intro b hb answer' hanswered
          cases List.mem_singleton.1 hanswered
          have hsame : a.ticket = b.ticket := Nat.succ.inj hcaller
          exact List.mem_singleton.2 hsame.symm
        awaited := List.eraseP_subset
        kept := by
          intro b hb hnot
          rcases List.mem_cons.1 (hperm.subset hb) with rfl | hb
          · exact absurd (List.mem_singleton.2 (by rw [hcaller])) (hnot answer)
          · exact hb }
    · rename_i hnone
      refine s.concludes_nothing fun a ha answer' hanswered => ?_
      cases List.mem_singleton.1 hanswered
      simpa using List.find?_eq_none.1 hnone a ha

/-- **Each of those who wait is told what it was answered**, once. -/
theorem concludeAll_concludes (s : Server) (effects : List Effect) :
    Concludes effects s (s.concludeAll effects) := by
  induction effects generalizing s with
  | nil => exact s.concludes_nothing fun _ _ _ => List.not_mem_nil
  | cons effect effects ih => exact (s.conclude_concludes effect).andThen (ih _)

/-- The responses that a pulse brings. -/
theorem pulseOf_concludes (s : Server) (index : Nat) (o : Opened) (p : Link.Pulse) :
    Concludes (o.link.pulse p).2 { s with host := s.host.setLink index (o.link.pulse p).1 }
      (s.pulseOf index o p) := concludeAll_concludes _ _

/-- A beat puts nothing on a socket. -/
theorem written_beat (s : Server) (index : Nat) (p : Link.Pulse) (i : Nat) :
    written i (s.beat index p).2 = [] := by
  rw [beat]
  split
  · rfl
  · rename_i o _
    exact (s.pulseOf_concludes index o p).silent i

/-- A pulse that leaves its link undisturbed leaves all sessions so. -/
theorem undisturbed_beat (s : Server) (index : Nat) (p : Link.Pulse)
    (hlink : ∀ o, s.host.session? index = some o → o.link.Undisturbed (o.link.pulse p).1) :
    s.host.Undisturbed (s.beat index p).1.host := by
  rw [beat]
  split
  · exact s.host.undisturbed_rfl
  · rename_i o ho
    have hset := Host.undisturbed_setLink ho (hlink o ho)
    have hhost : (s.pulseOf index o p).1.host = s.host.setLink index (o.link.pulse p).1 := by
      rw [(s.pulseOf_concludes index o p).server]
    rw [← hhost] at hset
    dsimp only
    split
    · exact hset.trans (undisturbed_release _ index)
    · exact hset

end Server

end SafePreview
