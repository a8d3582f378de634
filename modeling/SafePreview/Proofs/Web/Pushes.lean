import SafePreview.Proofs.Web.Moves
import SafePreview.Proofs.Session.Delivery

/-!
# The books of a server

A push goes through four hands: it finds its session, it is rendered and waits for the session's
answer, its content is asked for in the session, and the session takes it or refuses it.
`Server.Books` is the account of all pushes in all hands. Requests are told apart by their tickets,
which number them in the order in which they arrive, so the request behind a ticket is looked up in
the list of all of them and nothing about it has to be remembered twice.

The books list what was taken (`Taken`): which session took which push, under which receipt. Every
other entry says how far a push is that was not taken yet, and that is what keeps the entries
apart: a ticket stands with a request that has found its session, or with one that waits, or with
one that waited until it went away, or with a response that was given, and never in two of these
places. One that went away keeps its entry, as its content may still be in the channel.

An error says why a push failed (`Request.FailsWith`), and the books hold the reason with it: what
is wrong with the request does not change, nor does it that a session was unknown when the request
arrived, and a session that is closed stays closed.
-/

namespace SafePreview

open Markup (Policy SafeMarkup)

/-! ## Pushes -/

namespace Request

/-- **A request that pushes a content**, by its method and its path. -/
def IsPush (r : Request) : Prop :=
  r.method = .post ∧ ∃ coded, Route.ofPath? r.address.path = some (.content coded)

/-- What a request wants to push, and the id of the session that it names. -/
structure Wants (r : Request) (id : SessionId) (wanted : PreviewRequest) : Prop where
  method : r.method = .post
  address : ∃ coded text, Route.ofPath? r.address.path = some (.content coded) ∧
    Server.readId coded = .ok text ∧ SessionId.ofString text = .ok id
  body : Server.readBody r = .ok wanted

/-- **A push of a preview**: the request names the session, and the preview is what its blocks are
rendered to. -/
def Pushes [ParentOrder] (policy : Policy) (r : Request) (id : SessionId) (preview : Preview) :
    Prop :=
  ∃ wanted, r.Wants id wanted ∧ wanted.render policy = .ok preview

/-- **What a request calls the session** that it pushes a content into. -/
def Names (r : Request) (text : String) : Prop :=
  ∃ coded, Route.ofPath? r.address.path = some (.content coded) ∧ Server.readId coded = .ok text

/-- A request whose path or body is not understood. -/
def IsUnread (r : Request) (refusal : Refusal) : Prop :=
  (∃ coded, Route.ofPath? r.address.path = some (.content coded) ∧
    Server.readId coded = .error refusal) ∨
  ∃ text, r.Names text ∧ Server.readBody r = .error refusal

theorem Wants.isPush {r : Request} {id : SessionId} {wanted : PreviewRequest}
    (h : r.Wants id wanted) : r.IsPush :=
  ⟨h.method, h.address.imp fun _ ⟨_, hroute, _⟩ => hroute⟩

theorem Pushes.isPush [ParentOrder] {policy : Policy} {r : Request} {id : SessionId}
    {preview : Preview} (h : r.Pushes policy id preview) : r.IsPush := by
  obtain ⟨wanted, hwants, -⟩ := h
  exact hwants.isPush

/-- **Why a push is answered with an error, and with which**, where the session that it names is
`unknown` if no registered one was called so, and `closed` if it was closed. -/
inductive FailsWith [ParentOrder] (policy : Policy) (r : Request) (unknown : String → Prop)
    (closed : SessionId → Prop) (response : Response) : Prop
  /-- The request is not understood. -/
  | unread (refusal : Refusal) (cause : r.IsUnread refusal)
      (told : response = (Response.refusal refusal).shared)
      (status : response.status = refusal.status)
  /-- The request is understood, but it names no session. -/
  | unknown (text : String) (wanted : PreviewRequest) (names : r.Names text)
      (body : Server.readBody r = .ok wanted) (cause : unknown text)
      (told : response = (Response.error (.session (.notFound text))).shared)
      (status : response.status = 404)
  /-- Its blocks cannot be rendered. -/
  | unrendered (id : SessionId) (wanted : PreviewRequest) (error : BlockError)
      (wants : r.Wants id wanted) (cause : wanted.render policy = .error error)
      (told : response = (Response.error (.session (.render error))).shared)
      (status : response.status = 422)
  /-- The session that it names is closed. -/
  | closed (id : SessionId) (preview : Preview) (pushes : r.Pushes policy id preview)
      (cause : closed id) (told : response = (Response.error (.session .closed)).shared)
      (status : response.status = 409)

section FailsWith

variable [ParentOrder] {policy : Policy} {r : Request} {unknown unknown' : String → Prop}
  {closed closed' : SessionId → Prop} {response : Response}

/-- No error looks like a success. -/
theorem FailsWith.status_ne (h : r.FailsWith policy unknown closed response) :
    response.status ≠ 200 := by
  cases h with
  | unread refusal _ _ status =>
    rw [status]
    cases refusal with
    | _ => decide
  | unknown _ _ _ _ _ _ status | unrendered _ _ _ _ _ _ status | closed _ _ _ _ _ status =>
    rw [status]
    decide

/-- A reason stands as long as unknown sessions stay unknown and closed ones closed. -/
theorem FailsWith.imp (h : r.FailsWith policy unknown closed response)
    (hunknown : ∀ text, unknown text → unknown' text) (hclosed : ∀ id, closed id → closed' id) :
    r.FailsWith policy unknown' closed' response := by
  cases h with
  | unread refusal cause told status => exact .unread refusal cause told status
  | unknown text wanted names body cause told status =>
    exact .unknown text wanted names body (hunknown text cause) told status
  | unrendered id wanted error wants cause told status =>
    exact .unrendered id wanted error wants cause told status
  | closed id preview pushes cause told status =>
    exact .closed id preview pushes (hclosed id cause) told status

/-- It stands in particular as long as closed sessions stay closed. -/
theorem FailsWith.mono (h : r.FailsWith policy unknown closed response)
    (hclosed : ∀ id, closed id → closed' id) : r.FailsWith policy unknown closed' response :=
  h.imp (fun _ => id) hclosed

end FailsWith

end Request

/-- **A push that a session took**, with the ticket of the request and the receipt. -/
structure Taken where
  session : Nat
  ticket : Nat
  id : SessionId
  preview : Preview
  receipt : Receipt

namespace Taken

/-- The message that carries it to the context. -/
def message (p : Taken) : HostMessage := .update p.receipt.revision p.preview.markup

/-- The response to the request. -/
def response (p : Taken) : Response :=
  (Server.Errand.response (.content p.id p.preview) (.receipt p.receipt)).shared

end Taken

/-- What one session took, in order. -/
def takenBy (index : Nat) (took : List Taken) : List Taken := took.filter (·.session = index)

/-- The contents that one session took. -/
def contentsOf (index : Nat) (took : List Taken) : List SafeMarkup :=
  (takenBy index took).map (·.preview.markup)

namespace Server

theorem getElem?_of_prefix {α : Type} {as bs : List α} (h : as <+: bs) {i : Nat} {a : α}
    (ha : as[i]? = some a) : bs[i]? = some a := by
  obtain ⟨more, rfl⟩ := h
  rw [List.getElem?_append_left (List.getElem?_eq_some_iff.1 ha).1]
  exact ha

/-- What was in no place and is put in one is still in no two places. -/
theorem nodup_of_perm_cons {α : Type} {a : α} {as bs : List α} (hnew : a ∉ as) (has : as.Nodup)
    (hperm : (a :: as).Perm bs) : bs.Nodup :=
  hperm.nodup_iff.1 (List.nodup_cons.2 ⟨hnew, has⟩)

/-- **A caller that asks for no push**: a context, or a request of another kind. -/
def IsOther (asked : List Request) (caller : Nat) : Prop :=
  caller = 0 ∨ ∃ ticket r, caller = callerOf ticket ∧ asked[ticket]? = some r ∧ ¬ r.IsPush

theorem IsOther.mono {asked asked' : List Request} {caller : Nat} (h : IsOther asked caller)
    (hasked : asked <+: asked') : IsOther asked' caller :=
  h.imp_right fun ⟨ticket, r, hcaller, hr, hother⟩ =>
    ⟨ticket, r, hcaller, getElem?_of_prefix hasked hr, hother⟩

/-- **A push is answered with an error** in what could be seen. -/
def Fails (asked : List Request) (seen : List Reaction) : Prop :=
  ∃ ticket response r, .responded ticket response ∈ seen ∧ asked[ticket]? = some r ∧ r.IsPush ∧
    response.status ≠ 200

/-- Where nobody is answered no push fails. -/
theorem not_fails {asked : List Request} {frames : List Reaction} (h : responded frames = []) :
    ¬ Fails asked frames := by
  rintro ⟨ticket, response, r, hmem, -⟩
  rw [← mem_responded, h] at hmem
  cases hmem

variable [Channels]

/-! ## The entries of the books -/

/-- The session with a number has an id. -/
def HasId (s : Server) (index : Nat) (id : SessionId) : Prop :=
  ∃ o, s.host.session? index = some o ∧ o.id = id

/-- **A registered session is called so.** -/
def Knows (s : Server) (text : String) : Prop :=
  ∃ o ∈ s.host.register, SessionId.ofString text = .ok o.id

/-- A session with an id is closed. -/
def HasClosed (s : Server) (id : SessionId) : Prop :=
  ∃ index o, s.host.session? index = some o ∧ o.id = id ∧ o.link.session.phase = .closed

/-- A request that has found its session is what it seems to be. -/
def FoundFor (asked : List Request) (s : Server) (f : Found) : Prop :=
  ∃ r, asked[f.ticket]? = some r ∧ match f.wish with
    | .content id wanted => r.Wants id wanted ∧ s.HasId f.session id
    | .closing => ¬ r.IsPush

/-- One that waits for a session to take a content asks for that content. -/
def AsksFor (index : Nat) (ask : Nat × SafeMarkup) (a : Awaited) : Prop :=
  a.session = index ∧ callerOf a.ticket = ask.1 ∧
    ∃ id preview, a.errand = .content id preview ∧ preview.markup = ask.2

/-- **The entry of one session**, when `sent` was put on its socket and `contents` were taken. -/
structure SessionBooks (asked : List Request) (awaited : List Awaited) (index : Nat)
    (sent : List HostMessage) (contents : List SafeMarkup) (l : Link) : Prop where
  flow : ∃ size handed, l.Flow True size sent handed contents
  callers : (l.asking.map (·.1)).Nodup
  asking : ∀ ask ∈ l.asking, ∃ a ∈ awaited, AsksFor index ask a
  others : ∀ caller ∈ l.others, IsOther asked caller
  truthful : l.IsTruthful

/-! ## Entries hold on -/

variable {policy : Policy} {asked asked' : List Request} {s s' : Server}

/-- **Sessions stay**, with their ids, and stay closed. -/
def Keeps (s s' : Server) : Prop :=
  ∀ i o, s.host.session? i = some o → ∃ o', s'.host.session? i = some o' ∧ o'.id = o.id ∧
    (o.link.session.phase = .closed → o'.link.session.phase = .closed)

theorem keeps_rfl (s : Server) : s.Keeps s := fun _ o ho => ⟨o, ho, rfl, id⟩

theorem Keeps.hasId (h : s.Keeps s') {i : Nat} {id : SessionId} (hid : s.HasId i id) :
    s'.HasId i id := by
  obtain ⟨o, ho, rfl⟩ := hid
  obtain ⟨o', ho', hid', -⟩ := h i o ho
  exact ⟨o', ho', hid'⟩

theorem Keeps.hasClosed (h : s.Keeps s') {id : SessionId} (hclosed : s.HasClosed id) :
    s'.HasClosed id := by
  obtain ⟨i, o, ho, rfl, hphase⟩ := hclosed
  obtain ⟨o', ho', hid', hstays⟩ := h i o ho
  exact ⟨i, o', ho', hid', hstays hphase⟩

theorem FoundFor.mono {f : Found} (h : FoundFor asked s f) (hasked : asked <+: asked')
    (hkeeps : s.Keeps s') : FoundFor asked' s' f := by
  obtain ⟨r, hr, hf⟩ := h
  refine ⟨r, getElem?_of_prefix hasked hr, ?_⟩
  cases hwish : f.wish with
  | content id wanted =>
    rw [hwish] at hf
    exact ⟨hf.1, hkeeps.hasId hf.2⟩
  | closing =>
    rw [hwish] at hf
    exact hf

/-- An entry holds on when more requests arrive, as long as all who ask still wait. -/
theorem SessionBooks.mono {awaited awaited' : List Awaited} {index : Nat}
    {sent : List HostMessage} {contents : List SafeMarkup} {l : Link}
    (h : SessionBooks asked awaited index sent contents l) (hasked : asked <+: asked')
    (hawaited : ∀ ask ∈ l.asking, ∀ a ∈ awaited, AsksFor index ask a → a ∈ awaited') :
    SessionBooks asked' awaited' index sent contents l where
  flow := h.flow
  callers := h.callers
  asking ask hask := by
    obtain ⟨a, ha, hasks⟩ := h.asking ask hask
    exact ⟨a, hawaited ask hask a ha hasks, hasks⟩
  others caller hcaller := (h.others caller hcaller).mono hasked
  truthful := h.truthful

/-! ## Sessions that are the same for the books -/

/-- **Two states of a session with the same entry**: who waits is the same, and so is what is on its
way to the context. -/
structure SameEntry (o o' : Opened) : Prop where
  id : o'.id = o.id
  agrees : o.link.Agrees o'.link
  keeps : o.link.Keeps o'.link
  status : o'.link.status = o.link.status
  stopped : o'.link.stopped = o.link.stopped

theorem sameEntry_of_link {o o' : Opened} (hid : o'.id = o.id) (hlink : o'.link = o.link) :
    SameEntry o o' :=
  ⟨hid, hlink ▸ o.link.agrees_rfl, hlink ▸ o.link.keeps_rfl, by rw [hlink], by rw [hlink]⟩

theorem sameEntry_rfl (o : Opened) : SameEntry o o := sameEntry_of_link rfl rfl

/-- **Two servers with the same entries**, session by session. -/
def SameEntries (s s' : Server) : Prop :=
  ∀ i, Option.Rel SameEntry (s.host.session? i) (s'.host.session? i)

theorem sameEntries_of_host (h : s'.host = s.host) : s.SameEntries s' := by
  intro i
  rw [h]
  cases s.host.session? i with
  | none => exact .none
  | some o => exact .some (sameEntry_rfl o)

/-- Where sessions are changed one by one, those with the same entry stay the same. -/
theorem sameEntries_of_map {f : Nat → Opened → Opened}
    (h : ∀ i, s'.host.session? i = (s.host.session? i).map (f i))
    (hf : ∀ i o, SameEntry o (f i o)) : s.SameEntries s' := by
  intro i
  rw [h]
  cases s.host.session? i with
  | none => exact .none
  | some o => exact .some (hf i o)

theorem SameEntries.keeps (h : s.SameEntries s') : s.Keeps s' := by
  intro i o ho
  have hi := h i
  rw [ho] at hi
  cases ho' : s'.host.session? i with
  | none =>
    rw [ho'] at hi
    cases hi
  | some o' =>
    rw [ho'] at hi
    cases hi with
    | some hsame => exact ⟨o', rfl, hsame.id, fun hphase => hsame.agrees.session ▸ hphase⟩

/-- What has an entry now had the same before. -/
theorem SameEntries.exists_of_some (h : s.SameEntries s') {i : Nat} {o' : Opened}
    (ho' : s'.host.session? i = some o') : ∃ o, s.host.session? i = some o ∧ SameEntry o o' := by
  have hi := h i
  rw [ho'] at hi
  cases ho : s.host.session? i with
  | none =>
    rw [ho] at hi
    cases hi
  | some o =>
    rw [ho] at hi
    cases hi with
    | some hentry => exact ⟨o, rfl, hentry⟩

/-- The same entry for the same who wait. -/
theorem SessionBooks.of_same {awaited : List Awaited} {index : Nat} {sent : List HostMessage}
    {contents : List SafeMarkup} {o o' : Opened}
    (h : SessionBooks asked awaited index sent contents o.link) (hsame : SameEntry o o') :
    SessionBooks asked awaited index sent contents o'.link where
  flow := by
    obtain ⟨size, handed, hflow⟩ := h.flow
    exact ⟨size, handed, hflow.of_agrees hsame.agrees⟩
  callers := hsame.keeps.asking ▸ h.callers
  asking := hsame.keeps.asking ▸ h.asking
  others := hsame.keeps.others ▸ h.others
  truthful := {
    stopped := fun hstopped =>
      hsame.agrees.session ▸ h.truthful.stopped (hsame.stopped ▸ hstopped)
    status := fun hstatus => hsame.agrees.session ▸ h.truthful.status (hsame.status ▸ hstatus) }

/-! ## A session more -/

theorem keeps_openSession (s : Server) (id : SessionId) :
    s.Keeps { s with host := s.host.openSession id } :=
  fun _ o ho => ⟨o, getElem?_of_prefix (List.prefix_append _ _) ho, rfl, fun hphase => hphase⟩

/-- The entry of a session at its opening. -/
theorem sessionBooks_opened (asked : List Request) (awaited : List Awaited) (index : Nat)
    (capacity clock timeout : Nat) :
    SessionBooks asked awaited index [] [] (.opened capacity clock timeout) where
  flow := ⟨_, _, Link.flow_opened True capacity clock timeout⟩
  callers := by
    rw [Link.asking_opened]
    exact List.nodup_nil
  asking ask hask := by
    rw [Link.asking_opened] at hask
    exact absurd hask List.not_mem_nil
  others caller hcaller := by
    rw [Link.others_opened] at hcaller
    exact absurd hcaller List.not_mem_nil
  truthful := Link.isTruthful_opened capacity clock timeout

/-! ## The books -/

variable [ParentOrder]

/-- A request that waits is what it seems to be. -/
def AwaitedFor (policy : Policy) (asked : List Request) (s : Server) (a : Awaited) : Prop :=
  ∃ r, asked[a.ticket]? = some r ∧ match a.errand with
    | .content id preview => r.Pushes policy id preview ∧ s.HasId a.session id
    | .closing => ¬ r.IsPush

theorem AwaitedFor.mono {a : Awaited} (h : AwaitedFor policy asked s a) (hasked : asked <+: asked')
    (hkeeps : s.Keeps s') : AwaitedFor policy asked' s' a := by
  obtain ⟨r, hr, ha⟩ := h
  refine ⟨r, getElem?_of_prefix hasked hr, ?_⟩
  cases herrand : a.errand with
  | content id preview =>
    rw [herrand] at ha
    exact ⟨ha.1, hkeeps.hasId ha.2⟩
  | closing =>
    rw [herrand] at ha
    exact ha

/-- All tickets that stand somewhere, when those in `left` went away while they waited. -/
def ticketsOf (seen : List Reaction) (left : List Awaited) (s : Server) : List Nat :=
  (responded seen).map (·.1) ++ ((s.awaited ++ left).map (·.ticket) ++ s.found.map (·.ticket))

/-- **The books of a server**, when the requests `asked` arrived, all in `seen` could be seen, the
sessions took `took`, and those in `left` went away while they waited. A text that stands with a
ticket in `unknown` is one by which that request found no session. -/
structure Books (policy : Policy) (asked : List Request) (unknown : Nat → String → Prop)
    (seen : List Reaction) (took : List Taken) (left : List Awaited) (s : Server) : Prop where
  renders : s.policy = policy
  requests : s.requests = asked.length
  found : ∀ f ∈ s.found, FoundFor asked s f
  awaited : ∀ a ∈ s.awaited ++ left, AwaitedFor policy asked s a
  /-- A ticket stands in one place, -/
  tickets : (ticketsOf seen left s).Nodup
  /-- and is one of those given out. -/
  bound : ∀ ticket ∈ (responded seen).map (·.1), ticket < asked.length
  sessions : ∀ i o, s.host.session? i = some o →
    SessionBooks asked (s.awaited ++ left) i (written i seen) (contentsOf i took) o.link
  beyond : ∀ i, s.host.session? i = none → written i seen = [] ∧ takenBy i took = []
  /-- What was taken was pushed to the session that took it, -/
  taken : ∀ p ∈ took, ∃ r, asked[p.ticket]? = some r ∧ r.Pushes policy p.id p.preview ∧
    s.HasId p.session p.id
  /-- no push twice, -/
  once : (took.map (·.ticket)).Nodup
  /-- so that none of them is asked for any more, -/
  ended : ∀ p ∈ took, ∀ i o, s.host.session? i = some o →
    callerOf p.ticket ∉ o.link.asking.map (·.1)
  /-- under one revision after the other, -/
  revisions : ∀ i, (takenBy i took).map (·.receipt.revision)
    = List.range' 1 (takenBy i took).length
  /-- and was answered with its receipt, if there was still someone to be answered. -/
  given : ∀ p ∈ took, .responded p.ticket p.response ∈ seen ∨ p.ticket ∈ left.map (·.ticket)
  /-- No other push is answered as if it was taken. -/
  answered : ∀ ticket response r, .responded ticket response ∈ seen → asked[ticket]? = some r →
    r.IsPush → (∃ p ∈ took, p.ticket = ticket ∧ p.response = response) ∨
      r.FailsWith policy (unknown ticket) s.HasClosed response

namespace Books

variable {unknown : Nat → String → Prop} {seen frames : List Reaction} {took : List Taken}
  {left : List Awaited} {r : Request} {ticket : Nat} {response : Response}

/-! ## What changes no entry -/

/-- A server that does something of which the books know nothing. -/
theorem carry (h : Books policy asked unknown seen took left s) (hsame : s.SameEntries s')
    (hpolicy : s'.policy = s.policy) (hrequests : s'.requests = s.requests)
    (hfound : s'.found = s.found) (hawaited : s'.awaited = s.awaited)
    (hwritten : ∀ i, written i frames = []) (hresponded : responded frames = []) :
    Books policy asked unknown (seen ++ frames) took left s' := by
  have hseen (i : Nat) : written i (seen ++ frames) = written i seen := by
    rw [written_append, hwritten, List.append_nil]
  have hgiven : responded (seen ++ frames) = responded seen := by
    rw [responded_append, hresponded, List.append_nil]
  have hkeeps := hsame.keeps
  exact {
    renders := hpolicy.trans h.renders
    requests := hrequests.trans h.requests
    found := fun f hf => (h.found f (hfound ▸ hf)).mono List.prefix_rfl hkeeps
    awaited := fun a ha => (h.awaited a (hawaited ▸ ha)).mono List.prefix_rfl hkeeps
    tickets := by
      rw [ticketsOf, hgiven, hfound, hawaited]
      exact h.tickets
    bound := by
      rw [hgiven]
      exact h.bound
    sessions := fun i o' ho' => by
      obtain ⟨o, ho, hentry⟩ := hsame.exists_of_some ho'
      rw [hseen, hawaited]
      exact (h.sessions i o ho).of_same hentry
    beyond := fun i hi' => by
      have hi := hsame i
      rw [hi'] at hi
      cases ho : s.host.session? i with
      | none =>
        rw [hseen]
        exact h.beyond i ho
      | some o =>
        rw [ho] at hi
        cases hi
    taken := fun p hp => by
      obtain ⟨r, hr, hpushes, hid⟩ := h.taken p hp
      exact ⟨r, hr, hpushes, hkeeps.hasId hid⟩
    once := h.once
    ended := fun p hp i o' ho' => by
      obtain ⟨o, ho, hentry⟩ := hsame.exists_of_some ho'
      rw [hentry.keeps.asking]
      exact h.ended p hp i o ho
    revisions := h.revisions
    given := fun p hp => (h.given p hp).imp_left (List.mem_append_left _)
    answered := fun ticket response r hmem hr hpush => by
      rw [← mem_responded, hgiven, mem_responded] at hmem
      exact (h.answered ticket response r hmem hr hpush).imp_right
        (·.mono fun _ => hkeeps.hasClosed) }

/-- A server that does something of which nothing at all is to be seen. -/
theorem carryQuietly (h : Books policy asked unknown seen took left s) (hsame : s.SameEntries s')
    (hpolicy : s'.policy = s.policy) (hrequests : s'.requests = s.requests)
    (hfound : s'.found = s.found) (hawaited : s'.awaited = s.awaited) :
    Books policy asked unknown seen took left s' := by
  have hcarried : Books policy asked unknown (seen ++ []) took left s' :=
    h.carry hsame hpolicy hrequests hfound hawaited (fun _ => rfl) rfl
  rwa [List.append_nil] at hcarried

/-! ## Tickets -/

/-- One more request arrives. Its ticket stands nowhere yet. -/
theorem ask (h : Books policy asked unknown seen took left s) (r : Request) :
    Books policy (asked ++ [r]) unknown seen took left { s with requests := s.requests + 1 } :=
  have hmore : asked <+: asked ++ [r] := List.prefix_append _ _
  { h with
    requests := by
      rw [List.length_append, ← h.requests]
      rfl
    found := fun f hf => (h.found f hf).mono hmore s.keeps_rfl
    awaited := fun a ha => (h.awaited a ha).mono hmore s.keeps_rfl
    bound := fun ticket hticket => by
      rw [List.length_append]
      exact Nat.lt_add_right _ (h.bound ticket hticket)
    sessions := fun i o ho => (h.sessions i o ho).mono hmore fun _ _ _ ha _ => ha
    taken := fun p hp => by
      obtain ⟨r, hr, hpushes⟩ := h.taken p hp
      exact ⟨r, getElem?_of_prefix hmore hr, hpushes⟩
    answered := fun ticket response r' hmem hr' hpush => by
      -- a response was given to a request that had arrived before
      have hbound := h.bound ticket (List.mem_map_of_mem (f := Prod.fst) (mem_responded.2 hmem))
      rw [List.getElem?_append_left hbound] at hr'
      exact h.answered ticket response r' hmem hr' hpush }

/-- Every ticket that stands somewhere was given out. -/
theorem lt_of_mem_ticketsOf (h : Books policy asked unknown seen took left s)
    (hticket : ticket ∈ ticketsOf seen left s) :
    ticket < asked.length := by
  rw [ticketsOf, List.mem_append, List.mem_append] at hticket
  rcases hticket with hticket | hticket | hticket
  · exact h.bound ticket hticket
  · obtain ⟨a, ha, rfl⟩ := List.mem_map.1 hticket
    obtain ⟨r, hr, -⟩ := h.awaited a ha
    exact (List.getElem?_eq_some_iff.1 hr).1
  · obtain ⟨f, hf, rfl⟩ := List.mem_map.1 hticket
    obtain ⟨r, hr, -⟩ := h.found f hf
    exact (List.getElem?_eq_some_iff.1 hr).1

/-- A response is given to a request whose ticket stood nowhere. If that is a push, it failed. -/
theorem respond (h : Books policy asked unknown seen took left s) (hasked : asked[ticket]? = some r)
    (hnew : ticket ∉ ticketsOf seen left s)
    (hfailed : r.IsPush → r.FailsWith policy (unknown ticket) s.HasClosed response) :
    Books policy asked unknown (seen ++ [.responded ticket response]) took left s :=
  have hgiven : (responded (seen ++ [.responded ticket response])).map (·.1)
      = (responded seen).map (·.1) ++ [ticket] := by
    rw [responded_append, List.map_append]
    rfl
  have hwritten (i : Nat) : written i (seen ++ [.responded ticket response]) = written i seen := by
    rw [written_append]
    exact List.append_nil _
  { h with
    tickets := nodup_of_perm_cons hnew h.tickets (by
      rw [ticketsOf, ticketsOf, hgiven, List.append_assoc]
      exact List.perm_middle.symm)
    bound := fun other hother => by
      rw [hgiven] at hother
      rcases List.mem_append.1 hother with hother | hother
      · exact h.bound other hother
      · cases List.mem_singleton.1 hother
        exact (List.getElem?_eq_some_iff.1 hasked).1
    sessions := fun i o ho => hwritten i ▸ h.sessions i o ho
    beyond := fun i hi => hwritten i ▸ h.beyond i hi
    given := fun p hp => (h.given p hp).imp_left (List.mem_append_left _)
    answered := fun other response' r' hmem hr' hpush => by
      rcases List.mem_append.1 hmem with hmem | hmem
      · exact h.answered other response' r' hmem hr' hpush
      · cases List.mem_singleton.1 hmem
        rw [hasked] at hr'
        cases hr'
        exact .inr (hfailed hpush) }

/-- A request whose ticket stood nowhere has found its session. -/
theorem find (h : Books policy asked unknown seen took left s) {f : Found} (hf : FoundFor asked s f)
    (hnew : f.ticket ∉ ticketsOf seen left s) :
    Books policy asked unknown seen took left { s with found := s.found ++ [f] } :=
  { h with
    found := fun g hg => by
      rcases List.mem_append.1 hg with hg | hg
      · exact h.found g hg
      · cases List.mem_singleton.1 hg
        exact hf
    tickets := nodup_of_perm_cons hnew h.tickets (by
      have hlast : (f.ticket :: s.found.map Found.ticket).Perm
          ((s.found ++ [f]).map Found.ticket) := by
        rw [List.map_append]
        exact (List.perm_append_singleton _ _).symm
      rw [ticketsOf, ticketsOf, ← List.append_assoc, ← List.append_assoc]
      exact List.perm_middle.symm.trans (hlast.append_left _)) }

/-- A request that has found its session goes on, and its ticket stands nowhere for a moment. -/
theorem goOn (h : Books policy asked unknown seen took left s) {f : Found}
    (hfound : s.found.find? (·.ticket = ticket) = some f) :
    Books policy asked unknown seen took left
        { s with found := s.found.eraseP (·.ticket = ticket) } ∧
      ticket ∉ ticketsOf seen left { s with found := s.found.eraseP (·.ticket = ticket) } := by
  have hticket : f.ticket = ticket := by simpa using List.find?_some hfound
  have hperm := (Link.perm_cons_eraseP hfound).map Found.ticket
  have htickets : (ticketsOf seen left s).Perm
      (ticket :: ticketsOf seen left { s with found := s.found.eraseP (·.ticket = ticket) }) := by
    rw [ticketsOf, ticketsOf, ← List.append_assoc, ← List.append_assoc]
    rw [List.map_cons, hticket] at hperm
    exact (hperm.append_left _).trans List.perm_middle
  have hnodup := List.nodup_cons.1 (htickets.nodup_iff.1 h.tickets)
  refine ⟨?_, hnodup.1⟩
  exact { h with
    found := fun g hg => h.found g (List.eraseP_subset hg)
    tickets := hnodup.2 }

/-- A request whose ticket stood nowhere waits for a session. -/
theorem await (h : Books policy asked unknown seen took left s) {a : Awaited}
    (ha : AwaitedFor policy asked s a) (hnew : a.ticket ∉ ticketsOf seen left s) :
    Books policy asked unknown seen took left { s with awaited := s.awaited ++ [a] } :=
  have hmore : (a :: (s.awaited ++ left)).Perm (s.awaited ++ [a] ++ left) := by
    rw [List.append_assoc]
    exact List.perm_middle.symm
  { h with
    awaited := fun b hb => by
      rcases List.mem_cons.1 (hmore.symm.subset hb) with rfl | hb
      · exact ha
      · exact h.awaited b hb
    tickets := nodup_of_perm_cons hnew h.tickets
      (List.perm_middle.symm.trans (((hmore.map Awaited.ticket).append_right _).append_left _))
    sessions := fun i o ho => (h.sessions i o ho).mono List.prefix_rfl fun _ _ _ hb _ =>
      hmore.subset (List.mem_cons_of_mem _ hb) }

/-- A request that has found its session goes away. -/
theorem goAwayEarly (h : Books policy asked unknown seen took left s) (ticket : Nat) :
    Books policy asked unknown seen took left
      { s with found := s.found.eraseP (·.ticket = ticket) } :=
  { h with
    found := fun g hg => h.found g (List.eraseP_subset hg)
    tickets := h.tickets.sublist
      (((List.eraseP_sublist.map Found.ticket).append_left _).append_left _) }

/-- A request that waits goes away, and keeps its entry. -/
theorem goAway (h : Books policy asked unknown seen took left s) {a : Awaited}
    (hfound : s.awaited.find? (·.ticket = ticket) = some a) :
    Books policy asked unknown seen took (a :: left)
      { s with awaited := s.awaited.eraseP (·.ticket = ticket) } :=
  have hsame : (s.awaited ++ left).Perm
      (s.awaited.eraseP (·.ticket = ticket) ++ a :: left) :=
    ((Link.perm_cons_eraseP hfound).append_right left).trans List.perm_middle.symm
  { h with
    awaited := fun b hb => h.awaited b (hsame.symm.subset hb)
    tickets := (((hsame.map Awaited.ticket).append_right _).append_left _).nodup_iff.1 h.tickets
    sessions := fun i o ho => (h.sessions i o ho).mono List.prefix_rfl fun _ _ _ hb _ =>
      hsame.subset hb
    given := fun p hp => (h.given p hp).imp_right (List.mem_cons_of_mem _) }

/-- A session is opened, with nothing sent and nothing taken. -/
theorem openSession (h : Books policy asked unknown seen took left s) (id : SessionId) :
    Books policy asked unknown seen took left { s with host := s.host.openSession id } :=
  have hkeeps := keeps_openSession s id
  { h with
    found := fun f hf => (h.found f hf).mono List.prefix_rfl hkeeps
    awaited := fun a ha => (h.awaited a ha).mono List.prefix_rfl hkeeps
    sessions := fun i o ho => by
      change (s.host.sessions ++ [_])[i]? = some o at ho
      rw [List.getElem?_append] at ho
      split at ho
      · exact h.sessions i o ho
      · rename_i hnew
        have hnone : s.host.session? i = none := List.getElem?_eq_none_iff.2 (Nat.le_of_not_lt hnew)
        obtain ⟨hsent, htaken⟩ := h.beyond i hnone
        rw [hsent, contentsOf, htaken]
        cases List.mem_singleton.1 (List.mem_of_getElem? ho)
        exact sessionBooks_opened asked (s.awaited ++ left) i _ _ _
    beyond := fun i hi => by
      change (s.host.sessions ++ [_])[i]? = none at hi
      rw [List.getElem?_eq_none_iff, List.length_append] at hi
      exact h.beyond i (List.getElem?_eq_none_iff.2 (Nat.le_of_add_right_le hi))
    taken := fun p hp => by
      obtain ⟨r, hr, hpushes, hid⟩ := h.taken p hp
      exact ⟨r, hr, hpushes, hkeeps.hasId hid⟩
    ended := fun p hp i o ho => by
      change (s.host.sessions ++ [_])[i]? = some o at ho
      rw [List.getElem?_append] at ho
      split at ho
      · exact h.ended p hp i o ho
      · cases List.mem_singleton.1 (List.mem_of_getElem? ho)
        rw [Link.asking_opened]
        exact List.not_mem_nil
    answered := fun ticket response r hmem hr hpush =>
      (h.answered ticket response r hmem hr hpush).imp_right
        (·.mono fun _ => hkeeps.hasClosed) }

end Books

end Server

end SafePreview
