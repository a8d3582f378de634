import SafePreview.Preview.Frame
import SafePreview.Preview.Request
import SafePreview.Session.Host
import SafePreview.Settings.Basic
import SafePreview.Web.Route
import SafePreview.Web.Socket

/-!
# The server

A server answers requests and keeps a socket for each session. Most requests are answered from what
the server is at that moment. Two kinds have to do with a session: one that pushes a content, and
one that closes the session. They are kept under a ticket of their own, first when they have found
their session and then until the session has answered, and no two requests ever have the same
ticket, so no answer can reach another request.

`Server.step` does one thing out of all that can happen at a server, in the smallest pieces that
others can come between: a session that a request has found may be closed, or taken out of the
register, before the request asks anything of it, and whoever made the request may go away. What can
be seen of a step are the responses given and the frames put on sockets.
A context's messages go into its session one by one: as long as one of them has found no room, the
server reads no further frame of that socket.
-/

namespace SafePreview

/-- **What a request wants of the session that it has found.** -/
inductive Wish where
  /-- That it takes a content, which is still to be rendered. The id is the one asked for. -/
  | content (id : SessionId) (wanted : PreviewRequest)
  /-- That it closes. -/
  | closing

/-- **A request that has found its session**, the one with a number, and asked nothing of it yet. -/
structure Found where
  ticket : Nat
  session : Nat
  wish : Wish

/-- **What a request waits for.** -/
inductive Errand where
  /-- That a session takes a content, which was made for this request. -/
  | content (id : SessionId) (preview : Preview)
  /-- That a session closes. -/
  | closing

/-- **A request that waits** for the session with a number. -/
structure Awaited where
  ticket : Nat
  session : Nat
  errand : Errand

/-- **The sweeps of closed sessions**: how far they are apart, when the next one is due, and when
that was settled. All times are in milliseconds. -/
structure Sweep where
  period : Nat
  next : Nat
  since : Nat
deriving DecidableEq, Repr

/-- How many sweeps are due at a time. -/
def Sweep.due (sweep : Sweep) (clock : Nat) : Nat :=
  if sweep.next ≤ clock then (clock - sweep.next) / sweep.period + 1 else 0

variable [Channels] [ParentOrder]

/-- **A server.** -/
structure Server where
  settings : ServerSettings
  policy : Markup.Policy
  files : Files
  assetRoot : String
  host : Host
  /-- The sockets of all sessions, in the order of their opening. -/
  sockets : List Socket
  /-- When the keeper of each session last took a turn. -/
  turned : List Nat
  found : List Found
  awaited : List Awaited
  /-- How many requests there were. -/
  requests : Nat
  sweep : Option Sweep

/-- **What can be seen of a server.** -/
inductive Reaction where
  | responded (ticket : Nat) (response : Response)
  /-- A frame was put on the socket of a session. -/
  | wrote (session : Nat) (frame : Written)

namespace Server

/-- A server to which nothing happened yet. -/
def new (settings : ServerSettings) (limits : Limits) (policy : Markup.Policy) (files : Files)
    (assetRoot : String) : Server where
  settings := settings
  policy := policy
  files := files
  assetRoot := assetRoot
  host := .new limits
  sockets := []
  turned := []
  found := []
  awaited := []
  requests := 0
  sweep := none

/-- The server with its sweeps begun, if it has any. -/
def withSweeps (s : Server) : Server :=
  let period := s.settings.pruneInterval * 1000
  { s with sweep :=
      if period = 0 then none else some ⟨period, s.host.clock + period, s.host.clock⟩ }

/-! ## Requests -/

/-- The most bytes that a body may have. -/
def bodyLimit : Nat := 2 * 1024 * 1024

/-- **The preview that a body asks for.** -/
def readBody (r : Request) : Except Refusal PreviewRequest :=
  if !((r.header? "content-type").bind MediaType.ofString?).any (·.isJson) then
    .error .notJsonType
  else if bodyLimit < r.body.utf8ByteSize then .error .bodyTooLarge
  else
    match PreviewRequest.shape.ofText r.body with
    | .ok wanted => .ok wanted
    | .error (.fault _) => .error .malformedBody
    | .error (.mismatch _) => .error .wrongShape

/-- The state of the server. -/
def statusResponse (s : Server) : Response :=
  .json 200 (.object [("status", .string "ok"), ("version", .string version),
    ("live_sessions", .ofNat s.host.liveCount)])

/-- A session in the list of sessions, but for the time of day at which it was opened. -/
def infoValue (info : SessionInfo) : Json.Value :=
  .object [("id", .string info.id.text), ("state", .string info.status.phase.text),
    ("closeReason", .ofOption .string (info.status.closeReason.map (·.text))),
    ("lastAcknowledged", .ofOption .ofNat info.status.acknowledged)]

/-- **An asset**, by the one field of the query that names it. -/
def assetResponse (s : Server) (r : Request) : Response :=
  match r.address.field? "assetPath" with
  | none => .refusal .badQuery
  | some key =>
    match s.files.fetch s.assetRoot key with
    | .ok asset => ⟨200, asset.headers, .bytes asset.bytes⟩
    | .error e => .error (.asset e)

/-- The preview of a request, or the response that says why there is none. -/
def preview (s : Server) (r : Request) : Except Response Preview :=
  match readBody r with
  | .error refusal => .error (.refusal refusal)
  | .ok wanted =>
    match wanted.render s.policy with
    | .ok preview => .ok preview
    | .error e => .error (.error (.session (.render e)))

/-- A preview in JSON. -/
def renderResponse (s : Server) (r : Request) : Response :=
  match s.preview r with
  | .ok preview => .json 200 preview.toValue
  | .error response => response

/-- **The frame for a request**: assets come from the origin in the settings, or else from the host
that the request names. -/
def frameFor (s : Server) (r : Request) : Frame :=
  let frame := Frame.new s.host.limits
  match s.settings.publicOrigin, r.header? "host" with
  | some origin, _ => frame.withAssetOrigin origin
  | none, some host => frame.withAssetOrigin ("http://" ++ host)
  | none, none => frame

/-- The document of a frame around a preview. -/
def frameResponse (s : Server) (r : Request) : Response :=
  match s.preview r with
  | .ok preview =>
    let frame := s.frameFor r
    ⟨200, [("content-type", "text/html; charset=utf-8"), ("x-content-type-options", "nosniff"),
      ("x-frame-sandbox", frame.sandboxAttribute)], .text (frame.document preview.markup)⟩
  | .error response => response

/-- Why a request opens no socket: sockets come by a connection of their own. -/
def socketRefusal (r : Request) : Refusal :=
  let states (name value : String) : Bool := (r.header? name).any (Text.lower · = value)
  let upgrades := (r.header? "connection").any fun value =>
    Text.hasInfix "upgrade".toList (Text.lower value).toList
  if r.method ≠ .get then .notGet
  else if upgrades && states "upgrade" "websocket" && (r.header? "sec-websocket-key").isSome
      && states "sec-websocket-version" "13" then .fixedConnection
  else .noUpgrade

/-- The id in a path. -/
def readId (coded : String) : Except Refusal String :=
  match Text.percentDecode? coded with
  | some id => .ok id
  | none => .error .badPath

/-- The registered session with an id: its id and number. -/
def findSession (s : Server) (id : String) : Except SessionError (SessionId × Nat) := do
  let found ← SessionId.ofString id
  match s.host.find? found with
  | some index => return (found, index)
  | none => throw (.notFound id)

/-- What a request pushes, and the registered session that it pushes it into. -/
def pushed (s : Server) (coded : String) (r : Request) :
    Except Response (SessionId × Nat × PreviewRequest) :=
  match readId coded, readBody r with
  | .error refusal, _ | .ok _, .error refusal => .error (.refusal refusal)
  | .ok id, .ok wanted =>
    match s.findSession id with
    | .error e => .error (.error (.session e))
    | .ok (id, index) => .ok (id, index, wanted)

/-- The response for an errand that a session answered. -/
def Errand.response : Errand → Answer → Response
  | .content id preview, .receipt receipt =>
    .json 200 (.object [("sessionId", .string id.text), ("receipt", receipt.toValue),
      ("mapping", preview.map.toValue)])
  | .content _ _, _ => .error (.session .closed)
  | .closing, _ => .json 200 (.object [("closed", .bool true)])

/-! ## Answers of sessions -/

/-- Who asks a session on behalf of a request. Contexts ask as number 0, and requests never do. -/
def callerOf (ticket : Nat) : Nat := ticket + 1

/-- **Gives the response that an effect brings**, if a request waits for it. -/
def conclude (s : Server) : Effect → Server × List Reaction
  | .answered caller answer =>
    match s.awaited.find? (callerOf ·.ticket = caller) with
    | some awaited =>
      ({ s with awaited := s.awaited.eraseP (callerOf ·.ticket = caller) },
        [.responded awaited.ticket (Errand.response awaited.errand answer).shared])
    | none => (s, [])
  | _ => (s, [])

/-- Gives the responses that effects bring. -/
def concludeAll (s : Server) : List Effect → Server × List Reaction
  | [] => (s, [])
  | e :: rest =>
    let first := s.conclude e
    let more := first.1.concludeAll rest
    (more.1, first.2 ++ more.2)

/-- The server with a socket changed. -/
def setSocket (s : Server) (index : Nat) (f : Socket → Socket) : Server :=
  { s with sockets := s.sockets.modify index f }

/-- The server is done with a socket: the session's context is gone. -/
def release (s : Server) (index : Nat) : Server :=
  { s.setSocket index Socket.endNow with host := (s.host.actAll index [.silence, .deafen]).1 }

/-- Whether a session refused a message of its context. -/
def refusesContext (effects : List Effect) : Bool :=
  effects.any fun
    | .answered 0 .refused => true
    | _ => false

/-- **An event of one session**, with the responses that it brings. A session that takes no more
messages has no more use for its socket. -/
def act (s : Server) (index : Nat) (e : Link.Event) : Server × List Reaction :=
  let acted := s.host.act index e
  let answered := { s with host := acted.1 }.concludeAll acted.2
  (if refusesContext acted.2 then answered.1.release index else answered.1, answered.2)

/-- Two things after each other. -/
def andThen (first : Server × List Reaction) (next : Server → Server × List Reaction) :
    Server × List Reaction :=
  let more := next first.1
  (more.1, first.2 ++ more.2)

/-- A request waits for a session, of which something is asked. -/
def await (s : Server) (awaited : Awaited) (e : Link.Event) : Server × List Reaction :=
  { s with awaited := s.awaited ++ [awaited] }.act awaited.session e

/-! ## Things that happen -/

/-- **A request arrives.** A content to be pushed is only looked at here (`post` brings it in). -/
def arrive (s : Server) (r : Request) : Server × List Reaction :=
  let ticket := s.requests
  let s := { s with requests := ticket + 1 }
  let now (response : Response) : Server × List Reaction :=
    let response := if r.method = .head then response.withoutBody else response
    (s, [.responded ticket response.shared])
  match Route.ofPath? r.address.path with
  | none => now (if r.method = .options then .permissions else .missing)
  | some route =>
    if r.method = .options then now (Response.permissions.withHeader "allow" route.allowed)
    else if !route.accepts r.method then now (.notAllowed route.allowed)
    else
      match route with
      | .status => now s.statusResponse
      | .asset => now (s.assetResponse r)
      | .render => now (s.renderResponse r)
      | .frame => now (s.frameResponse r)
      | .sessions => now (.json 200 (.ofList infoValue s.host.list))
      | .socket => now (.refusal (socketRefusal r))
      | .content coded =>
        match s.pushed coded r with
        | .error response => now response
        | .ok (id, index, wanted) =>
          ({ s with found := s.found ++ [⟨ticket, index, .content id wanted⟩] }, [])
      | .session coded =>
        match readId coded with
        | .error refusal => now (.refusal refusal)
        | .ok text =>
          match (SessionId.ofString text).bind s.host.unregister with
          | .error e => now (.error (.session e))
          | .ok (index, host) =>
            ({ s with host, found := s.found ++ [⟨ticket, index, .closing⟩] }, [])

/-- **A request goes on with the session that it has found**: a push is rendered and looks whether
the session is open, and one that closes the session asks it to. -/
def proceed (s : Server) (ticket : Nat) : Server × List Reaction :=
  match s.found.find? (·.ticket = ticket) with
  | none => (s, [])
  | some found =>
    let s := { s with found := s.found.eraseP (·.ticket = ticket) }
    match found.wish with
    | .closing => s.await ⟨ticket, found.session, .closing⟩ (.close (callerOf ticket))
    | .content id wanted =>
      match wanted.render s.policy with
      | .error e => (s, [.responded ticket (Response.error (.session (.render e))).shared])
      | .ok preview =>
        s.await ⟨ticket, found.session, .content id preview⟩
          (.call (callerOf ticket) preview.markup)

/-- A push that found its session open brings its content in. -/
def post (s : Server) (ticket : Nat) : Server × List Reaction :=
  match s.awaited.find? (·.ticket = ticket) with
  | some awaited => s.act awaited.session (.post (callerOf ticket))
  | none => (s, [])

/-- **Whoever made a request goes away** before it is answered. What the request has not asked of
its session yet is never asked. What is in the channel already is obeyed like anything else, and
nobody hears the answer. -/
def vanish (s : Server) (ticket : Nat) : Server × List Reaction :=
  match s.awaited.find? (·.ticket = ticket) with
  | some awaited =>
    { s with awaited := s.awaited.eraseP (·.ticket = ticket) }.act awaited.session
      (.vanish (callerOf ticket))
  | none => ({ s with found := s.found.eraseP (·.ticket = ticket) }, [])

/-- Puts a frame on the socket of a session, if there is someone to read it. -/
def write (s : Server) (index : Nat) (frame : Written) : Server × List Reaction :=
  if (s.sockets[index]?).any (·.connected) then
    (s.setSocket index (·.write frame), [.wrote index frame])
  else (s, [])

/-- **A socket is opened**, and with it a session. -/
def connect (s : Server) (id : SessionId) : Server × List Reaction :=
  let index := s.host.sessions.length
  { s with
    host := s.host.openSession id
    sockets := s.sockets ++ [Socket.opened]
    turned := s.turned ++ [s.host.clock] }.write index (.notice id)

/-- A socket is opened whose client is gone before the first frame: its session is closed at
once. -/
def connectInVain (s : Server) (id : SessionId) : Server × List Reaction :=
  let index := s.host.sessions.length
  let closed := { s with
    host := s.host.openSession id
    sockets := s.sockets ++ [Socket.opened.hangUp]
    turned := s.turned ++ [s.host.clock] }.act index (.close 0)
  (closed.1.release index, closed.2)

/-- The server stops to write to a socket. -/
def stopWriting (s : Server) (index : Nat) : Server :=
  { s.setSocket index ({ · with writing := false }) with host := (s.host.act index .deafen).1 }

/-- Whether the session has no room yet for a message that was read. -/
def isHeld (o : Opened) : Bool := !o.link.inbound.waiting.isEmpty

/-- Whether the server can read from a socket, or find that there is nothing more to read. -/
def canHear (socket : Socket) (o : Opened) : Bool :=
  socket.reading && !isHeld o && (!socket.incoming.isEmpty || !socket.connected)

/-- Whether the server can find that it will write no more. -/
def canLeave (socket : Socket) (o : Opened) : Bool :=
  socket.reading && !isHeld o && !socket.writing

/-- Whether the server can write to a socket, or find that there is nothing more to write. -/
def canForward (socket : Socket) (o : Opened) : Bool :=
  socket.writing && (!o.link.outbound.isEmpty || o.link.stopped)

/-- **The server reads a frame.** A text that is no message is passed over, as are bytes. -/
def hearFrame (s : Server) (index : Nat) : ClientFrame → Server × List Reaction
  | .close => (s.release index, [])
  | .binary _ => (s, [])
  | .ping bytes => s.write index (.pong bytes)
  | .text content =>
    match ContextMessage.shape.ofText content with
    | .ok message => s.act index (.send 0 message)
    | .error _ => (s, [])

/-- The server reads from a socket. -/
def hear (s : Server) (index : Nat) : Server × List Reaction :=
  match s.sockets[index]?, s.host.session? index with
  | some socket, some o =>
    if canHear socket o then
      match socket.incoming with
      | frame :: rest => (s.setSocket index ({ · with incoming := rest })).hearFrame index frame
      | [] => (s.release index, [])
    else (s, [])
  | _, _ => (s, [])

/-- The server stops to read where it will write no more. -/
def leave (s : Server) (index : Nat) : Server :=
  match s.sockets[index]?, s.host.session? index with
  | some socket, some o => if canLeave socket o then s.release index else s
  | _, _ => s

/-- **The server passes a message of the host on**, or closes the socket behind the last one. -/
def forward (s : Server) (index : Nat) : Server × List Reaction :=
  match s.sockets[index]?, s.host.session? index with
  | some socket, some o =>
    if canForward socket o then
      match o.link.outbound with
      | message :: _ =>
        if socket.connected then
          andThen (s.act index .read) (·.write index (.message message))
        else (s.stopWriting index, [])
      | [] =>
        let closed := s.write index .close
        (closed.1.stopWriting index, closed.2)
    else (s, [])
  | _, _ => (s, [])

/-- The keeper of a session takes a turn. -/
def turn (s : Server) (index : Nat) : Server × List Reaction :=
  if (s.host.session? index).any (·.link.turn?.isSome) then
    { s with turned := s.turned.set index s.host.clock }.act index .turn
  else (s, [])

/-- **Sweeps**, as many as are due and `most` at the most: closed sessions leave the register. -/
def sweepUp (s : Server) (most : Nat) : Server :=
  match s.sweep with
  | some sweep =>
    let times := min most (sweep.due s.host.clock)
    if times = 0 then s
    else
      { s with
        host := s.host.prune.2
        sweep := some { sweep with
          next := sweep.next + times * sweep.period
          since := s.host.clock } }
  | none => s

/-- **What can happen at a server.** No session is let go of here: who serves its socket holds it to
the end, and then its context is gone first. -/
inductive Event where
  | arrive (request : Request)
  | proceed (ticket : Nat)
  | post (ticket : Nat)
  /-- Whoever made a request goes away. -/
  | vanish (ticket : Nat)
  | connect (id : SessionId)
  | connectInVain (id : SessionId)
  /-- A client writes a frame. -/
  | speak (session : Nat) (frame : ClientFrame)
  /-- A client reads a frame. -/
  | take (session : Nat)
  /-- A client goes away. -/
  | hangUp (session : Nat)
  | hear (session : Nat)
  | leave (session : Nat)
  | forward (session : Nat)
  /-- The keeper of a session takes a turn. -/
  | turn (session : Nat)
  /-- The first in line for commands of a session gets in. -/
  | admitCommand (session : Nat)
  /-- The first in line for messages of a session gets in. -/
  | admitMessage (session : Nat)
  | elapse (milliseconds : Nat)
  | sweep (most : Nat)

/-- **One event.** An event that cannot happen changes nothing. -/
def step (s : Server) : Event → Server × List Reaction
  | .arrive request => s.arrive request
  | .proceed ticket => s.proceed ticket
  | .post ticket => s.post ticket
  | .vanish ticket => s.vanish ticket
  | .connect id => s.connect id
  | .connectInVain id => s.connectInVain id
  | .speak index frame => (s.setSocket index (·.receive frame), [])
  | .take index => (s.setSocket index fun socket => (socket.take?.map (·.2)).getD socket, [])
  | .hangUp index => (s.setSocket index Socket.hangUp, [])
  | .hear index => s.hear index
  | .leave index => (s.leave index, [])
  | .forward index => s.forward index
  | .turn index => s.turn index
  | .admitCommand index => s.act index .admitCommand
  | .admitMessage index => s.act index .admitMessage
  | .elapse ms => ({ s with host := s.host.elapse ms }, [])
  | .sweep most => (s.sweepUp most, [])

/-- **A run**: events in order, and all that could be seen of them. -/
def run (s : Server) : List Event → Server × List Reaction
  | [] => (s, [])
  | e :: rest => andThen (s.step e) (·.run rest)

end Server

end SafePreview
