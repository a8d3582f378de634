import SafePreview.Web.Server

/-!
# One order of events

A server left to itself does what it can do, session by session in the order of opening, until
nothing can happen at the current time. That is one of the orders in which its events can come, and
everything here is a run of them (`Server.run`).

When time passes, what falls due first happens first: a handshake that runs out before a sweep is
due is over when the sweep comes, and one that runs out later is not, even if the server comes round
to all of them at once. A server that is late makes up for many sweeps in one go, and then lets
others come before the rest.
-/

namespace SafePreview

variable [Channels] [ParentOrder]

namespace Server

/-- What the first request that has found its session, or found it open, has to do next. -/
def nextRequest? (s : Server) : Option Event :=
  match s.found with
  | found :: _ => some (.proceed found.ticket)
  | [] =>
    (s.awaited.find? fun awaited =>
      (s.host.session? awaited.session).any fun o =>
        o.link.calls.any (·.1 = callerOf awaited.ticket)).map fun awaited => .post awaited.ticket

/-- What can happen next at one session. -/
def nextAt? (s : Server) (index : Nat) : Option Event :=
  match s.sockets[index]?, s.host.session? index with
  | some socket, some o =>
    if o.link.turn?.isSome then some (.turn index)
    else if o.link.admitMessage?.isSome then some (.admitMessage index)
    else if o.link.admitCommand?.isSome then some (.admitCommand index)
    else if canForward socket o then some (.forward index)
    else if canLeave socket o then some (.leave index)
    else if canHear socket o then some (.hear index)
    else none
  | _, _ => none

/-- **What can happen next**, at the sessions that count. -/
def next? (counts : Nat → Bool) (s : Server) : Option Event :=
  match s.nextRequest? with
  | some e => some e
  | none => ((List.range s.host.sessions.length).filter counts).findSome? s.nextAt?

/-- An upper bound on what can happen at a session: a frame is read, let in and heard, a command is
posted, let in and obeyed, a message is handed over and passed on, and a few things happen once. -/
def workloadOf (o : Opened) : Nat :=
  4 * o.link.workload + 6 * o.link.calls.length + 2 * o.link.outbound.length + 12

/-- An upper bound on what can happen at the current time. A request that has found its session goes
on, and what it asks is posted, let in and obeyed. -/
def workload (s : Server) : Nat :=
  s.host.sessions.foldr (fun o n => workloadOf o + n) 0
    + s.sockets.foldr (fun socket n => 6 * socket.incoming.length + 6 + n) 0
    + 10 * s.found.length

/-- Lets events happen, up to `n`. -/
def settleWithin (counts : Nat → Bool) : Nat → Server → Server × List Reaction
  | 0, s => (s, [])
  | n + 1, s =>
    match s.next? counts with
    | some e => andThen (s.step e) (settleWithin counts n)
    | none => (s, [])

/-- Lets happen all that can happen at the sessions that count. -/
def settleAmong (counts : Nat → Bool) (s : Server) : Server × List Reaction :=
  settleWithin counts s.workload s

/-- **Lets happen all that can happen at the current time.** -/
def settle (s : Server) : Server × List Reaction := s.settleAmong fun _ => true

/-- **One event and all that follows from it** at the current time. -/
def perform (s : Server) (e : Event) : Server × List Reaction := andThen (s.step e) settle

/-- **Answers a request**, if it can be answered at the current time. -/
def respond (s : Server) (r : Request) : Option Response × Server :=
  let done := s.perform (.arrive r)
  (done.2.findSome? fun
    | .responded ticket response => if ticket = s.requests then some response else none
    | _ => none, done.1)

/-- **The frame that a client reads next**, if there is one. -/
def read? (s : Server) (index : Nat) : Option Written × Server :=
  (((s.sockets[index]?).bind Socket.take?).map (·.1), (s.perform (.take index)).1)

/-! ## Time -/

/-- Whether the handshake of a session runs out before the next sweep. Of two at the same time, the
one comes first that was settled first: a keeper looks at its deadline anew with each of its
turns. -/
def runsOutBefore (s : Server) (sweep : Sweep) (index : Nat) : Bool :=
  match s.host.session? index, s.turned[index]? with
  | some o, some turned =>
    o.link.deadline < sweep.next || (o.link.deadline = sweep.next && turned < sweep.since)
  | _, _ => false

/-- How many sweeps a late server makes up for in one go. -/
def burst : Nat := 128

/-- **Lets time pass**, and all happen that falls due. -/
def advance (s : Server) (milliseconds : Nat) : Server × List Reaction :=
  let later := s.step (.elapse milliseconds)
  match s.sweep with
  | none => andThen later settle
  | some sweep =>
    let due := sweep.due later.1.host.clock
    if due = 0 then andThen later settle
    else
      let early := andThen later (settleAmong (s.runsOutBefore sweep))
      let swept := andThen (andThen early (·.step (.sweep burst))) settle
      andThen swept (·.step (.sweep due))

end Server

end SafePreview
