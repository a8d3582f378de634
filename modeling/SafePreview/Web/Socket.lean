import SafePreview.Session.Id
import SafePreview.Session.Message

/-!
# Sockets

A socket carries frames both ways. What the server writes is a notice of the session's id, then the
messages of the host, and at the end that it closes; what it reads is up to the client. Both ways
are queues, and either side may stop before the other.
-/

namespace SafePreview

/-- **What the server writes to a socket.** -/
inductive Written where
  /-- The first frame: which session the socket belongs to. -/
  | notice (id : SessionId)
  | message (message : HostMessage)
  /-- The answer to a ping, with the bytes that it came with. -/
  | pong (bytes : ByteArray)
  | close

/-- The text of a frame, if it is one of text. -/
def Written.value? : Written → Option Json.Value
  | .notice id => some (.object [("type", .string "session"), ("sessionId", .string id.text)])
  | .message m => some m.toValue
  | .pong _ => none
  | .close => none

/-- **What a client writes to a socket.** -/
inductive ClientFrame where
  | text (content : String)
  | binary (bytes : ByteArray)
  | ping (bytes : ByteArray)
  | close

/-- **A socket**, as the server and the client hold it between them. -/
structure Socket where
  /-- Frames that the server has not read yet. -/
  incoming : List ClientFrame
  /-- Frames that the client has not read yet. -/
  outgoing : List Written
  /-- Whether the server still reads. -/
  reading : Bool
  /-- Whether the server still passes messages of the host on. -/
  writing : Bool
  /-- Whether the client is still there. -/
  connected : Bool

namespace Socket

/-- A socket on which nothing was written yet. -/
def opened : Socket := ⟨[], [], true, true, true⟩

/-- The server writes a frame; nobody gets it where the client is gone. -/
def write (s : Socket) (frame : Written) : Socket :=
  if s.connected then { s with outgoing := s.outgoing ++ [frame] } else s

/-- The client writes a frame; nobody gets it where the server no longer reads. -/
def receive (s : Socket) (frame : ClientFrame) : Socket :=
  if s.reading then { s with incoming := s.incoming ++ [frame] } else s

/-- **The client reads a frame.** -/
def take? (s : Socket) : Option (Written × Socket) :=
  match s.outgoing with
  | [] => none
  | frame :: rest => some (frame, { s with outgoing := rest })

/-- Whether the server is done with the socket. -/
def isEnded (s : Socket) : Bool := !s.reading && !s.writing

/-- The server is done with the socket. -/
def endNow (s : Socket) : Socket := { s with incoming := [], reading := false, writing := false }

/-- The client goes away. -/
def hangUp (s : Socket) : Socket := { s with outgoing := [], connected := false }

end Socket

end SafePreview
