import SafePreview.Web.Message

/-!
# Routes

A path leads to a route part by part, as it was sent: a slash too many or too few leads nowhere.
Each route is for one method; what can be got can also be asked for without its body.
-/

namespace SafePreview

/-- **What a path leads to.** -/
inductive Route where
  | status
  | asset
  | render
  | frame
  | sessions
  /-- A session, by the coded text of its id. -/
  | session (id : String)
  /-- The content of a session. -/
  | content (id : String)
  /-- Where sockets are opened. -/
  | socket
deriving DecidableEq, Repr

namespace Route

/-- The parts of a path between slashes. -/
def parts (path : String) : List String := (path.toList.splitOn '/').map String.ofList

/-- **The route that a path leads to.** -/
def ofPath? (path : String) : Option Route :=
  match parts path with
  | ["", "api", "status"] => some .status
  | ["", "api", "preview", "asset"] => some .asset
  | ["", "api", "preview", "render"] => some .render
  | ["", "api", "preview", "frame"] => some .frame
  | ["", "api", "preview", "session"] => some .socket
  | ["", "api", "preview", "sessions"] => some .sessions
  | ["", "api", "preview", "sessions", id] => if id.isEmpty then none else some (.session id)
  | ["", "api", "preview", "sessions", id, "content"] => some (.content id)
  | _ => none

/-- The method of a route. -/
def method : Route → Method
  | .status | .asset | .sessions | .socket => .get
  | .render | .frame | .content _ => .post
  | .session _ => .delete

/-- Whether a route takes a method. -/
def accepts (r : Route) (m : Method) : Bool := m = r.method || (m = .head && r.method = .get)

/-- The methods that a route takes, for those who used another. -/
def allowed (r : Route) : String :=
  match r.method with
  | .get => "GET,HEAD"
  | .delete => "DELETE"
  | _ => "POST"

end Route

end SafePreview
