import SafePreview.Json.Writer
import SafePreview.Web.Address
import SafePreview.Web.Error
import SafePreview.Web.MediaType

/-!
# Requests and responses

Names of headers are the same in either case of letters. A request can be refused before it is
understood (`Refusal`): that says nothing of blocks, sessions or assets, and its words are plain
text. Every other error is a `WebError`, in JSON. Any page may read any response, so all of them say
that.
-/

namespace SafePreview

/-- **What a request wants done.** -/
inductive Method where
  | get
  | head
  | post
  | delete
  | options
  | other (name : String)
deriving DecidableEq, Repr

/-- The method with a name; case counts. -/
def Method.ofName : String → Method
  | "GET" => .get
  | "HEAD" => .head
  | "POST" => .post
  | "DELETE" => .delete
  | "OPTIONS" => .options
  | name => .other name

/-- **A request.** -/
structure Request where
  method : Method
  address : Address
  headers : List (String × String)
  body : String

/-- The first header with a name, which is given in lower case. -/
def Request.header? (r : Request) (name : String) : Option String :=
  (r.headers.find? (Text.lower ·.1 = name)).map (·.2)

/-- **What a response carries.** -/
inductive Body where
  | empty
  | json (value : Json.Value)
  | text (text : String)
  | bytes (bytes : ByteArray)

/-- **A response.** -/
structure Response where
  status : Nat
  headers : List (String × String)
  body : Body

/-- **Why a request is not understood.** -/
inductive Refusal where
  /-- A part of the path is no text. -/
  | badPath
  | badQuery
  | notJsonType
  | bodyTooLarge
  | malformedBody
  | wrongShape
  /-- The request is none to open a socket. -/
  | noUpgrade
  /-- A socket is opened by getting it. -/
  | notGet
  /-- The connection cannot become a socket. -/
  | fixedConnection
deriving DecidableEq, Repr

namespace Refusal

/-- The status of the response. -/
def status : Refusal → Nat
  | .badPath | .badQuery | .malformedBody | .noUpgrade => 400
  | .notGet => 405
  | .bodyTooLarge => 413
  | .notJsonType => 415
  | .wrongShape => 422
  | .fixedConnection => 426

/-- The words for the caller. -/
def message : Refusal → String
  | .badPath => "the path is not valid text"
  | .badQuery => "the query lacks a field or repeats it"
  | .notJsonType => "the body must be of a JSON type"
  | .bodyTooLarge => "the body is too large"
  | .malformedBody => "the body is not JSON"
  | .wrongShape => "the body has another shape"
  | .noUpgrade => "the request does not ask for a socket"
  | .notGet => "the method must be GET"
  | .fixedConnection => "the connection cannot become a socket"

end Refusal

namespace Response

/-- A response in JSON. -/
def json (status : Nat) (value : Json.Value) : Response :=
  ⟨status, [("content-type", "application/json")], .json value⟩

/-- The response to a request that is not understood. -/
def refusal (r : Refusal) : Response :=
  ⟨r.status, [("content-type", "text/plain; charset=utf-8")], .text r.message⟩

/-- **The response for an error.** -/
def error (e : WebError) : Response := json e.status e.toValue

/-- The response where there is nothing. -/
def missing : Response := ⟨404, [], .empty⟩

/-- The response to a method that is not among those allowed. -/
def notAllowed (allowed : String) : Response := ⟨405, [("allow", allowed)], .empty⟩

/-- What pages of other origins may ask for. -/
def permissions : Response :=
  ⟨200,
    [("access-control-allow-methods", "GET,POST,DELETE"), ("access-control-allow-headers", "*")],
    .empty⟩

/-- The response with one more header. -/
def withHeader (r : Response) (name value : String) : Response :=
  { r with headers := r.headers ++ [(name, value)] }

/-- The response to one who wants the headers alone. -/
def withoutBody (r : Response) : Response := { r with body := .empty }

/-- The response, open to pages of any origin. -/
def shared (r : Response) : Response := r.withHeader "access-control-allow-origin" "*"

/-- The value of a header. -/
def header? (r : Response) (name : String) : Option String :=
  (r.headers.find? (·.1 = name)).map (·.2)

end Response

end SafePreview
