import SafePreview.Asset.Fetch
import SafePreview.Session.Error

/-!
# What the web tells about errors

An error has words for the log and words for the caller. The second name the kind of error and never
a path, an id or a reason.
-/

namespace SafePreview

/-- **An error of a request.** -/
inductive WebError where
  | asset (cause : AssetError)
  | session (cause : SessionError)
deriving DecidableEq

namespace WebError

/-- The words for the log. -/
def message : WebError → String
  | .asset cause => cause.message
  | .session cause => cause.message

/-- **The status of the response.** -/
def status : WebError → Nat
  | .asset cause => cause.status
  | .session (.render _) => 422
  | .session (.notFound _) => 404
  | .session _ => 409

/-- **The words for the caller.** -/
def publicMessage : WebError → String
  | .asset cause => cause.publicMessage
  | .session (.render _) => "preview unavailable"
  | .session (.notFound _) => "session not found"
  | .session _ => "session closed"

/-- The error as JSON. -/
def toValue (e : WebError) : Json.Value := .object [("error", .string e.publicMessage)]

end WebError

end SafePreview
