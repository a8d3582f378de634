import SafePreview.Markup.Sanitize

/-!
# The frame

Safe markup is shown in a frame that can do nothing else: it is sandboxed, it may load assets from
one source only, and at most one script runs in it, which answers the host. The document is a fixed
text around the markup, so what is safe in the markup stays so in the document.

Whether the script may run is one of the `Limits` that a session is held to; the others are the time
that a context has to answer the handshake, and how much each channel of the session holds.
-/

namespace SafePreview

open Markup (SafeMarkup)

/-- **What every session is held to.** -/
structure Limits where
  /-- The time for the handshake, in milliseconds. -/
  handshakeTimeout : Nat
  /-- How many messages or commands a channel holds. -/
  mailboxCapacity : Nat
  /-- Whether the frame may run its script. -/
  allowScripts : Bool
deriving DecidableEq, Repr

namespace Limits

/-- Five seconds, sixty-four places and no script. -/
def standard : Limits := ⟨5000, 64, false⟩

/-- The limits with another time for the handshake. -/
def withHandshakeTimeout (l : Limits) (milliseconds : Nat) : Limits :=
  { l with handshakeTimeout := milliseconds }

/-- The limits with another capacity; a channel has at least one place. -/
def withMailboxCapacity (l : Limits) (capacity : Nat) : Limits :=
  { l with mailboxCapacity := max capacity 1 }

/-- The limits with the script allowed or not. -/
def withAllowScripts (l : Limits) (allow : Bool) : Limits := { l with allowScripts := allow }

/-- The time for the handshake in whole seconds and the milliseconds left over. -/
def timeoutParts (l : Limits) : Nat × Nat :=
  (l.handshakeTimeout / 1000, l.handshakeTimeout % 1000)

end Limits

/-- **What a frame may do.** -/
structure Frame where
  /-- Whether the script of the frame may run. -/
  allowScripts : Bool
  /-- Where assets may be loaded from, if from anywhere. -/
  assetSource : Option String
deriving DecidableEq, Repr

namespace Frame

/-- Where the assets of an origin are. -/
def assetPath : String := "/api/preview/asset"

/-- A frame that loads no assets. -/
def new (limits : Limits) : Frame := ⟨limits.allowScripts, none⟩

/-- A character of an origin; none of them ends a source, a directive or an attribute. -/
def isOriginChar (c : Char) : Bool :=
  Text.isLetter c || Text.isDigit c
    || c = ':' || c = '/' || c = '.' || c = '-' || c = '[' || c = ']'

/-- An origin without slashes at its end. -/
def trimOrigin (cs : List Char) : List Char := (cs.reverse.dropWhile (· = '/')).reverse

/-- **The frame that loads assets from an origin**, or from nowhere if it is none. -/
def withAssetOrigin (f : Frame) (origin : String) : Frame :=
  let cs := trimOrigin origin.toList
  let source :=
    if !cs.isEmpty && cs.all isOriginChar then some (String.ofList cs ++ assetPath) else none
  { f with assetSource := source }

/-- The attribute that lifts restrictions of the frame. -/
def sandboxAttribute (f : Frame) : String := if f.allowScripts then "allow-scripts" else ""

/-- Where assets may be loaded from, as a source of a security policy. -/
def assetToken (f : Frame) : String := f.assetSource.getD "'none'"

/-- What scripts may run, as a source of a security policy. -/
def scriptToken (f : Frame) : String := if f.allowScripts then "'unsafe-inline'" else "'none'"

/-- The directives of the security policy, each with its only source. -/
def directives (f : Frame) : List (String × String) :=
  [("default-src", "'none'"), ("img-src", f.assetToken), ("media-src", f.assetToken),
    ("font-src", f.assetToken), ("style-src", "'unsafe-inline'"), ("script-src", f.scriptToken),
    ("base-uri", "'none'"), ("form-action", "'none'")]

/-- **The security policy of the document.** -/
def securityPolicy (f : Frame) : String :=
  "; ".intercalate (f.directives.map fun d => d.1 ++ " " ++ d.2)

/-- The script that answers the host from inside the frame. -/
def bootstrap : String :=
  "(function () \x7b\n" ++
  "  var root = document.getElementById(\"preview-root\");\n" ++
  "  window.addEventListener(\"message\", function (event) \x7b\n" ++
  "    if (event.source !== window.parent) return;\n" ++
  "    var msg = event.data || \x7b\x7d;\n" ++
  "    if (msg.type === \"handshake\") \x7b\n" ++
  "      window.parent.postMessage(\x7b type: \"preview_ready\" \x7d, \"*\");\n" ++
  "    \x7d else if (msg.type === \"update_content\" && typeof msg.markup === \"string\") \x7b\n" ++
  "      root.innerHTML = msg.markup;\n" ++
  "      window.parent.postMessage(\x7b type: \"content_ack\", revision: msg.revision \x7d, \"*\");\n" ++
  "    \x7d\n" ++
  "  \x7d);\n" ++
  "\x7d)();"

/-- A text inside an attribute between double quotes. -/
def quoteAttribute (s : String) : String :=
  String.ofList (s.toList.flatMap fun c => if c = '"' then "&quot;".toList else [c])

/-- What stands in front of the markup. -/
def opening (f : Frame) : String :=
  "<!DOCTYPE html>\n<html>\n<head>\n<meta charset=\"utf-8\">\n" ++
  "<meta http-equiv=\"Content-Security-Policy\" content=\"" ++
  quoteAttribute f.securityPolicy ++
  "\">\n<meta name=\"referrer\" content=\"no-referrer\">\n</head>\n<body>\n" ++
  "<div id=\"preview-root\">\n"

/-- What stands behind the markup. -/
def closing (f : Frame) : String :=
  "\n</div>\n" ++ (if f.allowScripts then "<script>\n" ++ bootstrap ++ "\n</script>\n" else "") ++
  "</body>\n</html>\n"

/-- **The document of the frame.** -/
def document (f : Frame) (markup : SafeMarkup) : String := f.opening ++ markup.text ++ f.closing

end Frame

end SafePreview
