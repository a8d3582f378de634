import SafePreview.Json.Shape
import SafePreview.Markup.NameSet

/-!
# Policies

A policy lists the tags and the attributes that may stay, and those that may not; the second lists
win. Above every policy stand the fixed lists `strippedTags` and `strippedAttributes` and all
attributes that start with `on`: these can run or load something, and no list lets them in.
-/

namespace SafePreview.Markup

/-- Tags that no policy lets in. -/
def strippedTags : List String :=
  ["script", "style", "iframe", "frame", "frameset", "object", "embed", "applet", "base",
    "link", "meta", "template", "noscript", "noembed", "noframes", "svg", "math", "form",
    "input", "button", "select", "option", "textarea", "title", "xmp", "plaintext", "portal",
    "slot"]

/-- Attributes that no policy lets in, beside all that start with `on`. -/
def strippedAttributes : List String :=
  ["srcdoc", "srcset", "formaction", "action", "ping", "xmlns", "is", "autofocus"]

/-- **What may stay in markup.** -/
structure Policy where
  allowedTags : NameSet
  allowedAttributes : NameSet
  deniedTags : NameSet
  deniedAttributes : NameSet
deriving DecidableEq

namespace Policy

/-- The policy that keeps text alone. -/
def empty : Policy := ⟨.empty, .empty, .empty, .empty⟩

/-- The policy with more tags allowed. -/
def allowTags (policy : Policy) (names : List String) : Policy :=
  { policy with allowedTags := policy.allowedTags.insertAll names }

/-- The policy with more attributes allowed. -/
def allowAttributes (policy : Policy) (names : List String) : Policy :=
  { policy with allowedAttributes := policy.allowedAttributes.insertAll names }

/-- The policy with more tags denied. -/
def denyTags (policy : Policy) (names : List String) : Policy :=
  { policy with deniedTags := policy.deniedTags.insertAll names }

/-- The policy with more attributes denied. -/
def denyAttributes (policy : Policy) (names : List String) : Policy :=
  { policy with deniedAttributes := policy.deniedAttributes.insertAll names }

/-- Tags that are denied to begin with. -/
def usualDeniedTags : List String := ["script", "style", "iframe", "object", "embed"]

/-- Attributes that are denied to begin with. -/
def usualDeniedAttributes : List String := ["onerror", "onload", "srcdoc"]

/-- **The policy of the preview**: what blocks are shown with, and common formatting of text. -/
def preview : Policy :=
  empty
    |>.allowTags ["p", "div", "span", "strong", "em", "b", "i", "u", "a", "h1", "h2", "h3", "h4",
      "h5", "h6", "img", "br", "hr", "ul", "ol", "li", "blockquote", "code", "pre"]
    |>.allowAttributes ["href", "src", "alt", "title", "style", "class"]
    |>.denyTags usualDeniedTags
    |>.denyAttributes usualDeniedAttributes

/-- **The policy for text alone**: no links, no images and no styles. -/
def strict : Policy :=
  empty
    |>.allowTags ["p", "span", "strong", "em", "b", "i", "u", "h1", "h2", "h3", "h4", "h5", "h6",
      "br", "ul", "ol", "li", "blockquote"]
    |>.allowAttributes ["title"]
    |>.denyTags usualDeniedTags
    |>.denyAttributes usualDeniedAttributes

/-- **Whether a tag may stay.** -/
def permitsTag (policy : Policy) (name : String) : Bool :=
  !strippedTags.contains name && !policy.deniedTags.contains name
    && policy.allowedTags.contains name

/-- Whether a name starts with `on`, as the names of event handlers do. -/
def isHandler (name : String) : Bool := ['o', 'n'].isPrefixOf name.toList

/-- **Whether an attribute may stay**, whatever its value. -/
def permitsAttribute (policy : Policy) (name : String) : Bool :=
  !isHandler name && !strippedAttributes.contains name
    && !policy.deniedAttributes.contains name && policy.allowedAttributes.contains name

/-! ## Written policies -/

/-- The four lists of a written policy. -/
structure Lists where
  allowedTags : List String
  allowedAttributes : List String
  deniedTags : List String
  deniedAttributes : List String
deriving DecidableEq, Repr

/-- The lists of a policy. -/
def lists (policy : Policy) : Lists :=
  ⟨policy.allowedTags.names, policy.allowedAttributes.names, policy.deniedTags.names,
    policy.deniedAttributes.names⟩

/-- The policy with the given lists. -/
def ofLists (lists : Lists) : Policy :=
  empty.allowTags lists.allowedTags |>.allowAttributes lists.allowedAttributes
    |>.denyTags lists.deniedTags |>.denyAttributes lists.deniedAttributes

/-- The shape of written lists; one that is left out is empty. -/
def Lists.record : Json.Record Lists :=
  let names (key : String) : Json.Record (List String) := .optional key (.list .string) []
  ((((Json.Record.pure Lists.mk).seq (names "allowed_tags")).seq
    (names "allowed_attributes")).seq (names "denied_tags")).seq (names "denied_attributes")

/-- **A policy from JSON.** -/
def shape : Json.Shape Policy := fun t => (Lists.record.shape "struct PolicyLists" t).map ofLists

/-- **A policy as JSON.** -/
def toValue (policy : Policy) : Json.Value :=
  let names (list : List String) : Json.Value := .ofList .string list
  .object [("allowed_attributes", names policy.allowedAttributes.names),
    ("allowed_tags", names policy.allowedTags.names),
    ("denied_attributes", names policy.deniedAttributes.names),
    ("denied_tags", names policy.deniedTags.names)]

end Policy

end SafePreview.Markup
