import SafePreview.Markup.Safety

/-!
# Sanitised markup

`Writer` writes tokens back as markup, in one canonical form: only tags that it writes itself can
stand in its output, each is closed where it has to be, and every other character is text. Its state
is the list of open elements and, inside an element that was taken out, the name of that element
with the number of its own kind still open. What a token writes depends on nothing else, so the
output of a stream is a concatenation (`Writer.run`).

A line feed is never lost. Where an element, an attribute or a text is taken out, the line feeds of
its text and of its values are written in its place, so a line of the output is a line of the input.
-/

namespace SafePreview.Markup

/-- How many elements may be open at once. Tags that open more are taken out, their text is not. -/
def depthLimit : Nat := 512

/-- **What was taken out.** -/
structure Report where
  /-- Start tags, among them those inside an element that was taken out. -/
  removedElements : Nat
  /-- Attributes of tags that stayed. -/
  removedAttributes : Nat
  /-- Whether any of it was there to run something. -/
  scriptLike : Bool
deriving DecidableEq, Repr

namespace Report

/-- Nothing was taken out. -/
def clean : Report := ⟨0, 0, false⟩

/-- Whether nothing was taken out. -/
def isClean (report : Report) : Bool :=
  report.removedElements = 0 && report.removedAttributes = 0

/-- One more start tag taken out. -/
def removeElement (report : Report) (name : List Char) : Report :=
  { report with
    removedElements := report.removedElements + 1
    scriptLike := report.scriptLike || isStripped name }

/-- One more attribute taken out. -/
def removeAttribute (report : Report) (verdict : Verdict) : Report :=
  { report with
    removedAttributes := report.removedAttributes + 1
    scriptLike := report.scriptLike || verdict.isScriptLike }

end Report

/-- As many line feeds. -/
def lineFeeds (n : Nat) : List Char := List.replicate n '\n'

/-- How many line feeds the values of attributes hold. -/
def attributeNewlines (attributes : List Attribute) : Nat :=
  attributes.foldr (fun a n => Text.newlines a.value + n) 0

/-- An attribute as it is written. -/
def writeAttribute (a : Attribute) : List Char :=
  ' ' :: a.name ++ ['=', '"'] ++ escapeValue a.value ++ ['"']

/-- An end tag as it is written. -/
def writeEnd (name : List Char) : List Char := ['<', '/'] ++ name ++ ['>']

/-- **An element that is being taken out**, and how many of its name are open inside it. -/
structure Skip where
  name : List Char
  depth : Nat
deriving DecidableEq, Repr

namespace Writer

/-- **Where the writer stands**: the open elements, the innermost first, the element that is being
taken out, and the account so far. -/
structure State where
  opened : List (List Char)
  skip : Option Skip
  report : Report
deriving DecidableEq, Repr

/-- Nothing is open and nothing was taken out. -/
def State.initial : State := ⟨[], none, .clean⟩

/-- What the attributes of a tag come to. -/
structure Attributes where
  written : List Char
  droppedNewlines : Nat
  report : Report

/-- **Writes the attributes of a tag.** Of several with one name only the first counts, whether it
stays or not. -/
def attributes (policy : Policy) (seen : List (List Char)) (report : Report) :
    List Attribute → Attributes
  | [] => ⟨[], 0, report⟩
  | a :: rest =>
    if a.name ∈ seen then
      let more := attributes policy seen report rest
      { more with droppedNewlines := Text.newlines a.value + more.droppedNewlines }
    else
      match policy.judge a with
      | .kept =>
        let more := attributes policy (a.name :: seen) report rest
        { more with written := writeAttribute a ++ more.written }
      | verdict =>
        let more := attributes policy (a.name :: seen) (report.removeAttribute verdict) rest
        { more with droppedNewlines := Text.newlines a.value + more.droppedNewlines }

/-- The writer inside an element that is being taken out. -/
def skipToken (state : State) (skip : Skip) : Token → List Char × State
  | .text content => (lineFeeds (Text.newlines content), state)
  | .startTag name attributes _ =>
    let depth := if name = skip.name ∧ !isVoid name then skip.depth + 1 else skip.depth
    (lineFeeds (attributeNewlines attributes),
      { state with
        skip := some { skip with depth }
        report := state.report.removeElement name })
  | .endTag name =>
    if name = skip.name then
      ([], { state with
             skip := if skip.depth ≤ 1 then none else some { skip with depth := skip.depth - 1 } })
    else ([], state)

/-- The writer at a start tag. -/
def startTag (policy : Policy) (state : State) (name : List Char)
    (attributes : List Attribute) (selfClosing : Bool) : List Char × State :=
  if !policy.writesTag name then
    (lineFeeds (attributeNewlines attributes),
      { state with
        skip :=
          if isVoid name || selfClosing || isRawText name then none else some ⟨name, 1⟩
        report := state.report.removeElement name })
  else if !isVoid name && depthLimit ≤ state.opened.length then
    (lineFeeds (attributeNewlines attributes),
      { state with
        report := { state.report with removedElements := state.report.removedElements + 1 } })
  else
    let found := Writer.attributes policy [] state.report attributes
    let tag := '<' :: name ++ found.written ++ '>' :: lineFeeds found.droppedNewlines
    let state := { state with report := found.report }
    if isVoid name then (tag, state)
    else if selfClosing then (tag ++ writeEnd name, state)
    else (tag, { state with opened := name :: state.opened })

/-- The writer at an end tag: everything up to the innermost open element of that name is closed,
or nothing if none is open. -/
def endTag (state : State) (name : List Char) : List Char × State :=
  if isVoid name || !state.opened.contains name then ([], state)
  else
    let inner := state.opened.takeWhile (· ≠ name)
    ((inner ++ [name]).flatMap writeEnd,
      { state with opened := state.opened.drop (inner.length + 1) })

/-- **What one token writes, and where the writer stands then.** -/
def step (policy : Policy) (state : State) (t : Token) : List Char × State :=
  match state.skip with
  | some skip => skipToken state skip t
  | none =>
    match t with
    | .text content => (escapeText content, state)
    | .startTag name attributes selfClosing => startTag policy state name attributes selfClosing
    | .endTag name => endTag state name

/-- **What a stream of tokens writes**, and where the writer stands then. -/
def run (policy : Policy) (state : State) : List Token → List Char × State
  | [] => ([], state)
  | t :: rest =>
    let first := step policy state t
    let more := run policy first.2 rest
    (first.1 ++ more.1, more.2)

/-- The end tags of what is still open. -/
def finish (state : State) : List Char := state.opened.flatMap writeEnd

@[simp] theorem run_nil (policy : Policy) (state : State) : run policy state [] = ([], state) := rfl

@[simp] theorem run_cons (policy : Policy) (state : State) (t : Token) (rest : List Token) :
    run policy state (t :: rest)
      = ((step policy state t).1 ++ (run policy (step policy state t).2 rest).1,
        (run policy (step policy state t).2 rest).2) := rfl

/-- A stream is written piece by piece. -/
theorem run_append (policy : Policy) (state : State) (a b : List Token) :
    run policy state (a ++ b)
      = ((run policy state a).1 ++ (run policy (run policy state a).2 b).1,
        (run policy (run policy state a).2 b).2) := by
  induction a generalizing state with
  | nil => simp
  | cons t rest ih => simp [ih]

end Writer

/-- **The safe form of a text and the account of what was taken out.** -/
def sanitizeChars (policy : Policy) (cs : List Char) : List Char × Report :=
  let written := Writer.run policy .initial (tokens cs)
  (written.1 ++ Writer.finish written.2, written.2.report)

/-- **Safe markup**: a text that the writer made under some policy. Whoever holds one need not ask
where it came from. -/
structure SafeMarkup where
  text : String
  sanitised : ∃ policy cs, text = String.ofList (sanitizeChars policy cs).1
deriving DecidableEq

/-- **The safe form of a text under a policy**, with the account of what was taken out. -/
def sanitizeWithReport (policy : Policy) (input : String) : SafeMarkup × Report :=
  let made := sanitizeChars policy input.toList
  (⟨String.ofList made.1, policy, input.toList, rfl⟩, made.2)

/-- The safe form of a text under a policy. -/
def sanitize (policy : Policy) (input : String) : SafeMarkup := (sanitizeWithReport policy input).1

end SafePreview.Markup
