import SafePreview.Settings.Basic

/-!
# Settings from the environment

Five variables override what a file says. They are taken in a fixed order and the first that cannot
be read ends that: those before it have been taken, it and those behind it have not.
-/

namespace SafePreview

/-- The variables of a process, each at most once. -/
abbrev Environment := List (String × String)

namespace Environment

/-- The value of a variable. -/
def get? (env : Environment) (name : String) : Option String :=
  (env.find? (·.1 = name)).map (·.2)

/-- The value of a variable that has one. -/
def filled? (env : Environment) (name : String) : Option String :=
  (env.get? name).filter fun value => !value.isEmpty

end Environment

/-- **Why a text is no number.** -/
inductive NumberFault where
  | empty
  | notDigit
  | tooLarge
deriving DecidableEq, Repr

/-- The words for a fault. -/
def NumberFault.message : NumberFault → String
  | .empty => "cannot parse integer from empty string"
  | .notDigit => "invalid digit found in string"
  | .tooLarge => "number too large to fit in target type"

/-- The number that digits spell behind `value`, from left to right: the first digit that is none or
does not fit decides. -/
def readCount (bits : Nat) (value : Nat) : List Char → Except NumberFault Nat
  | [] => .ok value
  | c :: cs =>
    if !Text.isDigit c then .error .notDigit
    else
      let next := value * 10 + (c.toNat - '0'.toNat)
      if 2 ^ bits ≤ next then .error .tooLarge else readCount bits next cs

/-- **A count below `2 ^ bits` from text**, which may have a plus in front. -/
def parseCount (bits : Nat) (text : String) : Except NumberFault Nat :=
  match text.toList with
  | [] => .error .empty
  | ['+'] => .error .notDigit
  | '+' :: cs => readCount bits 0 cs
  | cs => readCount bits 0 cs

/-- A truth value from text, in any case of letters and with blanks around it. -/
def parseFlag? (text : String) : Option Bool :=
  let word := Text.lower (Text.trim text)
  if ["1", "true", "yes", "on"].contains word then some true
  else if ["0", "false", "no", "off"].contains word then some false
  else none

/-- **A variable that cannot be read.** -/
structure VariableError where
  name : String
  /-- What it should have been. -/
  wanted : String
  text : String
  cause : Option NumberFault
deriving DecidableEq, Repr

/-- **The words for a variable that cannot be read.** -/
def VariableError.message (e : VariableError) : String :=
  e.name ++ " is not " ++ e.wanted ++ ": " ++ e.text

/-- **A variable that overrides a setting.** -/
structure Override where
  name : String
  apply : String → Settings → Except VariableError Settings

namespace Override

/-- A variable with a count. -/
def count (name wanted : String) (bits : Nat) (set : Nat → Settings → Settings) : Override where
  name := name
  apply text s := match parseCount bits text with
    | .ok n => .ok (set n s)
    | .error fault => .error ⟨name, wanted, text, some fault⟩

/-- The variable for the address. -/
def bind : Override where
  name := "BLOCKPREVIEW_BIND"
  apply text s := .ok { s with server.bindAddress := text }

/-- The variable for the port. -/
def port : Override :=
  count "BLOCKPREVIEW_PORT" "a port" 16 fun n s => { s with server.port := n }

/-- The variable for the root of assets. -/
def assetRoot : Override where
  name := "BLOCKPREVIEW_ASSET_ROOT"
  apply text s := .ok { s with assetRoot := text }

/-- The variable for the time of the handshake. -/
def handshakeTimeout : Override :=
  count "BLOCKPREVIEW_HANDSHAKE_TIMEOUT_MS" "a number" 64 fun n s =>
    { s with sandbox.handshakeTimeout := n }

/-- The variable that lets the script run. -/
def allowScripts : Override where
  name := "BLOCKPREVIEW_ALLOW_SCRIPTS"
  apply text s := match parseFlag? text with
    | some flag => .ok { s with sandbox.allowScripts := flag }
    | none => .error ⟨"BLOCKPREVIEW_ALLOW_SCRIPTS", "a boolean", text, none⟩

/-- All variables, in the order in which they are taken. -/
def all : List Override := [bind, port, assetRoot, handshakeTimeout, allowScripts]

/-- Takes variables in order, and says which one could not be read. -/
def applyAll (lookup : String → Option String) :
    List Override → Settings → Settings × Option VariableError
  | [], s => (s, none)
  | o :: rest, s =>
    match lookup o.name with
    | none => applyAll lookup rest s
    | some text =>
      match o.apply text s with
      | .ok s => applyAll lookup rest s
      | .error e => (s, some e)

end Override

/-- **Settings with the variables taken**, as far as they can be read. -/
def Settings.withVariables (s : Settings) (lookup : String → Option String) :
    Settings × Option VariableError :=
  Override.applyAll lookup Override.all s

end SafePreview
