import SafePreview.Markup.Policy
import SafePreview.Preview.Frame
import SafePreview.Toml.Document

/-!
# Settings

Settings have four sections: where the server listens, where assets are, what sessions are held to,
and what markup may hold. A file may leave out any section and any key, and keys that mean nothing
are passed over. Settings are kept as they were given: `Settings.limits` and `Settings.policy` are
what follows from them.
-/

namespace SafePreview

/-- The version of the program, for its command line and for its web service. -/
def version : String := "0.1.0"

/-- **Where the server listens** and how it keeps its sessions. -/
structure ServerSettings where
  bindAddress : String
  port : Nat
  /-- The origin that browsers reach the server at. -/
  publicOrigin : Option String
  /-- The seconds between two sweeps of closed sessions; with none there are no sweeps. -/
  pruneInterval : Nat
deriving DecidableEq, Repr

/-- The server at this machine's own address, with a sweep a minute. -/
def ServerSettings.standard : ServerSettings := ⟨"127.0.0.1", 3000, none, 60⟩

/-- The address to listen at. -/
def ServerSettings.address (s : ServerSettings) : String :=
  s.bindAddress ++ ":" ++ toString s.port

/-- **What a policy starts from.** -/
inductive Preset where
  | preview
  | strict
  | custom
deriving DecidableEq, Repr

namespace Preset

/-- The name of a preset. -/
def text : Preset → String
  | .preview => "preview"
  | .strict => "strict"
  | .custom => "custom"

/-- The policy that a preset stands for. -/
def policy : Preset → Markup.Policy
  | .preview => .preview
  | .strict => .strict
  | .custom => .empty

/-- The preset with a name. -/
def ofText? (name : String) : Option Preset :=
  [Preset.preview, .strict, .custom].find? (·.text = name)

/-- A preset from a file: its name, or a table with nothing under its name alone. -/
def shape : Json.Shape Preset := fun t => do
  let name ← match t with
    | .object [(some name, .object [] _)] _ => pure name
    | .object [(some name, .array [] _)] _ => pure name
    | t => Json.Shape.stringAs "string or table" t
  match ofText? name with
  | some preset => return preset
  | none => throw (.mismatch (.unknownVariant name ["preview", "strict", "custom"]))

end Preset

/-- **All settings.** -/
structure Settings where
  server : ServerSettings
  assetRoot : String
  /-- What sessions are held to, as it was given. -/
  sandbox : Limits
  preset : Preset
  /-- What the policy has beside its preset. -/
  lists : Markup.Policy.Lists
deriving DecidableEq

namespace Settings

/-- The settings where nothing is given. -/
def standard : Settings := ⟨.standard, "assets", .standard, .preview, ⟨[], [], [], []⟩⟩

/-- What sessions are held to. -/
def limits (s : Settings) : Limits :=
  Limits.standard.withHandshakeTimeout s.sandbox.handshakeTimeout
    |>.withMailboxCapacity s.sandbox.mailboxCapacity
    |>.withAllowScripts s.sandbox.allowScripts

/-- **What markup may hold.** -/
def policy (s : Settings) : Markup.Policy :=
  s.preset.policy.allowTags s.lists.allowedTags
    |>.allowAttributes s.lists.allowedAttributes
    |>.denyTags s.lists.deniedTags
    |>.denyAttributes s.lists.deniedAttributes

/-! ## Files -/

/-- A section: a table with its keys, or an array with the first of their values in order. -/
def sectionShape {α : Type} (record : Json.Record α) : Json.Shape α
  | .array items ending => record.ofItems "section" (items.take record.fields.length) ending
  | t => record.shape "section" t

/-- The section on the server. -/
def serverRecord : Json.Record ServerSettings :=
  let standard := ServerSettings.standard
  ((((Json.Record.pure ServerSettings.mk).seq
    (.optional "bind_addr" .string standard.bindAddress)).seq
    (.optional "port" (.count 16 "u16") standard.port)).seq
    (.optional "public_origin" (.option .string) standard.publicOrigin)).seq
    (.optional "prune_interval_secs" (.count 64 "u64") standard.pruneInterval)

/-- The section on assets. -/
def assetsRecord : Json.Record String := .optional "root" .string standard.assetRoot

/-- The section on sessions. -/
def sandboxRecord : Json.Record Limits :=
  (((Json.Record.pure Limits.mk).seq
    (.optional "handshake_timeout_ms" (.count 64 "u64") Limits.standard.handshakeTimeout)).seq
    (.optional "mailbox_capacity" (.count 64 "usize") Limits.standard.mailboxCapacity)).seq
    (.optional "allow_scripts" .bool Limits.standard.allowScripts)

/-- The section on markup. -/
def sanitizeRecord : Json.Record (Preset × Markup.Policy.Lists) :=
  ((Json.Record.pure Prod.mk).seq (.optional "preset" Preset.shape .preview)).seq
    Markup.Policy.Lists.record

/-- All sections. -/
def record : Json.Record Settings :=
  ((((Json.Record.pure fun server root sandbox (markup : Preset × Markup.Policy.Lists) =>
      Settings.mk server root sandbox markup.1 markup.2).seq
    (.optional "server" (sectionShape serverRecord) .standard)).seq
    (.optional "assets" (sectionShape assetsRecord) standard.assetRoot)).seq
    (.optional "sandbox" (sectionShape sandboxRecord) .standard)).seq
    (.optional "sanitize" (sectionShape sanitizeRecord) (.preview, standard.lists))

/-- **Settings from the text of a file**, or nothing if it is not a file of settings. -/
def ofText? (text : String) : Option Settings := do
  (record.objectShape "settings" |>.ofValue (← Toml.read? text)).toOption

end Settings

end SafePreview
