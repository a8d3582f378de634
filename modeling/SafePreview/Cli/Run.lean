import SafePreview.Asset.Fetch
import SafePreview.Cli.Arguments
import SafePreview.Preview.Request
import SafePreview.Session.Error
import SafePreview.Settings.EnvironmentFile
import SafePreview.Text.Quoted

/-!
# Runs

A `Run` says what the program does without doing it: it asks the outside for one thing at a time and
goes on with the answer, up to what it leaves behind. Whatever carries a run out decides nothing.
Over a tree of files `Run.on` does so without leaving the language of definitions.
-/

namespace SafePreview.Cli

open Files (Fault)

/-- **What a run leaves behind.** -/
structure Outcome where
  exit : Nat
  output : String
  errors : String
deriving DecidableEq, Repr

/-- **A run.** -/
inductive Run where
  | finish (outcome : Outcome)
  /-- Asks whether there is anything at a path. -/
  | isThere (path : String) (next : Bool → Run)
  /-- Asks for the bytes of a file. -/
  | read (path : String) (next : Except Fault ByteArray → Run)
  /-- Asks for the file with a name in the working directory or the nearest one above it. -/
  | readAbove (name : String) (next : Option ByteArray → Run)
  /-- Asks what the files say about a key below a root. -/
  | sight (root : String) (key : AssetKey) (next : Sighting → Run)
  /-- Serves until that fails. -/
  | serve (settings : Settings) (next : Fault → Run)

namespace Outcome

/-- A run that did its work. -/
def success (output : String) : Outcome := ⟨0, output, ""⟩

/-- A text with all lines but the first indented. -/
def indent (width : Nat) (text : String) : String :=
  String.ofList (text.toList.flatMap fun c =>
    if c = '\n' then '\n' :: List.replicate width ' ' else [c])

/-- The causes of an error, numbered if there are several. -/
def causeLines (causes : List String) : List String :=
  match causes with
  | [cause] => ["    " ++ indent 4 cause]
  | causes => causes.zipIdx.map fun (cause, i) =>
    let number := toString i
    String.ofList (List.replicate (5 - number.length) ' ') ++ number ++ ": " ++ indent 7 cause

/-- **The report of an error and its causes**, the nearest first. -/
def report (message : String) (causes : List String) : String :=
  "Error: " ++ message
    ++ (if causes.isEmpty then "" else
      "\n\nCaused by:\n" ++ "\n".intercalate (causeLines causes))
    ++ "\n"

/-- A run that failed. -/
def failure (message : String) (causes : List String) : Outcome := ⟨1, "", report message causes⟩

/-- The name and version of the program. -/
def versionLine : String := "blockpreview " ++ version ++ "\n"

/-- How the program is called. -/
def usage : String :=
  "Usage: blockpreview [--config FILE] COMMAND\n\nCommands:\n" ++
  "  serve                                         Start the preview web server\n" ++
  "  render FILE [--mapping] [--project PROJECT]   Render a block file to safe markup\n" ++
  "  sanitize FILE [--strict]                      Sanitize a markup file\n" ++
  "  asset KEY                                     Resolve an asset key\n"

/-- What is left behind where there is no call. -/
def ofInterruption : Interruption → Outcome
  | .help => success usage
  | .version => success versionLine
  | .usage => ⟨2, "", usage⟩

end Outcome

namespace Run

/-- Fails. -/
def fail (message : String) (causes : List String) : Run := .finish (.failure message causes)

/-- Reads a file as text. -/
def readText (path : String) (next : String → Run) : Run :=
  .read path fun found =>
    match found.bind Files.text with
    | .ok text => next text
    | .error fault => fail ("failed to read " ++ path) [fault.message]

/-- The words for a text that is no list of blocks. -/
def faultMessage : Json.Error → String
  | .fault .eof => "the text ends too early"
  | .fault .malformed => "the text is malformed"
  | .mismatch m => m.message

/-- The causes behind blocks that cannot be shown. -/
def renderCauses (e : BlockError) : List String :=
  let outer := [(SessionError.render e).message, e.message]
  match e with
  | .malformedTree defect => outer ++ [defect.message]
  | _ => outer

/-- The causes behind an asset that cannot be had. -/
def assetCauses (e : AssetError) : List String :=
  match e with
  | .store fault => [e.message, fault.message]
  | e => [e.message]

/-- Shows the blocks of a file. -/
def render [ParentOrder] (settings : Settings) (file : String) (mapping : Bool)
    (project : Option String) : Run :=
  readText file fun text =>
    match PreviewRequest.fileShape.ofText text with
    | .error e => fail ("failed to parse " ++ file) ["not a block list", faultMessage e]
    | .ok request =>
      match (request.withProject project).render settings.policy with
      | .error e => fail "failed to render preview" (renderCauses e)
      | .ok preview =>
        .finish (.success
          ((if mapping then preview.toValue.pretty else preview.markup.text) ++ "\n"))

/-- Sanitises the markup of a file. -/
def sanitize (settings : Settings) (file : String) (strict : Bool) : Run :=
  readText file fun text =>
    let policy := if strict then .strict else settings.policy
    .finish (.success ((Markup.sanitize policy text).text ++ "\n"))

/-- Looks up an asset. -/
def asset (settings : Settings) (key : String) : Run :=
  let conclude (found : Except AssetError Asset) : Run :=
    match found with
    | .ok a =>
      .finish (.success (a.contentType ++ "\t" ++ toString a.size ++ "\t" ++ a.key.text ++ "\n"))
    | .error e =>
      fail ("cannot serve " ++ Text.quote key ++ " from " ++ settings.assetRoot) (assetCauses e)
  match AssetKey.ofString key with
  | .error defect => conclude (.error (.badKey defect))
  | .ok key => .sight settings.assetRoot key fun s => conclude (Asset.ofSighting key s)

/-- **Does what a command says.** -/
def command [ParentOrder] (settings : Settings) : Command → Run
  | .serve => .serve settings fun fault => fail "web server failed" [fault.message]
  | .render file mapping project => render settings file mapping project
  | .sanitize file strict => sanitize settings file strict
  | .asset key => asset settings key

/-- Takes the variables of the environment; empty ones do not count. -/
def withVariables (env : Environment) (settings : Settings) (next : Settings → Run) : Run :=
  match settings.withVariables env.filled? with
  | (settings, none) => next settings
  | (_, some e) => fail e.message (e.cause.map (·.message)).toList

/-- Reads the settings file, if there is one. -/
def readSettings (file : String) (next : Settings → Run) : Run :=
  .isThere file fun there =>
    if there then
      readText file fun text =>
        match Settings.ofText? text with
        | some settings => next settings
        | none => fail ("failed to parse " ++ file) ["the text is no settings file"]
    else next .standard

/-- The name of the file of variables. -/
def environmentFile : String := ".env"

/-- The environment with the variables of the file of variables, if it is there and a text. -/
def readEnvironment (env : Environment) (next : Environment → Run) : Run :=
  .readAbove environmentFile fun found =>
    match found.bind fun bytes => (Files.text bytes).toOption with
    | some text => next (EnvironmentFile.load text env)
    | none => next env

end Run

/-- **The run that arguments and an environment ask for.** -/
def run [ParentOrder] (arguments : List String) (env : Environment) : Run :=
  match Invocation.parse arguments with
  | .error interruption => .finish (.ofInterruption interruption)
  | .ok call =>
    Run.readEnvironment env fun env =>
      Run.readSettings call.settingsFile fun settings =>
        Run.withVariables env settings fun settings => Run.command settings call.command

/-- The places from one upwards, the nearest first. -/
def placesAbove (place : Files.Place) : List Files.Place :=
  (List.range (place.length + 1)).reverse.map place.take

/-- **Carries a run out over a tree of files.** `serving` is why serving fails. -/
def Run.on (files : Files) (serving : Fault) : Run → Outcome
  | .finish outcome => outcome
  | .isThere path next => on files serving (next (files.isThere path))
  | .read path next => on files serving (next (files.read path))
  | .readAbove name next =>
    on files serving (next ((placesAbove files.workingPlace).findSome? fun place =>
      ({ files with workingPlace := place }.read name).toOption))
  | .sight root key next => on files serving (next (files.sight root key))
  | .serve _ next => on files serving (next serving)

end SafePreview.Cli
