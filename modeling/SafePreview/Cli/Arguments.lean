/-!
# Arguments

The program has four commands. `Invocation.parse` reads arguments from the left: options and flags
may stand before or behind operands, behind `--` everything is an operand, and the option for the
settings file may also stand before the command. What is refused is refused as a whole; a request
for help or the version counts where it stands, so what is wrong further to the right is not looked
at.
-/

namespace SafePreview.Cli

/-- **What the program is to do.** -/
inductive Command where
  | serve
  | render (file : String) (mapping : Bool) (project : Option String)
  | sanitize (file : String) (strict : Bool)
  | asset (key : String)
deriving DecidableEq, Repr

/-- **A call of the program.** -/
structure Invocation where
  settingsFile : String
  command : Command
deriving DecidableEq, Repr

/-- **Why there is no call.** -/
inductive Interruption where
  | help
  | version
  /-- The arguments are of no use. -/
  | usage
deriving DecidableEq, Repr

/-- Whether an operand or the value of an option names a file, which may not be empty. -/
inductive Operand where
  | file
  | word
deriving DecidableEq, Repr

/-- **What may follow a command.** -/
structure Grammar where
  /-- Options with a value. -/
  options : List (String × Operand)
  /-- Flags, which have none. -/
  flags : List String
  operands : List Operand
deriving DecidableEq, Repr

/-- What was found behind a command. -/
structure Findings where
  options : List (String × String)
  flags : List String
  operands : List String
deriving DecidableEq, Repr

namespace Findings

/-- Nothing yet. -/
def empty : Findings := ⟨[], [], []⟩

/-- The value of an option. -/
def option? (f : Findings) (name : String) : Option String :=
  (f.options.find? (·.1 = name)).map (·.2)

/-- An operand more. -/
def operand (g : Grammar) (value : String) (f : Findings) : Except Interruption Findings :=
  match g.operands[f.operands.length]? with
  | none => .error .usage
  | some .word => .ok { f with operands := f.operands ++ [value] }
  | some .file =>
    if value.isEmpty then .error .usage else .ok { f with operands := f.operands ++ [value] }

/-- An option with its value. -/
def option (g : Grammar) (name value : String) (f : Findings) : Except Interruption Findings :=
  match g.options.lookup name with
  | none => .error .usage
  | some kind =>
    if (f.option? name).isSome ∨ (kind = .file ∧ value.isEmpty) then .error .usage
    else .ok { f with options := f.options ++ [(name, value)] }

/-- A flag. -/
def flag (g : Grammar) (name : String) (f : Findings) : Except Interruption Findings :=
  if g.flags.contains name ∧ ¬ f.flags.contains name then
    .ok { f with flags := f.flags ++ [name] }
  else .error .usage

end Findings

/-- **An argument as it looks.** -/
inductive Look where
  /-- `--` alone. -/
  | separator
  | long (name : String) (value : Option String)
  | short (letter : Char)
  | plain
deriving DecidableEq, Repr

/-- How an argument looks. A single hyphen is an operand. -/
def Look.of (argument : String) : Look :=
  match argument.toList with
  | ['-', '-'] => .separator
  | '-' :: '-' :: cs =>
    .long (String.ofList (cs.takeWhile (· ≠ '='))) (match cs.dropWhile (· ≠ '=') with
      | [] => none
      | _ :: value => some (String.ofList value))
  | '-' :: c :: _ => .short c
  | _ => .plain

/-- Takes operands alone. -/
def takeOperands (g : Grammar) : List String → Findings → Except Interruption Findings
  | [], f => .ok f
  | argument :: rest, f => do takeOperands g rest (← f.operand g argument)

/-- **Takes what may follow a command.** -/
def takeArguments (g : Grammar) : List String → Findings → Except Interruption Findings
  | [], f => .ok f
  | argument :: rest, f =>
    match Look.of argument with
    | .separator => takeOperands g rest f
    | .plain => do takeArguments g rest (← f.operand g argument)
    | .short letter => .error (if letter = 'h' then .help else .usage)
    | .long name (some value) => do takeArguments g rest (← f.option g name value)
    | .long name none =>
      if (g.options.lookup name).isSome then
        match rest with
        | [] => .error .usage
        | value :: rest =>
          match Look.of value with
          | .plain => do takeArguments g rest (← f.option g name value)
          | _ => .error .usage
      else if name = "help" then .error .help
      else do takeArguments g rest (← f.flag g name)

/-- The option that names the settings file. -/
def settingsOption : String := "config"

/-- The settings file unless another is named. -/
def standardSettingsFile : String := "config/default.toml"

/-- What may follow each command. -/
def grammar? : String → Option Grammar
  | "serve" => some ⟨[(settingsOption, .file)], [], []⟩
  | "render" => some ⟨[(settingsOption, .file), ("project", .word)], ["mapping"], [.file]⟩
  | "sanitize" => some ⟨[(settingsOption, .file)], ["strict"], [.file]⟩
  | "asset" => some ⟨[(settingsOption, .file)], [], [.word]⟩
  | _ => none

/-- The command with what was found behind its name. -/
def Command.ofFindings (name : String) (f : Findings) : Except Interruption Command :=
  match name, f.operands with
  | "serve", [] => .ok .serve
  | "render", [file] => .ok (.render file (f.flags.contains "mapping") (f.option? "project"))
  | "sanitize", [file] => .ok (.sanitize file (f.flags.contains "strict"))
  | "asset", [key] => .ok (.asset key)
  | _, _ => .error .usage

/-- What asking for help by a command comes to. -/
def helpOn : List String → Interruption
  | [] => .help
  | [name] => if (grammar? name).isSome ∨ name = "help" then .help else .usage
  | _ => .usage

/-- Takes what stands before the command, and the command. -/
def takeCommand : Option String → List String → Except Interruption Invocation
  | _, [] => .error .usage
  | file, argument :: rest =>
    match Look.of argument with
    | .separator => .error .usage
    | .short letter =>
      .error (if letter = 'h' then .help else if letter = 'V' then .version else .usage)
    | .long name (some value) =>
      if name = settingsOption ∧ file = none ∧ ¬ value.isEmpty then takeCommand (some value) rest
      else .error .usage
    | .long name none =>
      if name = settingsOption then
        match rest with
        | [] => .error .usage
        | value :: rest =>
          if Look.of value = .plain ∧ file = none ∧ ¬ value.isEmpty then
            takeCommand (some value) rest
          else .error .usage
      else .error (if name = "help" then .help else if name = "version" then .version else .usage)
    | .plain =>
      match grammar? argument with
      | some g => do
        let f ← takeArguments g rest .empty
        let command ← Command.ofFindings argument f
        let file := (f.option? settingsOption).getD (file.getD standardSettingsFile)
        return { settingsFile := file, command }
      | none => .error (if argument = "help" then helpOn rest else .usage)

/-- **A call from arguments.** -/
def Invocation.parse (arguments : List String) : Except Interruption Invocation :=
  takeCommand none arguments

end SafePreview.Cli
