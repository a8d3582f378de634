import SafePreview.Cli.Run

/-!
# The program

Carries a run out: on the disk, with the arguments and variables of the process. What is asked for
is looked up and handed back; what the answers mean is the run's business.
-/

namespace SafePreview

open Files (Fault Place)

/-- The number of an error of the system, which may be given with its sign turned. -/
def errorNumber (code : UInt32) : Nat := code.toInt32.toInt.natAbs

/-- What an error of the system says about a file. -/
def Files.Fault.ofError : IO.Error → Fault
  | .noFileOrDirectory _ _ _ => .missing
  | .inappropriateType _ code details =>
    match errorNumber code with
    | 20 => .notDirectory
    | 21 => .isDirectory
    | _ => .stated details
  | .invalidArgument _ code details =>
    match errorNumber code with
    | 22 => .nulInPath
    | 36 => .nameTooLong
    | 40 => .tooManyLinks
    | _ => .stated details
  | e => .stated (toString e)

namespace Disk

/-- An action on files that may fail. -/
def attempt {α : Type} (action : IO α) : IO (Except Fault α) :=
  try
    return .ok (← action)
  catch e =>
    return .error (.ofError e)

/-- The bytes of a file. -/
def read (path : String) : IO (Except Fault ByteArray) := attempt (IO.FS.readBinFile path)

/-- The names in a path. -/
def placeOf (path : String) : Place := (path.splitOn "/").filter (· ≠ "")

/-- The path to a place. -/
def pathTo (place : Place) : String := "/" ++ "/".intercalate place

/-- The place without links that a path leads to. -/
def canonical (path : String) : IO (Except Fault Place) := do
  match ← attempt (IO.FS.realPath path) with
  | .ok found => return .ok (placeOf found.toString)
  | .error fault =>
    match ← read path with
    | .ok _ => return .error fault
    | .error exact => return .error exact

/-- What the disk says about a key below a root. -/
def sight (root : String) (key : AssetKey) : IO Sighting := do
  let base ← canonical root
  let target ← match base with
    | .ok place => canonical (pathTo (place ++ key.names))
    | .error fault => pure (.error fault)
  let content ← match target with
    | .ok place => read (pathTo place)
    | .error fault => pure (.error fault)
  return ⟨base, target, content⟩

/-- The first of some files that can be read. -/
def readFirst : List String → IO (Option ByteArray)
  | [] => return none
  | path :: rest => do
    match ← read path with
    | .ok bytes => return some bytes
    | .error _ => readFirst rest

/-- **Carries a run out.** There are no connections to serve. -/
def carryOut : Cli.Run → IO Cli.Outcome
  | .finish outcome => return outcome
  | .isThere path next => do
    carryOut (next (← canonical path).isOk)
  | .read path next => do
    carryOut (next (← read path))
  | .readAbove name next => do
    let place := placeOf (← IO.currentDir).toString
    carryOut (next (← readFirst ((Cli.placesAbove place).map fun p => pathTo (p ++ [name]))))
  | .sight root key next => do
    carryOut (next (← sight root key))
  | .serve _ next => carryOut (next (.stated "Operation not supported (os error 95)"))

/-- The variables of the process. -/
def environment : IO Environment := do
  match (← read "/proc/self/environ").bind Files.text with
  | .error _ => return []
  | .ok text =>
    return (text.splitOn "\x00").filterMap fun entry =>
      match entry.splitOn "=" with
      | name :: value@(_ :: _) => some (name, "=".intercalate value)
      | _ => none

end Disk

end SafePreview

/-- **The program.** -/
def main (arguments : List String) : IO UInt32 := do
  let outcome ← SafePreview.Disk.carryOut
    (SafePreview.Cli.run arguments (← SafePreview.Disk.environment))
  IO.print outcome.output
  IO.eprint outcome.errors
  return UInt32.ofNat outcome.exit
