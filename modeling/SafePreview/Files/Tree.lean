/-!
# Trees of files

A tree holds directories, regular files and symbolic links. A link holds a text and nothing is said
about where it leads, so links may dangle, leave the part of the tree they stand in, or run in a
circle. `Fault` lists why a path cannot be followed or a file not read.
-/

namespace SafePreview.Files

/-- **Why a path or file cannot be had.** -/
inductive Fault where
  | missing
  | notDirectory
  | isDirectory
  | nameTooLong
  | tooManyLinks
  /-- A path with a NUL in it. -/
  | nulInPath
  /-- A text was wanted and the bytes are none. -/
  | notText
  /-- Another fault, in the words of the system. -/
  | stated (description : String)
deriving DecidableEq, Repr

/-- **The words for a fault.** -/
def Fault.message : Fault → String
  | .missing => "No such file or directory (os error 2)"
  | .notDirectory => "Not a directory (os error 20)"
  | .isDirectory => "Is a directory (os error 21)"
  | .nameTooLong => "File name too long (os error 36)"
  | .tooManyLinks => "Too many levels of symbolic links (os error 40)"
  | .nulInPath => "file name contained an unexpected NUL byte"
  | .notText => "stream did not contain valid UTF-8"
  | .stated description => description

/-- **What stands at a place.** -/
inductive Node where
  | file (bytes : ByteArray)
  | link (target : String)
  | directory (entries : List (String × Node))

/-- A place: the names from the root of the tree downwards. -/
abbrev Place := List String

namespace Node

/-- What a directory holds under a name. -/
def lookup? (entries : List (String × Node)) (name : String) : Option Node :=
  (entries.find? (·.1 = name)).map (·.2)

/-- **What stands at a place**; links on the way are not followed. -/
def at? : Node → Place → Option Node
  | node, [] => some node
  | .directory entries, name :: rest =>
    match lookup? entries name with
    | some child => child.at? rest
    | none => none
  | _, _ :: _ => none

/-- The entries with a name bound to a node. -/
def put (name : String) (node : Node) (entries : List (String × Node)) : List (String × Node) :=
  entries.filter (·.1 ≠ name) ++ [(name, node)]

/-- **The tree with a node at a place.** Directories on the way are made where there are none. -/
def insert (new : Node) : Place → Node → Node
  | [], _ => new
  | name :: rest, .directory entries =>
    .directory (put name (insert new rest ((lookup? entries name).getD (.directory []))) entries)
  | name :: rest, _ => .directory [(name, insert new rest (.directory []))]

/-- The directory with nothing in it. -/
def empty : Node := .directory []

end Node

end SafePreview.Files
