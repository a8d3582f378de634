import SafePreview.Files.Tree

/-!
# Following a path

A path is read as a `Route`: where it starts and the steps it takes. `walk` goes through the steps
one by one. A step to a link puts the steps of its target in front of those that are left. What
comes out is a place without links, so it may be compared with other places name by name. At most
`maxLinks` links are followed, and each step is either one of those or leaves fewer steps, so the
walk ends.

Paths are followed on two occasions. To make a path canonical, its place is written out as it grows,
and what has been written must stay below `maxPath` bytes whenever the system is asked about it; the
text that one starts from may be as long as it likes. To open a file, the whole text is handed to
the system, so here the text must not be too long, and nothing else has a limit but each name.
-/

namespace SafePreview.Files

/-- **A step of a path.** -/
inductive Step where
  | here
  | up
  | into (name : String)
deriving DecidableEq, Repr

/-- **A path**: whether it starts at the root of the tree, and its steps. -/
structure Route where
  absolute : Bool
  steps : List Step
deriving DecidableEq, Repr

/-- The step that a part of a path between slashes asks for. A path may end in a slash, which asks
for a directory and no more. -/
def Step.ofPart (part : List Char) : Step :=
  if part = [] ∨ part = ['.'] then .here
  else if part = ['.', '.'] then .up
  else .into (String.ofList part)

/-- **A path from text.** -/
def Route.ofString (text : String) : Except Fault Route :=
  let cs := text.toList
  if cs = [] then .error .missing
  else if cs.contains '\x00' then .error .nulInPath
  else
    let absolute := cs.head? = some '/'
    .ok ⟨absolute, ((if absolute then cs.drop 1 else cs).splitOn '/').map Step.ofPart⟩

/-- How many bytes the name of a file may have. -/
def maxName : Nat := 255

/-- How many bytes a path has to stay below. -/
def maxPath : Nat := 4096

/-- How many links are followed on one path. -/
def maxLinks : Nat := 40

/-- The length of a place written as a path. -/
def Place.size (place : Place) : Nat :=
  place.foldr (fun name n => name.utf8ByteSize + 1 + n) 0

/-- **What a directory says** when it is asked for a name. -/
def Node.ask (tree : Node) (place : Place) (name : String) : Except Fault Node :=
  match tree.at? place with
  | some (.directory entries) =>
    if maxName < name.utf8ByteSize then .error .nameTooLong
    else
      match lookup? entries name with
      | some child => .ok child
      | none => .error .missing
  | _ => .error .notDirectory

/-- **Whether steps ask for a directory** to be taken in: to stay there, if that is all, or to go up
from it. A step to a name finds out by itself what it starts from. -/
def asksForDirectory : List Step → Bool
  | [] => false
  | [.here] => true
  | .here :: rest => asksForDirectory rest
  | .up :: _ => true
  | .into _ :: _ => false

/-- Whether a path has grown too long, if there is a limit. -/
def exceeds (limit? : Option Nat) (size : Nat) : Bool := limit?.any (· ≤ size)

/-- **What is met under a name**: a link, by its target, or something else, which one may stand on.
With a limit, the path is asked about as it is written so far, before it is known what stands there;
and if a directory is asked for, a second time with a slash behind it. -/
def meet (tree : Node) (limit? : Option Nat) (place : Place) (name : String) (rest : List Step) :
    Except Fault (Option String) :=
  let size := Place.size (place ++ [name])
  if exceeds limit? size then .error .nameTooLong
  else
    match tree.ask place name with
    | .ok (.link target) => .ok (some target)
    | answer =>
      if asksForDirectory rest && exceeds limit? (size + 1) then .error .nameTooLong
      else
        match answer with
        | .error fault => .error fault
        | .ok (.directory _) => .ok none
        | .ok _ => if asksForDirectory rest then .error .notDirectory else .ok none

/-- **Goes through steps** from a place without links on its path. -/
def walk (tree : Node) (limit? : Option Nat) (links : Nat) (place : Place) (steps : List Step) :
    Except Fault Place :=
  match steps with
  | [] => .ok place
  | .here :: rest => walk tree limit? links place rest
  | .up :: rest => walk tree limit? links place.dropLast rest
  | .into name :: rest =>
    match meet tree limit? place name rest with
    | .error fault => .error fault
    | .ok none => walk tree limit? links (place ++ [name]) rest
    | .ok (some target) =>
      match links with
      | 0 => .error .tooManyLinks
      | links + 1 =>
        match Route.ofString target with
        | .error fault => .error fault
        | .ok route =>
          walk tree limit? links (if route.absolute then [] else place) (route.steps ++ rest)
termination_by (links, steps.length)

end SafePreview.Files

namespace SafePreview

/-- **A tree of files and the directory that relative paths start from.** -/
structure Files where
  tree : Files.Node
  workingPlace : Files.Place

namespace Files

/-- Where a route leads to. -/
def destination (files : Files) (limit? : Option Nat) (route : Route) : Except Fault Place :=
  walk files.tree limit? maxLinks (if route.absolute then [] else files.workingPlace) route.steps

/-- **The canonical place of a path**, the one without links that it leads to. -/
def canonical (files : Files) (path : String) : Except Fault Place := do
  files.destination (some maxPath) (← Route.ofString path)

/-- **The place that is opened under a path.** -/
def opened (files : Files) (path : String) : Except Fault Place := do
  let route ← Route.ofString path
  if maxPath ≤ path.utf8ByteSize then throw .nameTooLong
  files.destination none route

/-- The bytes of the regular file at a place without links. -/
def content (files : Files) (place : Place) : Except Fault ByteArray :=
  match files.tree.at? place with
  | some (.file bytes) => .ok bytes
  | some (.directory _) => .error .isDirectory
  | some (.link _) => .error .tooManyLinks
  | none => .error .missing

/-- **What is known of a file** but its bytes. A directory counts as having none. -/
structure Metadata where
  isFile : Bool
  size : Nat
deriving DecidableEq, Repr

/-- What is known of that which stands at a place without links. -/
def metadata (files : Files) (place : Place) : Except Fault Metadata :=
  match files.tree.at? place with
  | some (.file bytes) => .ok ⟨true, bytes.size⟩
  | some (.directory _) => .ok ⟨false, 0⟩
  | some (.link _) => .error .tooManyLinks
  | none => .error .missing

/-- **The bytes of the file that a path leads to.** -/
def read (files : Files) (path : String) : Except Fault ByteArray := do
  files.content (← files.opened path)

/-- Whether a path leads to anything. -/
def isThere (files : Files) (path : String) : Bool :=
  match files.opened path with
  | .ok _ => true
  | .error _ => false

/-- Bytes as a text. -/
def text (bytes : ByteArray) : Except Fault String :=
  match String.fromUTF8? bytes with
  | some s => .ok s
  | none => .error .notText

/-- No files at all but a directory to start from. -/
def empty : Files := ⟨.empty, []⟩

/-- The files with a node more, at a place under the working directory. -/
def add (files : Files) (place : Place) (node : Node) : Files :=
  { files with tree := Node.insert node (files.workingPlace ++ place) files.tree }

end Files

end SafePreview
