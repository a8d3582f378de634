import SafePreview.Asset.Key
import SafePreview.Files.Route

/-!
# Fetching assets

An asset is a regular file below a root directory. Keys are sound as texts, but a link below the
root may lead out of it; so both the root and what the key leads to are taken without links, and the
second has to lie below the first, name by name. `Sighting` is what the files say about a key and
`Asset.ofSighting` decides from it alone, wherever the files are.
-/

namespace SafePreview

open Files (Place Fault)

/-- **Why an asset cannot be had.** -/
inductive AssetError where
  | badKey (defect : KeyDefect)
  /-- The key leads out of the root. -/
  | outsideRoot
  | notFound (key : String)
  | store (fault : Fault)
deriving DecidableEq, Repr

namespace AssetError

/-- **The words for an error.** -/
def message : AssetError → String
  | .badKey defect => "invalid asset key: " ++ defect.message
  | .outsideRoot => "invalid asset key: escapes asset root"
  | .notFound key => "asset not found: " ++ key
  | .store fault => "asset store error: " ++ fault.message

/-- The status that the web answers with. -/
def status : AssetError → Nat
  | .badKey _ | .outsideRoot => 400
  | .notFound _ => 404
  | .store _ => 500

/-- The words that anyone may read. -/
def publicMessage : AssetError → String
  | .badKey _ | .outsideRoot => "invalid asset key"
  | .notFound _ => "asset not found"
  | .store _ => "preview unavailable"

/-- The error for a fault met below the root. -/
def ofFault (key : AssetKey) : Fault → AssetError
  | .missing => .notFound key.text
  | .notDirectory => .notFound key.text
  | fault => .store fault

end AssetError

/-- The directory that assets are below unless another is given. -/
def AssetRoot.standard : String := "assets"

/-- **What the files say about a key**: where the root is, where the key leads to, and what stands
there, all without links. -/
structure Sighting where
  root : Except Fault Place
  target : Except Fault Place
  content : Except Fault ByteArray

/-- **An asset.** -/
structure Asset where
  key : AssetKey
  root : Place
  place : Place
  bytes : ByteArray

/-- **What is told of an asset** but its bytes. -/
structure AssetInfo where
  key : AssetKey
  size : Nat

/-- The content type of an asset that is told of. -/
def AssetInfo.contentType (info : AssetInfo) : String := info.key.contentType

namespace Asset

/-- **The asset that was sighted.** -/
def ofSighting (key : AssetKey) (s : Sighting) : Except AssetError Asset :=
  match s.root, s.target with
  | .error fault, _ => .error (.store fault)
  | .ok _, .error fault => .error (.ofFault key fault)
  | .ok root, .ok place =>
    if root.isPrefixOf place then
      match s.content with
      | .ok bytes => .ok ⟨key, root, place, bytes⟩
      | .error .isDirectory => .error (.notFound key.text)
      | .error fault => .error (.ofFault key fault)
    else .error .outsideRoot

/-- The place of an asset as seen from the root. -/
def relativePlace (a : Asset) : Place := a.place.drop a.root.length

/-- The number of bytes. -/
def size (a : Asset) : Nat := a.bytes.size

/-- What is told of an asset. -/
def info (a : Asset) : AssetInfo := ⟨a.key, a.size⟩

/-- The content type of an asset. -/
def contentType (a : Asset) : String := a.key.contentType

/-- The security policy of an asset that is opened by itself. -/
def securityPolicy : String := "default-src 'none'; style-src 'unsafe-inline'; sandbox"

/-- **The headers that an asset is served with.** -/
def headers (a : Asset) : List (String × String) :=
  [("content-type", a.contentType), ("content-length", toString a.size),
    ("content-security-policy", securityPolicy), ("x-content-type-options", "nosniff")]

end Asset

namespace Files

/-- What the files say about a key below a root. -/
def sight (files : Files) (root : String) (key : AssetKey) : Sighting :=
  let base := files.canonical root
  let target := do
    walk files.tree (some maxPath) maxLinks (← base) (key.names.map Step.into)
  ⟨base, target, do files.content (← target)⟩

/-- **The asset under a key.** -/
def fetch (files : Files) (root : String) (key : String) : Except AssetError Asset := do
  match AssetKey.ofString key with
  | .error defect => throw (.badKey defect)
  | .ok key => Asset.ofSighting key (files.sight root key)

/-- **The place of the regular file under a key**, below the root and without links. -/
def resolve (files : Files) (root : String) (key : AssetKey) : Except AssetError Place :=
  match files.canonical root with
  | .error fault => .error (.store fault)
  | .ok base =>
    match walk files.tree (some maxPath) maxLinks base (key.names.map Step.into) with
    | .error fault => .error (.ofFault key fault)
    | .ok place =>
      if base.isPrefixOf place then
        match files.metadata place with
        | .error fault => .error (.ofFault key fault)
        | .ok about => if about.isFile then .ok place else .error (.notFound key.text)
      else .error .outsideRoot

/-- **What is told of the asset under a key.** Its bytes are not read for it. -/
def stat (files : Files) (root : String) (key : String) : Except AssetError AssetInfo :=
  match AssetKey.ofString key with
  | .error defect => .error (.badKey defect)
  | .ok key =>
    match files.resolve root key with
    | .error e => .error e
    | .ok place =>
      match files.metadata place with
      | .error fault => .error (.ofFault key fault)
      | .ok about => .ok ⟨key, about.size⟩

end Files

end SafePreview
