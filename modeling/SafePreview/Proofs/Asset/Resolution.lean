import SafePreview.Asset.Fetch
import SafePreview.Proofs.Asset.Keys
import SafePreview.Proofs.Files.Travel

/-!
# What becomes of a key

A key is looked at as a text, followed from the root through all links, held against the root, and
asked for a regular file. Each of these can go wrong, and what a caller is told depends on where it
did. `Files.Verdict` lists the ways it can go, in terms of where the travels through the tree end
(`Files.Finds`) and without reference to how they are made. A key comes to exactly one of them
(`Files.fetch_eq_iff`), and the metadata of an asset is told in the same cases
(`Files.Verdict.stat_eq`).

Two things that might happen do not. Where a key leads there is never a link, so nothing that is no
regular file is taken for a fault of the store. And the root itself is no asset, as a key goes at
least one step down from it: what is served lies strictly below the root. Both are known from the
steps that the travels are made of.
-/

namespace SafePreview

open Files (Place Fault Node Step Leads Ends maxPath maxLinks walk)

/-- A fault met on the way to an asset: either it is not there, or the store has failed. -/
theorem AssetError.ofFault_eq (key : AssetKey) (fault : Fault) :
    AssetError.ofFault key fault
      = if fault = .missing ∨ fault = .notDirectory then .notFound key.text else .store fault := by
  cases fault with
  | missing => rfl
  | notDirectory => rfl
  | isDirectory => rfl
  | nameTooLong => rfl
  | tooManyLinks => rfl
  | nulInPath => rfl
  | notText => rfl
  | stated description => rfl

namespace Files

variable {files : Files} {rootText text : String} {root place : Place} {key : AssetKey}
  {fault : Fault} {outcome : Except AssetError Asset}

/-- **Following a key from a directory** through all links ends with this. -/
def Finds (files : Files) (root : Place) (key : AssetKey) (end' : Except Fault Place) : Prop :=
  ∃ t, Leads files.tree (some maxPath) ⟨maxLinks, root, key.names.map Step.into⟩ t ∧
    Ends files.tree (some maxPath) t end'

theorem finds_iff {end' : Except Fault Place} : files.Finds root key end' ↔
    walk files.tree (some maxPath) maxLinks root (key.names.map Step.into) = end' :=
  (walk_eq_iff (t := ⟨maxLinks, root, key.names.map Step.into⟩)).symm

/-- **Where a key leads there is no link**, and where it was followed from there is a directory. -/
theorem Finds.stands (h : files.Finds root key (.ok place)) :
    files.tree.IsDirectory root ∧ files.tree.IsSolid place := by
  obtain ⟨t, hleads, hends⟩ := h
  obtain ⟨name, names, hnames⟩ := List.exists_cons_of_ne_nil key.names_ne_nil
  have hinto : key.names.map Step.into = .into name :: names.map Step.into := by
    rw [hnames, List.map_cons]
  cases hends with
  | arrives => exact hleads.stands hinto (hinto ▸ List.cons_ne_nil _ _)

/-- The faults that can be met under a name. -/
theorem Meets.fault_cases {tree : Node} {limit? : Option Nat} {name : String} {rest : List Step}
    (h : Meets tree limit? place name rest (.error fault)) :
    (fault = .missing ∨ fault = .notDirectory) ∨ fault = .nameTooLong := by
  cases h with
  | overlong _ => exact .inr rfl
  | cramped _ _ _ _ => exact .inr rfl
  | noDirectory _ _ _ _ => exact .inl (.inr rfl)
  | refused _ _ hrefuses =>
    cases hrefuses with
    | blocked _ => exact .inl (.inr rfl)
    | long _ _ => exact .inr rfl
    | missing _ _ _ => exact .inl (.inl rfl)

/-- The faults that can be met on the way. -/
theorem Finds.fault_cases (h : files.Finds root key (.error fault)) :
    (fault = .missing ∨ fault = .notDirectory) ∨
      (fault = .nameTooLong ∨ fault = .tooManyLinks ∨ fault = .nulInPath) := by
  obtain ⟨t, -, hends⟩ := h
  cases hends with
  | stopped hmeets => exact hmeets.fault_cases.imp_right .inl
  | tired _ => exact .inr (.inr (.inl rfl))
  | astray _ hreads =>
    unfold Route.ofString at hreads
    dsimp only at hreads
    split at hreads
    · cases hreads
      exact .inl (.inl rfl)
    split at hreads
    · cases hreads
      exact .inr (.inr (.inr rfl))
    · cases hreads

/-! ## The verdict on a key -/

/-- **What becomes of a text as a key**, and the answer to it. -/
inductive Verdict (files : Files) (root : Place) (text : String) :
    Except AssetError Asset → Prop
  /-- It is no key. -/
  | malformed {defect : KeyDefect} (reads : AssetKey.ofString text = .error defect) :
      Verdict files root text (.error (.badKey defect))
  /-- An entry is missing on the way, or something on the way is no directory. -/
  | missing {key : AssetKey} {fault : Fault} (reads : AssetKey.ofString text = .ok key)
      (finds : files.Finds root key (.error fault))
      (isAbsence : fault = .missing ∨ fault = .notDirectory) :
      Verdict files root text (.error (.notFound key.text))
  /-- The way ends for another reason. -/
  | fails {key : AssetKey} {fault : Fault} (reads : AssetKey.ofString text = .ok key)
      (finds : files.Finds root key (.error fault))
      (isFailure : ¬ (fault = .missing ∨ fault = .notDirectory)) :
      Verdict files root text (.error (.store fault))
  /-- It leads out of the root. -/
  | outside {key : AssetKey} {place : Place} (reads : AssetKey.ofString text = .ok key)
      (finds : files.Finds root key (.ok place)) (outside : ¬ root <+: place) :
      Verdict files root text (.error .outsideRoot)
  /-- It leads to a directory. -/
  | noFile {key : AssetKey} {place : Place} (reads : AssetKey.ofString text = .ok key)
      (finds : files.Finds root key (.ok place)) (inside : root <+: place)
      (stands : files.tree.IsDirectory place) :
      Verdict files root text (.error (.notFound key.text))
  /-- It leads to a regular file. -/
  | served {key : AssetKey} {place : Place} {bytes : ByteArray}
      (reads : AssetKey.ofString text = .ok key) (finds : files.Finds root key (.ok place))
      (inside : root <+: place) (stands : files.tree.at? place = some (.file bytes)) :
      Verdict files root text (.ok ⟨key, root, place, bytes⟩)

/-- What the files say about a key below a root that is there. -/
theorem sight_eq (hroot : files.canonical rootText = .ok root) (key : AssetKey) :
    files.sight rootText key
      = ⟨.ok root, walk files.tree (some maxPath) maxLinks root (key.names.map Step.into),
        walk files.tree (some maxPath) maxLinks root (key.names.map Step.into)
          >>= files.content⟩ := by
  rw [sight, hroot]
  rfl

/-- A fetch of a key is decided by what the files say about it. -/
theorem fetch_of_reads (hroot : files.canonical rootText = .ok root)
    (hreads : AssetKey.ofString text = .ok key) {end' : Except Fault Place}
    (hfinds : files.Finds root key end') : files.fetch rootText text
      = Asset.ofSighting key ⟨.ok root, end', end' >>= files.content⟩ := by
  rw [fetch, hreads]
  dsimp only
  rw [sight_eq hroot, finds_iff.1 hfinds]

/-- **The verdict is what a fetch says.** -/
theorem Verdict.fetch_eq (hroot : files.canonical rootText = .ok root)
    (h : files.Verdict root text outcome) : files.fetch rootText text = outcome := by
  cases h with
  | malformed hreads =>
    rw [fetch, hreads]
    rfl
  | missing hreads hfinds habsence =>
    rw [fetch_of_reads hroot hreads hfinds]
    show Except.error (AssetError.ofFault _ _) = _
    rw [AssetError.ofFault_eq, if_pos habsence]
  | fails hreads hfinds hfailure =>
    rw [fetch_of_reads hroot hreads hfinds]
    show Except.error (AssetError.ofFault _ _) = _
    rw [AssetError.ofFault_eq, if_neg hfailure]
  | outside hreads hfinds houtside =>
    rw [fetch_of_reads hroot hreads hfinds]
    exact if_neg fun hinside => houtside (List.isPrefixOf_iff_prefix.1 hinside)
  | @noFile key place hreads hfinds hinside hstands =>
    obtain ⟨entries, hstands⟩ := hstands
    have hcontent : files.content place = .error .isDirectory := by rw [content, hstands]
    rw [fetch_of_reads hroot hreads hfinds]
    show Asset.ofSighting key ⟨.ok root, .ok place, files.content place⟩ = _
    rw [hcontent]
    exact if_pos (List.isPrefixOf_iff_prefix.2 hinside)
  | @served key place bytes hreads hfinds hinside hstands =>
    have hcontent : files.content place = .ok bytes := by rw [content, hstands]
    rw [fetch_of_reads hroot hreads hfinds]
    show Asset.ofSighting key ⟨.ok root, .ok place, files.content place⟩ = _
    rw [hcontent]
    exact if_pos (List.isPrefixOf_iff_prefix.2 hinside)

/-- A resolution of a key is decided by the same, but for the bytes. -/
theorem resolve_of_fault (hroot : files.canonical rootText = .ok root)
    (hfinds : files.Finds root key (.error fault)) :
    files.resolve rootText key = .error (.ofFault key fault) := by
  rw [resolve, hroot]
  dsimp only
  rw [finds_iff.1 hfinds]

theorem resolve_of_place (hroot : files.canonical rootText = .ok root)
    (hfinds : files.Finds root key (.ok place)) : files.resolve rootText key
      = if root.isPrefixOf place then
          match files.metadata place with
          | .error fault => .error (.ofFault key fault)
          | .ok about => if about.isFile then .ok place else .error (.notFound key.text)
        else .error .outsideRoot := by
  have hwalk := finds_iff.1 hfinds
  cases hinside : root.isPrefixOf place with
  | false => simp only [resolve, hroot, hwalk, hinside, Bool.false_eq_true, if_false]
  | true => cases hmetadata : files.metadata place <;> simp only [resolve, hroot, hwalk, hinside,
      hmetadata, if_true]

/-- A key that is not resolved has no metadata. -/
theorem stat_of_error (hreads : AssetKey.ofString text = .ok key) {e : AssetError}
    (hresolve : files.resolve rootText key = .error e) : files.stat rootText text = .error e := by
  rw [stat, hreads]
  dsimp only
  rw [hresolve]

/-- **What is told of an asset is told in the same cases.** -/
theorem Verdict.stat_eq (hroot : files.canonical rootText = .ok root)
    (h : files.Verdict root text outcome) :
    files.stat rootText text = outcome.map Asset.info := by
  cases h with
  | malformed hreads =>
    rw [stat, hreads]
    rfl
  | missing hreads hfinds habsence =>
    refine stat_of_error hreads ?_
    rw [resolve_of_fault hroot hfinds, AssetError.ofFault_eq, if_pos habsence]
  | fails hreads hfinds hfailure =>
    refine stat_of_error hreads ?_
    rw [resolve_of_fault hroot hfinds, AssetError.ofFault_eq, if_neg hfailure]
  | outside hreads hfinds houtside =>
    refine stat_of_error hreads ?_
    rw [resolve_of_place hroot hfinds]
    exact if_neg fun hinside => houtside (List.isPrefixOf_iff_prefix.1 hinside)
  | @noFile key place hreads hfinds hinside hstands =>
    obtain ⟨entries, hstands⟩ := hstands
    have hmetadata : files.metadata place = .ok ⟨false, 0⟩ := by rw [metadata, hstands]
    refine stat_of_error hreads ?_
    rw [resolve_of_place hroot hfinds, if_pos (List.isPrefixOf_iff_prefix.2 hinside), hmetadata]
    rfl
  | @served key place bytes hreads hfinds hinside hstands =>
    have hmetadata : files.metadata place = .ok ⟨true, bytes.size⟩ := by rw [metadata, hstands]
    have hresolve : files.resolve rootText key = .ok place := by
      rw [resolve_of_place hroot hfinds, if_pos (List.isPrefixOf_iff_prefix.2 hinside), hmetadata]
      rfl
    rw [stat, hreads]
    dsimp only
    rw [hresolve]
    dsimp only
    rw [hmetadata]
    rfl

/-- **There is always a verdict.** -/
theorem exists_verdict (files : Files) (root : Place) (text : String) :
    ∃ outcome, files.Verdict root text outcome := by
  cases hreads : AssetKey.ofString text with
  | error defect => exact ⟨_, .malformed hreads⟩
  | ok key =>
    cases hend : walk files.tree (some maxPath) maxLinks root (key.names.map Step.into) with
    | error fault =>
      have hfinds := finds_iff.2 hend
      by_cases habsence : fault = .missing ∨ fault = .notDirectory
      · exact ⟨_, .missing hreads hfinds habsence⟩
      · exact ⟨_, .fails hreads hfinds habsence⟩
    | ok place =>
      have hfinds := finds_iff.2 hend
      by_cases hinside : root <+: place
      · obtain ⟨node, hstands, hsolid⟩ := hfinds.stands.2
        cases node with
        | file bytes => exact ⟨_, .served hreads hfinds hinside hstands⟩
        | directory entries => exact ⟨_, .noFile hreads hfinds hinside ⟨entries, hstands⟩⟩
        | link target => exact absurd rfl (hsolid target)
      · exact ⟨_, .outside hreads hfinds hinside⟩

/-- **A fetch answers with the verdict**, and there is no other. -/
theorem fetch_eq_iff (hroot : files.canonical rootText = .ok root) :
    files.fetch rootText text = outcome ↔ files.Verdict root text outcome := by
  constructor
  · rintro rfl
    obtain ⟨outcome, hverdict⟩ := files.exists_verdict root text
    rwa [hverdict.fetch_eq hroot]
  · exact Verdict.fetch_eq hroot

/-! ## Four answers -/

theorem verdict_ok_iff {asset : Asset} : files.Verdict root text (.ok asset) ↔
    ∃ key place bytes, key.text = text ∧ files.Finds root key (.ok place) ∧ root <+: place ∧
      place ≠ root ∧ files.tree.at? place = some (.file bytes) ∧
      asset = ⟨key, root, place, bytes⟩ := by
  constructor
  · intro h
    cases h with
    | @served key place bytes hreads hfinds hinside hstands =>
      refine ⟨key, place, bytes, AssetKey.ofString_eq_ok_iff.1 hreads, hfinds, hinside, ?_,
        hstands, rfl⟩
      -- the root is a directory, as a step was taken in it
      rintro rfl
      obtain ⟨entries, hdirectory⟩ := hfinds.stands.1
      rw [hdirectory] at hstands
      cases hstands
  · rintro ⟨key, place, bytes, htext, hfinds, hinside, -, hstands, rfl⟩
    exact .served (AssetKey.ofString_eq_ok_iff.2 htext) hfinds hinside hstands

theorem verdict_badKey_iff {defect : KeyDefect} :
    files.Verdict root text (.error (.badKey defect)) ↔
      AssetKey.ofString text = .error defect := by
  constructor
  · intro h
    cases h with
    | malformed hreads => exact hreads
  · exact .malformed

theorem verdict_outsideRoot_iff : files.Verdict root text (.error .outsideRoot) ↔
    ∃ key place, key.text = text ∧ files.Finds root key (.ok place) ∧ ¬ root <+: place := by
  constructor
  · intro h
    cases h with
    | @outside key place hreads hfinds houtside =>
      exact ⟨key, place, AssetKey.ofString_eq_ok_iff.1 hreads, hfinds, houtside⟩
  · rintro ⟨key, place, htext, hfinds, houtside⟩
    exact .outside (AssetKey.ofString_eq_ok_iff.2 htext) hfinds houtside

theorem verdict_notFound_iff : files.Verdict root text (.error (.notFound text)) ↔
    ∃ key, key.text = text ∧
      (files.Finds root key (.error .missing) ∨ files.Finds root key (.error .notDirectory) ∨
        ∃ place, files.Finds root key (.ok place) ∧ root <+: place ∧
          ∀ bytes, files.tree.at? place ≠ some (.file bytes)) := by
  constructor
  · generalize hanswer : Except.error (AssetError.notFound text) = outcome
    intro h
    cases h with
    | missing hreads hfinds habsence =>
      refine ⟨_, AssetKey.ofString_eq_ok_iff.1 hreads, ?_⟩
      rcases habsence with rfl | rfl
      · exact .inl hfinds
      · exact .inr (.inl hfinds)
    | noFile hreads hfinds hinside hstands =>
      obtain ⟨entries, hstands⟩ := hstands
      refine ⟨_, AssetKey.ofString_eq_ok_iff.1 hreads, .inr (.inr ⟨_, hfinds, hinside, ?_⟩)⟩
      intro bytes hfile
      rw [hstands] at hfile
      cases hfile
    | malformed _ => cases hanswer
    | fails _ _ _ => cases hanswer
    | outside _ _ _ => cases hanswer
    | served _ _ _ _ => cases hanswer
  · rintro ⟨key, rfl, hways⟩
    have hreads : AssetKey.ofString key.text = .ok key := AssetKey.ofString_eq_ok_iff.2 rfl
    rcases hways with hfinds | hfinds | ⟨place, hfinds, hinside, hnoFile⟩
    · exact .missing hreads hfinds (.inl rfl)
    · exact .missing hreads hfinds (.inr rfl)
    · obtain ⟨node, hstands, hsolid⟩ := hfinds.stands.2
      cases node with
      | file bytes => exact absurd hstands (hnoFile bytes)
      | directory entries => exact .noFile hreads hfinds hinside ⟨entries, hstands⟩
      | link target => exact absurd rfl (hsolid target)

theorem verdict_store_iff : files.Verdict root text (.error (.store fault)) ↔
    ∃ key, key.text = text ∧ files.Finds root key (.error fault) ∧
      fault ≠ .missing ∧ fault ≠ .notDirectory := by
  constructor
  · intro h
    cases h with
    | @fails key _ hreads hfinds hfailure =>
      exact ⟨key, AssetKey.ofString_eq_ok_iff.1 hreads, hfinds, not_or.1 hfailure⟩
  · rintro ⟨key, htext, hfinds, hfailure⟩
    exact .fails (AssetKey.ofString_eq_ok_iff.2 htext) hfinds (not_or.2 hfailure)

/-- **Which answer a text has**, where the root is at a place without links. Every text that is the
text of a key follows the grammar of keys. -/
structure IsClassified (files : Files) (rootText : String) (root : Place) (text : String) :
    Prop where
  /-- A regular file is served if the key leads to it and it lies below the root, name by name. -/
  served : ∀ asset, files.fetch rootText text = .ok asset ↔
    ∃ key place bytes, key.text = text ∧ files.Finds root key (.ok place) ∧ root <+: place ∧
      place ≠ root ∧ files.tree.at? place = some (.file bytes) ∧
      asset = ⟨key, root, place, bytes⟩
  /-- A key is invalid if it is malformed or leads to a place that is not below the root. -/
  invalid : ((∃ defect, files.fetch rootText text = .error (.badKey defect)) ∨
      files.fetch rootText text = .error .outsideRoot) ↔
    ¬ AssetKey.IsWellFormed text.toList ∨
      ∃ key place, key.text = text ∧ files.Finds root key (.ok place) ∧ ¬ root <+: place
  /-- Nothing is found if an entry is missing on the way, if something on it is no directory, or if
  what is found below the root is no regular file. -/
  notFound : files.fetch rootText text = .error (.notFound text) ↔
    ∃ key, key.text = text ∧
      (files.Finds root key (.error .missing) ∨ files.Finds root key (.error .notDirectory) ∨
        ∃ place, files.Finds root key (.ok place) ∧ root <+: place ∧
          ∀ bytes, files.tree.at? place ≠ some (.file bytes))
  /-- The store has failed if the way ends for another reason, -/
  failed : ∀ fault, files.fetch rootText text = .error (.store fault) ↔
    ∃ key, key.text = text ∧ files.Finds root key (.error fault) ∧
      fault ≠ .missing ∧ fault ≠ .notDirectory
  /-- and these are the others: a name or a path is too long, there are too many links, or a link
  says something that is no path. -/
  faults : ∀ fault, files.fetch rootText text = .error (.store fault) →
    fault = .nameTooLong ∨ fault = .tooManyLinks ∨ fault = .nulInPath
  /-- There are no other answers. -/
  answers : (∃ asset, files.fetch rootText text = .ok asset) ∨
    (∃ defect, files.fetch rootText text = .error (.badKey defect)) ∨
    files.fetch rootText text = .error .outsideRoot ∨
    files.fetch rootText text = .error (.notFound text) ∨
    ∃ fault, files.fetch rootText text = .error (.store fault)
  /-- A text that is not malformed is the text of a key. -/
  wellFormed : AssetKey.IsWellFormed text.toList ↔ ∃ key : AssetKey, key.text = text
  /-- What is told of an asset is told in the same cases: its key, which decides on the content
  type, and how many bytes there are. -/
  told : files.stat rootText text = (files.fetch rootText text).map Asset.info

/-- **Every text is classified** by where it leads: an asset is served, a key is invalid, nothing is
found, or the store has failed, each exactly if what the files hold says so. The files may hold any
tree of directories, regular files and links. -/
theorem fetch_isClassified (files : Files) (rootText text : String) (root : Place)
    (hroot : files.canonical rootText = .ok root) : IsClassified files rootText root text := by
  have hanswer (outcome : Except AssetError Asset) :
      files.fetch rootText text = outcome ↔ files.Verdict root text outcome := fetch_eq_iff hroot
  obtain ⟨outcome, hverdict⟩ := files.exists_verdict root text
  refine
    { served := fun asset => (hanswer _).trans verdict_ok_iff
      invalid := ?_
      notFound := (hanswer _).trans verdict_notFound_iff
      failed := fun fault => (hanswer _).trans verdict_store_iff
      faults := fun fault hfault => ?_
      answers := ?_
      wellFormed := ?_
      told := ?_ }
  · rw [← AssetKey.exists_defect_iff, hanswer, verdict_outsideRoot_iff]
    exact or_congr_left (exists_congr fun defect => (hanswer _).trans verdict_badKey_iff)
  · obtain ⟨key, -, hfinds, hmissing, hdirectory⟩ :=
      verdict_store_iff.1 ((hanswer _).1 hfault)
    exact hfinds.fault_cases.resolve_left (not_or.2 ⟨hmissing, hdirectory⟩)
  · have hfetch := hverdict.fetch_eq hroot
    cases hverdict with
    | served _ _ _ _ => exact .inl ⟨_, hfetch⟩
    | malformed _ => exact .inr (.inl ⟨_, hfetch⟩)
    | outside _ _ _ => exact .inr (.inr (.inl hfetch))
    | missing hreads _ _ =>
      rw [AssetKey.ofString_eq_ok_iff.1 hreads] at hfetch
      exact .inr (.inr (.inr (.inl hfetch)))
    | noFile hreads _ _ _ =>
      rw [AssetKey.ofString_eq_ok_iff.1 hreads] at hfetch
      exact .inr (.inr (.inr (.inl hfetch)))
    | fails _ _ _ => exact .inr (.inr (.inr (.inr ⟨_, hfetch⟩)))
  · refine ⟨fun hformed => ?_, fun ⟨key, htext⟩ => AssetKey.isWellFormed_of_text htext⟩
    exact ⟨⟨text.toList, KeyDefect.find?_eq_none_iff.2 hformed⟩, String.ofList_toList⟩
  · rw [hverdict.fetch_eq hroot]
    exact hverdict.stat_eq hroot

/-! ### A shelf beside another

The root is given as a link. Beside it is a directory whose name goes on where that of the root
ends. -/

/-- A root with a file, with a link to it that leaves the root on its way, and with one that leads
to the next directory. -/
def shelf : Files :=
  ⟨.directory [("srv", .directory [("pub", .link "assets"),
    ("assets", .directory [("a.png", .file ⟨#[1, 2]⟩), ("alias.png", .link "../pub/a.png"),
      ("next.txt", .link "../assets2/x.txt")]),
    ("assets2", .directory [("x.txt", .file .empty)])])], ["srv"]⟩

/-- The link that comes back is served, and the one that leaves the root is not. -/
theorem fetch_shelf :
    shelf.canonical "pub" = .ok ["srv", "assets"] ∧
      (∃ asset, shelf.fetch "pub" "alias.png" = .ok asset ∧ asset.bytes = ⟨#[1, 2]⟩) ∧
      (∀ asset, shelf.fetch "pub" "next.txt" ≠ .ok asset) ∧
      ((∃ defect, shelf.fetch "pub" "next.txt" = .error (.badKey defect)) ∨
        shelf.fetch "pub" "next.txt" = .error .outsideRoot) := by
  have hrootRoute : Route.ofString "pub" = .ok ⟨false, [.into "pub"]⟩ := by decide +kernel
  have hpubRoute : Route.ofString "assets" = .ok ⟨false, [.into "assets"]⟩ := by decide +kernel
  have hpub (rest : List Step) (hasks : Files.asksForDirectory rest = false) :
      meet shelf.tree (some maxPath) ["srv"] "pub" rest = .ok (some "assets") := by
    simp only [meet, hasks]
    decide +kernel
  have hroot : shelf.canonical "pub" = .ok ["srv", "assets"] := by
    have hassets : meet shelf.tree (some maxPath) ["srv"] "assets" [] = .ok none := by
      decide +kernel
    rw [canonical, hrootRoute]
    show walk shelf.tree (some maxPath) maxLinks ["srv"] [.into "pub"] = _
    simp [walk, hpub [] rfl, maxLinks, hpubRoute, hassets]
  have halias := fetch_isClassified shelf "pub" "alias.png" _ hroot
  have hnext := fetch_isClassified shelf "pub" "next.txt" _ hroot
  let aliasKey : AssetKey := ⟨"alias.png".toList, by decide +kernel⟩
  let nextKey : AssetKey := ⟨"next.txt".toList, by decide +kernel⟩
  have haliasSteps : aliasKey.names.map Step.into = [.into "alias.png"] := by decide +kernel
  have hnextSteps : nextKey.names.map Step.into = [.into "next.txt"] := by decide +kernel
  have haliasRoute : Route.ofString "../pub/a.png"
      = .ok ⟨false, [.up, .into "pub", .into "a.png"]⟩ := by decide +kernel
  have hnextRoute : Route.ofString "../assets2/x.txt"
      = .ok ⟨false, [.up, .into "assets2", .into "x.txt"]⟩ := by decide +kernel
  have haliasFinds : shelf.Finds ["srv", "assets"] aliasKey (.ok ["srv", "assets", "a.png"]) := by
    have hlink : meet shelf.tree (some maxPath) ["srv", "assets"] "alias.png" []
        = .ok (some "../pub/a.png") := by decide +kernel
    have hassets : meet shelf.tree (some maxPath) ["srv"] "assets" [.into "a.png"] = .ok none := by
      decide +kernel
    have hfile : meet shelf.tree (some maxPath) ["srv", "assets"] "a.png" [] = .ok none := by
      decide +kernel
    rw [finds_iff, haliasSteps]
    simp [walk, hlink, maxLinks, haliasRoute, hpub [.into "a.png"] rfl, hpubRoute, hassets, hfile]
  have hnextFinds : shelf.Finds ["srv", "assets"] nextKey (.ok ["srv", "assets2", "x.txt"]) := by
    have hlink : meet shelf.tree (some maxPath) ["srv", "assets"] "next.txt" []
        = .ok (some "../assets2/x.txt") := by decide +kernel
    have hbeside : meet shelf.tree (some maxPath) ["srv"] "assets2" [.into "x.txt"] = .ok none := by
      decide +kernel
    have hfile : meet shelf.tree (some maxPath) ["srv", "assets2"] "x.txt" [] = .ok none := by
      decide +kernel
    rw [finds_iff, hnextSteps]
    simp [walk, hlink, maxLinks, hnextRoute, hbeside, hfile]
  have hinvalid := hnext.invalid.2 (.inr ⟨nextKey, _, String.ofList_toList, hnextFinds, by decide⟩)
  refine ⟨hroot, ⟨_, (halias.served _).2 ⟨aliasKey, _, ⟨#[1, 2]⟩, String.ofList_toList, haliasFinds,
    by decide, by decide, rfl, rfl⟩, rfl⟩, fun asset hasset => ?_, hinvalid⟩
  rw [hasset] at hinvalid
  rcases hinvalid with ⟨defect, hdefect⟩ | houtside
  · cases hdefect
  · cases houtside

end Files

end SafePreview
