import SafePreview.Files.Route
import SafePreview.Proofs.Asset.Keys
import SafePreview.Proofs.Text.Bytes

/-!
# Keys as paths

A key is made into a path segment by segment, and the path is put behind that of a root. Both are
done by `Files.join`, which has two ways to go wrong: a path that starts at the root of the tree
replaces what it is put behind, and a step upwards takes it back. Neither can happen with the
segments of a key (`Files.components_join`). The path of a key is its text, its components are the
names that the key goes down through, and behind any root they come after the components of that
root.

The grammar of keys is said once more here, in terms of the text: the segments are not looked for in
it, it is put together from them.
-/

namespace SafePreview

namespace Files

variable {base root path rest part : List Char}

/-! ## Paths -/

/-- **A path put behind another**, with a slash between them if there is none. A path that starts at
the root of the tree replaces the other. -/
def join (base path : List Char) : List Char :=
  if path.head? = some '/' then path
  else if base = [] ∨ base.getLast? = some '/' then base ++ path
  else base ++ '/' :: path

/-- What the parts of a path ask for, but to stay where one is. -/
def moves (path : List Char) : List Step :=
  ((path.splitOn '/').map Step.ofPart).filter (· ≠ .here)

/-- **The components of a path.** A part that asks to stay is none, unless the path starts with
it. -/
def components (path : List Char) : Route where
  absolute := path.head? = some '/'
  steps := (if (path.splitOn '/').head? = some ['.'] then [.here] else []) ++ moves path

/-- What comes behind a slash comes behind what is in front of it. -/
theorem components_append_slash (base rest : List Char) :
    components (base ++ '/' :: rest)
      = ⟨(base ++ ['/']).head? = some '/', (components base).steps ++ moves rest⟩ := by
  have hhead : (base ++ '/' :: rest).head? = (base ++ ['/']).head? := by
    rw [List.head?_append, List.head?_append]
    rfl
  rw [components, components, moves, moves, List.splitOn_append_cons_self, hhead,
    List.head?_append_of_ne_nil _ (List.splitOn_ne_nil '/' base), List.map_append,
    List.filter_append, List.append_assoc]
  rfl

/-- **A relative path behind another goes on from there**, if it does not start with a dot alone. -/
theorem components_join (root : List Char) (hrelative : path.head? ≠ some '/')
    (hdot : (path.splitOn '/').head? ≠ some ['.']) :
    components (join root path)
      = ⟨(components root).absolute, (components root).steps ++ moves path⟩ := by
  rw [join, if_neg hrelative]
  split
  · rename_i hplain
    rcases hplain with rfl | hslash
    · rw [List.nil_append, components, if_neg hdot, decide_eq_false hrelative]
      rfl
    · -- the slash is there already, and behind it stood nothing
      obtain ⟨base, rfl⟩ := List.getLast?_eq_some_iff.1 hslash
      have hnothing : moves [] = [] := by decide
      rw [List.append_assoc, List.singleton_append, components_append_slash,
        components_append_slash, hnothing, List.append_nil]
  · rename_i hplain
    have hroot : root ≠ [] := fun hnil => hplain (.inl hnil)
    rw [components_append_slash, List.head?_append_of_ne_nil _ hroot]
    rfl

end Files

namespace AssetKey

open Files (Route Step components join)

variable {text : String} {key : AssetKey} {segment : List Char}

/-! ## The path of a key -/

/-- **The path of a key**: its segments, each put behind those before it. -/
def relativePath (key : AssetKey) : List Char := key.segments.foldl join []

theorem isSegment_of_mem (h : segment ∈ key.segments) : IsSegment segment :=
  (KeyDefect.find?_eq_none_iff.1 key.sound).2 segment h

theorem IsSegment.slash_notMem (h : IsSegment segment) : '/' ∉ segment := fun hmem =>
  absurd (h.2.2 '/' hmem) (by decide)

theorem nil_notMem_segments (key : AssetKey) : [] ∉ key.segments := fun hmem =>
  (isSegment_of_mem hmem).1 rfl

/-- A segment does not start with a slash, -/
theorem IsSegment.head?_ne (h : IsSegment segment) : segment.head? ≠ some '/' := fun hhead =>
  h.slash_notMem (List.mem_of_head? hhead)

/-- and nothing that ends in one does. -/
theorem IsSegment.getLast?_append_ne (h : IsSegment segment) (base : List Char) :
    (base ++ segment).getLast? ≠ some '/' := by
  rw [List.getLast?_append, List.getLast?_eq_some_getLast h.1, Option.some_or]
  intro hlast
  exact h.slash_notMem (Option.some_inj.1 hlast ▸ List.getLast_mem h.1)

/-- Segments behind each other are the text with slashes between them. -/
theorem foldl_join {base : List Char} {segments : List (List Char)} (hbase : base ≠ [])
    (hslash : base.getLast? ≠ some '/') (h : ∀ segment ∈ segments, IsSegment segment) :
    segments.foldl join base = ['/'].intercalate (base :: segments) := by
  induction segments generalizing base with
  | nil => exact List.intercalate_singleton.symm
  | cons segment segments ih =>
    obtain ⟨hsegment, hrest⟩ := List.forall_mem_cons.1 h
    have hjoin : join base segment = base ++ ['/'] ++ segment := by
      rw [join, if_neg hsegment.head?_ne, if_neg fun hplain => hplain.elim hbase hslash,
        List.append_assoc]
      rfl
    have hne : base ++ ['/'] ++ segment ≠ [] := List.append_ne_nil_of_right_ne_nil _ hsegment.1
    rw [List.foldl_cons, hjoin, ih hne (hsegment.getLast?_append_ne _) hrest]
    cases segments with
    | nil => simp only [List.intercalate_cons_cons, List.intercalate_singleton]
    | cons next segments => simp only [List.intercalate_cons_cons, List.append_assoc]

/-- **The path of a key is its text.** -/
theorem relativePath_eq (key : AssetKey) : key.relativePath = key.chars := by
  have hjoined : ['/'].intercalate key.segments = key.chars := List.intercalate_splitOn '/'
  have hsegments : ∀ segment ∈ key.segments, IsSegment segment := fun _ => isSegment_of_mem
  rw [← hjoined, relativePath]
  cases hall : key.segments with
  | nil => exact absurd hall (List.splitOn_ne_nil '/' key.chars)
  | cons first rest =>
    obtain ⟨hfirst, hrest⟩ := List.forall_mem_cons.1 (hall ▸ hsegments)
    have hstart : join [] first = first := by
      rw [join, if_neg hfirst.head?_ne, if_pos (.inl rfl), List.nil_append]
    rw [List.foldl_cons, hstart, foldl_join hfirst.1 (hfirst.getLast?_append_ne []) hrest]

/-- **A segment asks for a step down.** -/
theorem IsSegment.ofPart_eq (h : IsSegment segment) :
    Step.ofPart segment = .into (String.ofList segment) := by
  have hhere : ¬ (segment = [] ∨ segment = ['.']) := by
    rintro (rfl | rfl)
    · exact h.1 rfl
    · exact h.2.1 rfl
  have hup : segment ≠ ['.', '.'] := by
    rintro rfl
    exact h.2.1 rfl
  rw [Step.ofPart, if_neg hhere, if_neg hup]

/-- So the steps to take for the text of a key are those that it is followed by. -/
theorem map_ofPart_splitOn (key : AssetKey) :
    (key.chars.splitOn '/').map Step.ofPart = key.names.map Step.into := by
  rw [names, List.map_map]
  exact List.map_congr_left fun segment hmem => (isSegment_of_mem hmem).ofPart_eq

/-- None of them is to stay. -/
theorem moves_chars (key : AssetKey) : Files.moves key.chars = key.names.map Step.into := by
  rw [Files.moves, map_ofPart_splitOn, List.filter_eq_self]
  exact List.forall_mem_map.2 fun name _ => rfl

/-- A key does not start with a slash, nor with a dot alone. -/
theorem head?_chars_ne (key : AssetKey) :
    key.chars.head? ≠ some '/' ∧ (key.chars.splitOn '/').head? ≠ some ['.'] := by
  constructor
  · intro hhead
    obtain ⟨rest, hrest⟩ := List.head?_eq_some_iff.1 hhead
    refine key.nil_notMem_segments ?_
    rw [segments, hrest, List.splitOn_cons_eq_if_modifyHead, if_pos (beq_self_eq_true '/')]
    exact List.mem_cons_self
  · intro hhead
    exact (isSegment_of_mem (List.mem_of_head? hhead)).2.1 rfl

/-- **A key is read as a relative path of its names**, wherever it is followed from. -/
theorem ofString_relativePath (key : AssetKey) :
    Route.ofString (String.ofList key.relativePath) = .ok ⟨false, key.names.map Step.into⟩ := by
  obtain ⟨-, hsegments⟩ := KeyDefect.find?_eq_none_iff.1 key.sound
  have hempty : key.chars ≠ [] := fun hnil => by
    refine key.nil_notMem_segments ?_
    rw [segments, hnil]
    exact List.mem_singleton_self []
  have hnul : ¬ key.chars.contains '\x00' = true := by
    rw [List.contains_iff_mem]
    exact fun hmem => absurd (KeyDefect.isKeyChar_of_mem hsegments hmem) (by decide)
  rw [relativePath_eq, Route.ofString]
  simp only [String.toList_ofList]
  rw [if_neg hempty, if_neg hnul, if_neg key.head?_chars_ne.1,
    decide_eq_false key.head?_chars_ne.1, map_ofPart_splitOn]

/-! ## The grammar -/

/-- The characters of keys are the letters and digits of ASCII and three marks. -/
theorem isKeyChar_iff {c : Char} :
    KeyDefect.isKeyChar c = true ↔ c.isAlphanum = true ∨ c ∈ ['.', '_', '-'] := by
  simp only [KeyDefect.isKeyChar, Text.isLetter_or_isDigit, Bool.or_eq_true, decide_eq_true_eq,
    List.mem_cons, List.not_mem_nil, or_false, or_assoc]

theorem isSegment_iff : IsSegment segment ↔ segment ≠ [] ∧ segment.head? ≠ some '.' ∧
    ∀ c ∈ segment, c.isAlphanum = true ∨ c ∈ ['.', '_', '-'] := by
  simp only [IsSegment, isKeyChar_iff]

/-- **The parts of a text are those that it is put together from**, if there is no slash in them. -/
theorem forall_isSegment_iff {cs : List Char} :
    (∀ segment ∈ cs.splitOn '/', IsSegment segment) ↔
      ∃ segments : List (List Char), segments ≠ [] ∧ cs = ['/'].intercalate segments ∧
        ∀ segment ∈ segments, IsSegment segment := by
  constructor
  · exact fun h => ⟨cs.splitOn '/', List.splitOn_ne_nil '/' cs,
      (List.intercalate_splitOn '/').symm, h⟩
  · rintro ⟨segments, hne, rfl, h⟩
    rwa [List.splitOn_intercalate '/' (fun segment hmem => (h segment hmem).slash_notMem) hne]

/-- A text with good parts has a byte at least. -/
theorem one_le_byteLength {cs : List Char} (h : ∀ segment ∈ cs.splitOn '/', IsSegment segment) :
    1 ≤ Text.byteLength cs := by
  cases cs with
  | nil => exact absurd rfl (h [] (List.mem_singleton_self [])).1
  | cons c cs => exact Nat.le_trans c.utf8Size_pos (Nat.le_add_right _ _)

/-- **Which texts are keys, and where a key leads as a path.** A text is read as a key exactly if it
has 1 to 512 bytes and is put together, with one slash between any two, from segments that are not
empty, have ASCII letters, digits and three marks only, and do not start with a dot. Its path is
relative and has a name for each segment, in order, which are the names that the key goes down
through. Behind any root these names come after the components of the root: they replace none of
them, and there is no step upwards among them. -/
theorem ofString_accepts_downward_paths :
    (∀ text : String, (∃ key, ofString text = .ok key) ↔
      (1 ≤ text.utf8ByteSize ∧ text.utf8ByteSize ≤ 512) ∧
        ∃ segments : List (List Char), segments ≠ [] ∧ text.toList = ['/'].intercalate segments ∧
          ∀ segment ∈ segments, segment ≠ [] ∧ segment.head? ≠ some '.' ∧
            ∀ c ∈ segment, c.isAlphanum = true ∨ c ∈ ['.', '_', '-']) ∧
    (∀ (text : String) (key : AssetKey), ofString text = .ok key →
      key.names.map String.toList = text.toList.splitOn '/' ∧
      Route.ofString (String.ofList key.relativePath) = .ok ⟨false, key.names.map Step.into⟩ ∧
      components key.relativePath = ⟨false, key.names.map Step.into⟩ ∧
      ∀ root, components (join root key.relativePath)
        = ⟨(components root).absolute, (components root).steps ++ key.names.map Step.into⟩) := by
  refine ⟨fun text => ?_, fun text key hread => ?_⟩
  · have hformed : (∃ key, ofString text = .ok key) ↔ IsWellFormed text.toList := by
      rw [← not_iff_not, ← exists_defect_iff]
      cases ofString text with
      | ok key => simp
      | error defect => simp
    rw [hformed, IsWellFormed, ← Text.byteLength_toList]
    simp only [← isSegment_iff, ← forall_isSegment_iff]
    exact ⟨fun h => ⟨⟨one_le_byteLength h.2, h.1⟩, h.2⟩, fun h => ⟨h.1.2, h.2⟩⟩
  · obtain ⟨hslash, hdot⟩ := key.head?_chars_ne
    refine ⟨?_, key.ofString_relativePath, ?_, fun root => ?_⟩
    · rw [← ofString_eq_ok_iff.1 hread, AssetKey.text, String.toList_ofList, names, List.map_map]
      exact (List.map_congr_left fun _ _ => String.toList_ofList).trans (List.map_id _)
    · rw [relativePath_eq, components, if_neg hdot, decide_eq_false hslash, moves_chars]
      rfl
    · rw [relativePath_eq, Files.components_join root hslash hdot, moves_chars]

/-- A key with a dot inside a segment, behind a root that is not in its shortest form. -/
theorem ofString_picture :
    ∃ key, ofString "img/cat.png" = .ok key ∧ key.names = ["img", "cat.png"] ∧
      components (join "../srv//assets/".toList key.relativePath)
        = ⟨false, [.up, .into "srv", .into "assets", .into "img", .into "cat.png"]⟩ := by
  have hread : ofString "img/cat.png" = .ok ⟨"img/cat.png".toList, by decide⟩ :=
    ofString_eq_ok_iff.2 String.ofList_toList
  refine ⟨_, hread, rfl, ?_⟩
  exact ((ofString_accepts_downward_paths.2 _ _ hread).2.2.2 _).trans (by decide)

end AssetKey

end SafePreview
