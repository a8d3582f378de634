import SafePreview.Proofs.Markup.Output
import SafePreview.Proofs.Markup.RawText

/-!
# The stream of tokens makes progress

The stream ends because what is left gets shorter, and it reads nothing twice because what has been
read is gone. A reader that holds a text and a place in it has to earn both, and not to cut the text
inside a character or look behind its end. It does, whatever the text (`exists_readAll`).

One call of the reader is compared with one step of the stream (`Cursor.Before.steps_next`). What a
call needs is `Cursor.Before`: the reader is where characters meet, with the text before it that the
stream has left. The two are out of step in one way. Behind the start tag of a raw-text element the
stream has passed over the content and the reader has not, which is why it keeps a name from one
call to the next. A call that gives a token leads to a reader of this kind again, farther on.

A `Run` is a row of such calls. What is said of the reads of a text is said of runs, by induction.
-/

namespace SafePreview.Markup

open Text (place? onward? Stands byteLength)

variable {s : String} {start i : Nat} {c : Char} {cs rest : List Char} {k : Cursor}
  {reads : List (Token × Cursor)}

/-! ## Steps -/

/-- **A reader with a text before it**: the text at its place, or what is left of it behind the
content that is to be passed over. -/
inductive Cursor.Before (s : String) : Cursor → List Char → Prop
  | markup {i : Nat} {cs : List Char} (h : Stands s i cs) : Before s ⟨i, none⟩ cs
  | rawText {name : List Char} {i : Nat} {cs : List Char} (hraw : isRawText name = true)
      (h : Stands s i cs) : Before s ⟨i, some name⟩ (skipRawText name cs)

theorem Cursor.Before.isValid (h : k.Before s cs) :
    String.Pos.Raw.IsValid s ⟨k.place⟩ := by
  cases h with
  | markup h => exact h.isValid
  | rawText _ h => exact h.isValid

theorem Cursor.Before.place_le (h : k.Before s cs) : k.place ≤ s.utf8ByteSize := by
  cases h with
  | markup h => exact h.le
  | rawText _ h => exact h.le

/-- **The reader comes to the text before it.** -/
theorem Cursor.Before.exists_arrive (h : k.Before s cs) :
    ∃ i, k.arrive s = some i ∧ Stands s i cs ∧ k.place ≤ i := by
  cases h with
  | markup h => exact ⟨_, rfl, h, Nat.le_refl _⟩
  | @rawText name i cs hraw h =>
    rw [Cursor.arrive]
    by_cases hends : name = ['p', 'l', 'a', 'i', 'n', 't', 'e', 'x', 't']
    · simp only [if_pos hends]
      rw [hends, skipRawText_plaintext]
      exact ⟨_, rfl, Stands.finish s, h.le⟩
    · simp only [if_neg hends]
      obtain ⟨j, hj, hbehind⟩ := exists_rawEndAt hraw hends h
      exact ⟨j, hj, hbehind, h.le_of_length_le hbehind (length_skipRawText name cs)⟩

/-- The element whose content is to be passed over behind a token. -/
def Token.rawText? : Token → Option (List Char)
  | .startTag name _ _ => if isRawText name then some name else none
  | _ => none

/-- **One step of the reader is one step of the stream**, from a place on: either both have no token
and the reader is at the end, or both have the same, the reader has moved, and it has the rest of
the stream before it. -/
inductive Steps (s : String) (start : Nat) :
    Option (Option Token × Cursor) → Option (Token × List Char) → Prop
  | ended : Steps s start (some (none, ⟨s.utf8ByteSize, none⟩)) none
  | token (t : Token) {i : Nat} {cs : List Char} (hlt : start < i)
      (h : Cursor.Before s ⟨i, t.rawText?⟩ cs) :
      Steps s start (some (some t, ⟨i, t.rawText?⟩)) (some (t, cs))

theorem readTag?_of_head?_ne (h : cs.head? ≠ some '/') :
    readTag? cs
      = (readAttributes? false (cs.dropWhile (!endsTagName ·))).map fun found =>
        (.startTag (lowerName (cs.takeWhile (!endsTagName ·))) found.1 found.2.1,
          if isRawText (lowerName (cs.takeWhile (!endsTagName ·))) then
            skipRawText (lowerName (cs.takeWhile (!endsTagName ·))) found.2.2
          else found.2.2) := by
  unfold readTag?
  split
  · exact absurd rfl h
  · rfl

/-- Behind a start tag the reader has to pass over what the stream leaves out. -/
theorem Cursor.before_behind_startTag (h : Stands s i cs) (name : List Char) :
    Cursor.Before s ⟨i, if isRawText name then some name else none⟩
      (if isRawText name then skipRawText name cs else cs) := by
  by_cases hraw : isRawText name = true
  · rw [if_pos hraw, if_pos hraw]
    exact .rawText hraw h
  · rw [if_neg hraw, if_neg hraw]
    exact .markup h

/-- **A tag is read by its bytes.** -/
theorem steps_tagAt (h : Stands s i ('<' :: cs)) (hle : start ≤ i) :
    Steps s start (tagAt s i) (readTag? cs) := by
  have hbehind : Stands s (i + 1) cs := h.succ (by decide)
  have htells := Text.tells_not_isByteOf ofAscii_endsTagName
  unfold tagAt
  simp only [hbehind.any_byte? (ofAscii_eq (c := '/') (by decide)), any_head?_eq,
    decide_eq_true_iff]
  by_cases hslash : cs.head? = some '/'
  · obtain ⟨rest, rfl⟩ := List.head?_eq_some_iff.1 hslash
    have hstart : Stands s (i + 2) rest := hbehind.succ (by decide)
    simp only [if_pos hslash, hstart.place?, hstart.walk htells, hstart.slice?_takeWhile,
      Option.bind_eq_bind, Option.bind_some, String.toList_ofList]
    have hattributes := hstart.dropWhile (!endsTagName ·)
    rw [readTag?]
    cases hread : readAttributes? false (rest.dropWhile (!endsTagName ·)) with
    | none =>
      rw [attributesAt_eq_none hattributes hread]
      exact .ended
    | some found =>
      obtain ⟨attributes, closes, behind⟩ := found
      obtain ⟨j, hat, hend, hlt⟩ := exists_attributesAt hattributes hread
      rw [hat]
      exact .token (.endTag _) (by omega) (.markup hend)
  · rw [readTag?_of_head?_ne hslash]
    simp only [if_neg hslash, hbehind.place?, hbehind.walk htells, hbehind.slice?_takeWhile,
      Option.bind_eq_bind, Option.bind_some, String.toList_ofList]
    have hattributes := hbehind.dropWhile (!endsTagName ·)
    cases hread : readAttributes? false (cs.dropWhile (!endsTagName ·)) with
    | none =>
      rw [attributesAt_eq_none hattributes hread]
      exact .ended
    | some found =>
      obtain ⟨attributes, closes, behind⟩ := found
      obtain ⟨j, hat, hend, hlt⟩ := exists_attributesAt hattributes hread
      rw [hat]
      exact .token (.startTag _ attributes closes) (by omega) (Cursor.before_behind_startTag hend _)

/-- The next token behind text that has been read. -/
def readToken? (text cs : List Char) : Option (Token × List Char) :=
  let found := readText cs
  if text ++ found.1 = [] then
    match found.2 with
    | [] => none
    | _ :: rest => readTag? rest
  else some (.text (text ++ found.1), found.2)

theorem next?_eq (cs : List Char) : next? cs = readToken? [] cs := rfl

/-- Text that is read next is text that has been read. -/
theorem readToken?_of_readText {text more : List Char}
    (h : readText cs = (more ++ (readText rest).1, (readText rest).2)) :
    readToken? text cs = readToken? (text ++ more) rest := by
  simp only [readToken?, h, List.append_assoc]

theorem readToken?_congr {text : List Char} (h : readText cs = readText rest) :
    readToken? text cs = readToken? text rest := by
  rw [readToken?, h, readToken?]

/-- What is done at a `<`. -/
theorem textAt_open (text : List Char) (h : Stands s i ('<' :: cs)) :
    textAt text s i = match Opening.of cs with
      | .literal => textAt (text ++ ['<']) s (i + 1)
      | .comment => (place? s (i + 4)).bind fun j =>
        (skipPastAt ['-', '-', '>'] s j).bind fun behind =>
          (onward? s i behind).bind fun j => textAt text s j
      | .ignored => (skipPastAt ['>'] s i).bind fun behind =>
        (onward? s i behind).bind fun j => textAt text s j
      | .tag => if text = [] then tagAt s i else some (some (.text text), ⟨i, none⟩) := by
  have hbehind : Stands s (i + 1) cs := h.succ (by decide)
  have hnone : ('<' :: cs).takeWhile (· ≠ '<') = [] := List.takeWhile_cons_of_neg (by decide)
  rw [textAt, if_pos h.lt_size, h.rest, ← openingAt_eq h]
  cases openingAt s i <;>
    simp only [Option.bind_eq_bind, Option.bind_some, String.toList_ofList, offset?_singleton,
      List.mem_cons_self, if_true, hnone, Text.byteLength_nil,
      hbehind.onward? (Nat.lt_succ_self i)]

/-- What is done at any other character. -/
theorem textAt_run (text : List Char) (h : Stands s i (c :: cs)) (hc : c ≠ '<') :
    textAt text s i
      = textAt (text ++ decode (c :: cs.takeWhile (· ≠ '<'))) s
          (i + byteLength (c :: cs.takeWhile (· ≠ '<'))) := by
  have htake : (c :: cs).takeWhile (· ≠ '<') = c :: cs.takeWhile (· ≠ '<') :=
    List.takeWhile_cons_of_pos (decide_eq_true hc)
  have hslice := (Stands.ofList (c :: cs)).slice?_takeWhile (· ≠ '<')
  have hbehind := h.dropWhile (· ≠ '<')
  rw [Nat.zero_add] at hslice
  rw [htake] at hslice hbehind
  rw [textAt, if_pos h.lt_size, h.rest]
  simp only [Option.bind_eq_bind, Option.bind_some, String.toList_ofList, offset?_singleton, htake]
  by_cases hmem : '<' ∈ c :: cs
  · rw [if_pos hmem]
    have hpos := Text.byteLength_pos (List.cons_ne_nil c (cs.takeWhile (· ≠ '<')))
    generalize byteLength (c :: cs.takeWhile (· ≠ '<')) = k at *
    cases k with
    | zero => exact absurd hpos (Nat.lt_irrefl 0)
    | succ k =>
      simp only [hslice, decodeAt_ofList, hbehind.onward? (Nat.lt_add_of_pos_right hpos),
        Option.bind_some]
  · have hall : (c :: cs).takeWhile (· ≠ '<') = c :: cs :=
      List.takeWhile_eq_self_iff.2 (forall_ne_of_notMem hmem)
    rw [if_neg hmem, ← htake, hall, h.add_byteLength]
    simp only [decodeAt_ofList, (Stands.finish s).onward? h.lt_size, Option.bind_some]

/-- A comment opens with two dashes. -/
theorem Opening.exists_of_eq_comment (h : Opening.of cs = .comment) :
    ∃ behind, cs = '!' :: '-' :: '-' :: behind := by
  unfold Opening.of at h
  split at h
  case h_2 behind => exact ⟨behind, rfl⟩
  case h_1 => split at h <;> cases h
  case h_5 => split at h <;> cases h
  all_goals cases h

/-- **The loop over text does what the stream does**, whatever text it has read. If there is any it
has moved. -/
theorem steps_textAt {text : List Char} (h : Stands s i cs) (hle : start ≤ i)
    (hmoved : text ≠ [] → start < i) :
    Steps s start (textAt text s i) (readToken? text cs) := by
  fun_induction readText cs generalizing text i with
  | case1 =>
    rw [textAt, if_neg (Nat.not_lt.2 (Nat.le_of_eq h.eq_size.symm)), readToken?, readText]
    simp only [List.append_nil]
    by_cases htext : text = []
    · rw [if_pos htext, if_pos htext, h.eq_size]
      exact .ended
    · rw [if_neg htext, if_neg htext]
      exact .token (.text text) (hmoved htext) (.markup h)
  | case2 rest htag =>
    rw [textAt_open text h, htag, readToken?, readText_tag htag]
    simp only [List.append_nil]
    by_cases htext : text = []
    · rw [if_pos htext, if_pos htext]
      exact steps_tagAt h hle
    · rw [if_neg htext, if_neg htext]
      exact .token (.text text) (hmoved htext) (.markup h)
  | case3 rest hliteral found =>
    rename_i ih
    have hread : readText ('<' :: rest) = (['<'] ++ (readText rest).1, (readText rest).2) := by
      rw [readText, if_pos rfl, hliteral]
      rfl
    rw [textAt_open text h, hliteral, readToken?_of_readText hread]
    exact ih (h.succ (by decide)) (by omega) (fun _ => by omega)
  | case4 rest hcomment ih =>
    have hread : readText ('<' :: rest) = readText (skipPast ['-', '-', '>'] (rest.drop 3)) := by
      rw [readText, if_pos rfl, hcomment]
    obtain ⟨behind, rfl⟩ := Opening.exists_of_eq_comment hcomment
    have hbehind : Stands s (i + 4) behind :=
      Stands.advance (a := ['<', '!', '-', '-']) h
    obtain ⟨j, hj, hrest⟩ := exists_skipPastAt hbehind ['-', '-', '>']
    have hij : i + 4 ≤ j := hbehind.le_of_length_le hrest (length_skipPast _ _)
    rw [textAt_open text h, hcomment, readToken?_congr hread]
    simp only [hbehind.place?, hj, hrest.onward? (show i < j by omega), Option.bind_some]
    exact ih hrest (by omega) (fun _ => by omega)
  | case5 rest hignored ih =>
    have hread : readText ('<' :: rest) = readText (skipPast ['>'] rest) := by
      rw [readText, if_pos rfl, hignored]
    obtain ⟨j, hj, hrest⟩ := exists_skipPastAt h ['>']
    have hij : i < j := by
      refine h.lt_of_length_lt hrest (Nat.lt_of_le_of_lt (length_skipPast ['>'] rest) ?_)
      exact Nat.lt_succ_self rest.length
    rw [textAt_open text h, hignored, readToken?_congr hread]
    simp only [hj, hrest.onward? hij, Option.bind_some]
    exact ih hrest (by omega) (fun _ => by omega)
  | case6 c rest hc found =>
    rename_i ih
    have hread : readText (c :: rest)
        = (decode (c :: rest.takeWhile (· ≠ '<')) ++ (readText (rest.dropWhile (· ≠ '<'))).1,
          (readText (rest.dropWhile (· ≠ '<'))).2) := by
      rw [readText, if_neg hc]
    have hbehind : Stands s (i + byteLength (c :: rest.takeWhile (· ≠ '<')))
        (rest.dropWhile (· ≠ '<')) := by
      refine Stands.advance (a := c :: rest.takeWhile (· ≠ '<')) ?_
      rwa [List.cons_append, List.takeWhile_append_dropWhile]
    have hpos := Text.byteLength_pos (List.cons_ne_nil c (rest.takeWhile (· ≠ '<')))
    rw [textAt_run text h hc, readToken?_of_readText hread]
    exact ih hbehind (by omega) (fun _ => by omega)

/-- **One call of the reader is one step of the stream.** -/
theorem Cursor.Before.steps_next (h : k.Before s cs) :
    Steps s k.place (k.next s) (next? cs) := by
  obtain ⟨i, hi, hbefore, hle⟩ := h.exists_arrive
  rw [Cursor.next, hi, next?_eq]
  exact steps_textAt hbefore hle fun hne => absurd rfl hne

/-! ## Runs -/

/-- **A run of the reader**, each read of which is one token of the stream. -/
inductive Run (s : String) : Cursor → List Char → List (Token × Cursor) → Prop
  | ended {k : Cursor} {cs : List Char} (hbefore : k.Before s cs)
      (hread : k.next s = some (none, ⟨s.utf8ByteSize, none⟩)) (hnext : next? cs = none) :
      Run s k cs []
  | token {k : Cursor} {cs rest : List Char} {t : Token} {i : Nat} {reads : List (Token × Cursor)}
      (hbefore : k.Before s cs) (hread : k.next s = some (some t, ⟨i, t.rawText?⟩))
      (hnext : next? cs = some (t, rest)) (hlt : k.place < i)
      (hrun : Run s ⟨i, t.rawText?⟩ rest reads) :
      Run s k cs ((t, ⟨i, t.rawText?⟩) :: reads)

/-- **Every reader with a text before it runs to the end.** -/
theorem Cursor.Before.exists_run {k : Cursor} {cs : List Char} (h : k.Before s cs) :
    ∃ reads, Run s k cs reads := by
  have hstep := h.steps_next
  generalize hread : k.next s = read at hstep
  generalize hnext : next? cs = next at hstep
  cases hstep with
  | ended => exact ⟨[], .ended h hread hnext⟩
  | token t hlt hbefore =>
    obtain ⟨reads, hrun⟩ := hbefore.exists_run
    exact ⟨_, .token h hread hnext hlt hrun⟩
termination_by cs.length
decreasing_by exact length_next? hnext

namespace Run

theorem before (h : Run s k cs reads) : k.Before s cs := by
  cases h with
  | ended hbefore => exact hbefore
  | token hbefore => exact hbefore

/-- The reads of a run are all that there are. -/
theorem readAll_eq (h : Run s k cs reads) : k.readAll s = some reads := by
  induction h with
  | ended _ hread =>
    rw [Cursor.readAll, hread]
    rfl
  | token _ hread _ hlt hrun ih =>
    rw [Cursor.readAll, hread]
    simp only [Option.bind_eq_bind, Option.bind_some,
      Text.onward?_of_lt hlt hrun.before.place_le, ih]

/-- **Their tokens are the tokens of the text.** -/
theorem map_fst_eq (h : Run s k cs reads) : reads.map Prod.fst = tokens cs := by
  induction h with
  | ended _ _ hnext => exact (tokens_of_next?_none hnext).symm
  | token _ _ hnext _ _ ih => rw [tokens_of_next? hnext, List.map_cons, ih]

/-- **Each read has moved.** -/
theorem pairwise_place (h : Run s k cs reads) :
    (k.place :: reads.map (·.2.place)).Pairwise (· < ·) := by
  induction h with
  | ended => exact List.pairwise_singleton _ _
  | token _ _ _ hlt _ ih =>
    refine List.pairwise_cons.2 ⟨fun j hj => ?_, ih⟩
    rcases List.mem_cons.1 hj with rfl | hj
    · exact hlt
    · exact Nat.lt_trans hlt ((List.pairwise_cons.1 ih).1 j hj)

/-- **It has come to a place where characters meet.** -/
theorem isValid_of_mem (h : Run s k cs reads) :
    ∀ read ∈ reads, String.Pos.Raw.IsValid s ⟨read.2.place⟩ := by
  induction h with
  | ended => exact List.forall_mem_nil _
  | token _ _ _ _ hrun ih => exact List.forall_mem_cons.2 ⟨hrun.before.isValid, ih⟩

/-- **For each token a byte is read at least.** -/
theorem add_length_le (h : Run s k cs reads) : k.place + reads.length ≤ s.utf8ByteSize := by
  induction h with
  | ended hbefore => exact hbefore.place_le
  | @token k cs rest t i reads _ _ _ hlt _ ih =>
    have hbehind : i + reads.length ≤ s.utf8ByteSize := ih
    rw [List.length_cons]
    omega

/-- Another reader that reads the same next runs on like this one. -/
theorem of_next_eq {k' : Cursor} (h : Run s k cs reads) (hbefore : k'.Before s cs)
    (hsame : k'.next s = k.next s) : Run s k' cs reads := by
  have hstep := hbefore.steps_next
  cases h with
  | ended _ hread hnext => exact .ended hbefore (hsame.trans hread) hnext
  | token _ hread hnext _ hrun =>
    rw [hsame, hread, hnext] at hstep
    cases hstep with
    | token _ hlt => exact .token hbefore (hsame.trans hread) hnext hlt hrun

/-- What is read behind a token is a run, too. -/
theorem behind {earlier later : List (Token × Cursor)} {t : Token} {k' : Cursor}
    (h : Run s k cs (earlier ++ (t, k') :: later)) :
    k'.rawText = t.rawText? ∧ ∃ rest, Run s k' rest later := by
  induction earlier generalizing k cs with
  | nil =>
    cases h with
    | token _ _ _ _ hrun => exact ⟨rfl, _, hrun⟩
  | cons read earlier ih =>
    cases h with
    | token _ _ _ _ hrun => exact ih hrun

end Run

/-! ## The whole stream -/

/-- A tag is no text. -/
theorem readTag?_ne_text (content : List Char) :
    readTag? cs ≠ some (.text content, rest) := by
  intro h
  unfold readTag? at h
  split at h
  all_goals
    obtain ⟨_, _, hpair⟩ := Option.map_eq_some_iff.1 h
    cases (Prod.mk.inj hpair).1

/-- Text that is a token is not empty. -/
theorem ne_nil_of_next? {content : List Char}
    (h : next? cs = some (.text content, rest)) : content ≠ [] := by
  unfold next? at h
  simp only at h
  split at h
  · split at h
    · cases h
    · exact absurd h (readTag?_ne_text content)
  · rename_i hne
    simp only [Option.some.injEq, Prod.mk.injEq, Token.text.injEq] at h
    exact h.1 ▸ hne

theorem ne_nil_of_mem_tokens {content : List Char} (h : .text content ∈ tokens cs) :
    content ≠ [] := by
  fun_induction tokens cs with
  | case1 => cases h
  | case2 cs t rest hnext ih =>
    rcases List.mem_cons.1 h with rfl | h
    · exact ne_nil_of_next? hnext
    · exact ih h

/-- **Behind the start tag of a raw-text element** nothing is read of its content: the reads are
those of a reader that starts behind that. -/
theorem Run.behind_startTag {k' : Cursor} {name : List Char} {attributes : List Attribute}
    {closes : Bool} {earlier later : List (Token × Cursor)}
    (h : Run s k cs (earlier ++ (.startTag name attributes closes, k') :: later))
    (hraw : isRawText name = true) :
    ∃ content behind, Stands s k'.place (content ++ behind) ∧ IsRawContent name content behind
      ∧ Cursor.readAll s ⟨k'.place + byteLength content, none⟩ = some later
      ∧ later.map Prod.fst = tokens behind := by
  obtain ⟨hrawText, rest, hlater⟩ := h.behind
  obtain ⟨i, rawText⟩ := k'
  obtain rfl : rawText = some name := hrawText.trans (if_pos hraw)
  obtain ⟨j, hj, hrest, _⟩ := hlater.before.exists_arrive
  cases hlater.before with
  | @rawText _ _ left _ hleft =>
    obtain ⟨content, hsplit, hcontent⟩ := exists_isRawContent name left
    have hstands : Stands s i (content ++ skipRawText name left) := by rwa [← hsplit]
    have harrive : Cursor.next s ⟨i + byteLength content, none⟩ = Cursor.next s ⟨i, some name⟩ := by
      rw [Cursor.next, Cursor.next, hj, hrest.place_unique hstands.advance]
      rfl
    have hbehind := hlater.of_next_eq (.markup hstands.advance) harrive
    exact ⟨content, _, hstands, hcontent, hbehind.readAll_eq, hbehind.map_fst_eq⟩

/-- **What a reader of a text reads**, token by token, each with where it is then. -/
structure IsReading (s : String) (reads : List (Token × Cursor)) : Prop where
  /-- The tokens are those of the text. -/
  stream : reads.map Prod.fst = tokens s.toList
  /-- With each token the reader moves on, -/
  moves : (0 :: reads.map (·.2.place)).Pairwise (· < ·)
  /-- to a place that is not behind the end, -/
  inside : ∀ read ∈ reads, read.2.place ≤ s.utf8ByteSize
  /-- and where characters meet. -/
  valid : ∀ read ∈ reads, String.Pos.Raw.IsValid s ⟨read.2.place⟩
  /-- There are no more tokens than bytes. -/
  length_le : reads.length ≤ s.utf8ByteSize
  /-- Text is not empty and has no NUL. -/
  text : ∀ content k, (.text content, k) ∈ reads → content ≠ [] ∧ '\x00' ∉ content
  /-- Behind the start tag of a raw-text element no token is read of its content: all the others are
  those that are read from behind it. -/
  rawText : ∀ earlier name attributes closes k later,
    reads = earlier ++ (.startTag name attributes closes, k) :: later → isRawText name = true →
      ∃ content behind, Stands s k.place (content ++ behind) ∧ IsRawContent name content behind
        ∧ Cursor.readAll s ⟨k.place + byteLength content, none⟩ = some later
        ∧ later.map Prod.fst = tokens behind
  /-- The content of `plaintext` is all the rest. -/
  plaintext : ∀ earlier attributes closes k later,
    reads = earlier ++
      (.startTag ['p', 'l', 'a', 'i', 'n', 't', 'e', 'x', 't'] attributes closes, k) :: later →
        later = []

/-- **Any text can be read by its bytes**: no text is cut inside a character, the reader never
leaves the text, and it comes to its end. -/
theorem exists_readAll (s : String) :
    ∃ reads, Cursor.start.readAll s = some reads ∧ IsReading s reads := by
  have hstart : Cursor.start.Before s s.toList := .markup (Stands.start s)
  obtain ⟨reads, hrun⟩ := hstart.exists_run
  have hvalid := hrun.isValid_of_mem
  refine ⟨reads, hrun.readAll_eq, ?_⟩
  constructor
  case stream => exact hrun.map_fst_eq
  case moves => exact hrun.pairwise_place
  case inside => exact fun read hmem => (hvalid read hmem).le_utf8ByteSize
  case valid => exact hvalid
  case length_le => exact Nat.zero_add reads.length ▸ hrun.add_length_le
  case text =>
    intro content k hmem
    have htoken : Token.text content ∈ tokens s.toList :=
      hrun.map_fst_eq ▸ List.mem_map_of_mem (f := Prod.fst) hmem
    exact ⟨ne_nil_of_mem_tokens htoken, isClean_tokens _ _ htoken⟩
  case rawText =>
    intro earlier name attributes closes k later hreads hraw
    exact (hreads ▸ hrun).behind_startTag hraw
  case plaintext =>
    intro earlier attributes closes k later hreads
    obtain ⟨content, behind, _, hcontent, _, hlater⟩ := (hreads ▸ hrun).behind_startTag rfl
    have hnil : behind = [] := Decidable.byContradiction fun hne => (hcontent.ended hne).1 rfl
    rw [hnil, tokens_nil] at hlater
    exact List.map_eq_nil_iff.1 hlater

end SafePreview.Markup
