import SafePreview.Text.Character

/-!
# Percent coding

In an address a byte may be written as `%` and two hexadecimal digits. A `%` without them stands for
itself, so every text can be decoded into bytes; whether these are a text again is another question,
and the two readings here answer it differently. `percentDecode?` has no answer for bytes that are
no text, and `percentDecodeLossy` puts U+FFFD for each byte that belongs to no character.
-/

namespace SafePreview.Text

/-- The byte of a `%`. -/
def percentByte : UInt8 := 0x25

/-- **The bytes that percent-coded text stands for.** -/
def percentBytes : List Char → List UInt8
  | '%' :: high :: low :: rest =>
    match hexValue? high, hexValue? low with
    | some h, some l => UInt8.ofNat (16 * h + l) :: percentBytes rest
    | _, _ => percentByte :: percentBytes (high :: low :: rest)
  | c :: rest => String.utf8EncodeChar c ++ percentBytes rest
  | [] => []

/-- **The text that percent-coded text stands for**, if its bytes are one. -/
def percentDecode? (s : String) : Option String :=
  String.fromUTF8? ⟨(percentBytes s.toList).toArray⟩

/-- The characters that bytes spell from a place on, with U+FFFD for bytes that are in none. -/
def lossyCharacters (bytes : ByteArray) (i : Nat) : List Char :=
  if i < bytes.size then
    match bytes.utf8DecodeChar? i with
    | some c => c :: lossyCharacters bytes (i + c.utf8Size)
    | none => '\ufffd' :: lossyCharacters bytes (i + 1)
  else []
termination_by bytes.size - i
decreasing_by
  · have := c.utf8Size_pos
    omega
  · omega

/-- **The text that percent-coded text stands for**, whatever its bytes are. -/
def percentDecodeLossy (cs : List Char) : String :=
  String.ofList (lossyCharacters ⟨(percentBytes cs).toArray⟩ 0)

@[simp] theorem percentBytes_nil : percentBytes [] = [] := by simp [percentBytes]

/-- A character other than `%` stands for its own bytes. -/
theorem percentBytes_cons {c : Char} (h : c ≠ '%') (rest : List Char) :
    percentBytes (c :: rest) = String.utf8EncodeChar c ++ percentBytes rest := by
  rw [percentBytes]
  intro high low tail hc
  exact absurd hc h

end SafePreview.Text
