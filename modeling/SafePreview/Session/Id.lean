import SafePreview.Session.Error

/-!
# Session ids

A session id is a number of 128 bits. It is written as thirty-two hexadecimal digits in lower case,
with hyphens behind the eighth, twelfth, sixteenth and twentieth. It may be read without the
hyphens, and with them also between braces or behind `urn:uuid:`.
-/

namespace SafePreview

/-- **The id of a session.** -/
structure SessionId where
  value : Nat
  value_lt : value < Nat.pow 2 128
deriving DecidableEq

namespace SessionId

/-- The id with a number, of which the low 128 bits count. -/
def ofNat (n : Nat) : SessionId := ⟨n % Nat.pow 2 128, Nat.mod_lt _ (by decide)⟩

/-- The lengths of the groups between hyphens. -/
def groups : List Nat := [8, 4, 4, 4, 12]

/-- The digits in groups of the given lengths. -/
def split : List Nat → List Char → List (List Char)
  | [], _ => []
  | n :: ns, cs => cs.take n :: split ns (cs.drop n)

/-- The thirty-two digits of an id. -/
def digits (id : SessionId) : List Char :=
  let written := Text.hexDigits id.value
  List.replicate (32 - written.length) '0' ++ written

/-- **The id as text.** -/
def text (id : SessionId) : String :=
  String.ofList (['-'].intercalate (split groups id.digits))

/-- The id that thirty-two digits spell. -/
def ofDigits? (cs : List Char) : Option SessionId :=
  if cs.length = 32 then (Text.hexNumber? cs).map ofNat else none

/-- The id that digits in groups spell. -/
def ofGroups? (cs : List Char) : Option SessionId :=
  let parts := cs.splitOn '-'
  if parts.map List.length = groups then ofDigits? parts.flatten else none

/-- The text behind `urn:uuid:`, in any case of letters. -/
def stripUrn? (cs : List Char) : Option (List Char) :=
  let mark := "urn:uuid:".toList
  if (cs.take mark.length).map Char.toLower = mark then some (cs.drop mark.length) else none

/-- The text between braces. -/
def stripBraces? : List Char → Option (List Char)
  | '\x7b' :: cs => if cs.getLast? = some '\x7d' then some cs.dropLast else none
  | _ => none

/-- The id that a text spells. -/
def ofChars? (cs : List Char) : Option SessionId :=
  if cs.length = 32 then ofDigits? cs
  else match stripBraces? cs with
    | some inner => ofGroups? inner
    | none =>
      match stripUrn? cs with
      | some rest => ofGroups? rest
      | none => ofGroups? cs

/-- **An id from text.** A text that is no id is the id of no session. -/
def ofString (s : String) : Except SessionError SessionId :=
  match ofChars? s.toList with
  | some id => .ok id
  | none => .error (.notFound s)

end SessionId

end SafePreview
