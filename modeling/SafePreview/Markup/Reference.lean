import SafePreview.Text.Character

/-!
# Character references

A reference is an ampersand, a short body and a semicolon. Six bodies are names; a number sign
starts a number, decimal or after an `x` hexadecimal. All else is not a reference and stays as it
is, ampersand included. `decode` replaces the references of a text; NUL is dropped wherever it
stands by itself, and a reference to no character becomes U+FFFD. `escapeText` and `escapeValue`
write the few references that markup needs.
-/

namespace SafePreview.Markup

/-- The character that stands for one that cannot be shown. -/
def replacement : Char := Char.ofNat 0xFFFD

/-- The character with a number, or the replacement for a number without one. -/
def numbered (n : Nat) : Char := if n ≠ 0 ∧ n.isValidChar then Char.ofNat n else replacement

/-- The number that digits of a base spell, if there are any. -/
def digits? (number : List Char → Option Nat) (cs : List Char) : Option Nat :=
  if cs.isEmpty then none else number cs

/-- **What the body of a reference stands for.** -/
def referenced? : List Char → Option Char
  | ['a', 'm', 'p'] => some '&'
  | ['l', 't'] => some '<'
  | ['g', 't'] => some '>'
  | ['q', 'u', 'o', 't'] => some '"'
  | ['a', 'p', 'o', 's'] => some '\''
  | ['n', 'b', 's', 'p'] => some '\xa0'
  | '#' :: 'x' :: cs => (digits? Text.hexNumber? cs).map numbered
  | '#' :: 'X' :: cs => (digits? Text.hexNumber? cs).map numbered
  | '#' :: cs => (digits? Text.decimalNumber? cs).map numbered
  | _ => none

/-- How many characters the body of a reference may have. -/
def bodyLimit : Nat := 9

/-- A reference from behind its ampersand on: the character, and what is behind the semicolon. -/
def readReference (cs : List Char) : Option (Char × List Char) :=
  match cs.dropWhile (· ≠ ';') with
  | [] => none
  | _ :: rest =>
    let body := cs.takeWhile (· ≠ ';')
    if body.length ≤ bodyLimit then (referenced? body).map (·, rest) else none

theorem length_readReference {cs rest : List Char} {c : Char}
    (h : readReference cs = some (c, rest)) : rest.length < cs.length := by
  unfold readReference at h
  have hsub := (List.dropWhile_sublist (l := cs) (· ≠ ';')).length_le
  split at h
  · cases h
  · rename_i heq
    rw [heq, List.length_cons] at hsub
    simp only [Option.ite_none_right_eq_some, Option.map_eq_some_iff, Prod.mk.injEq] at h
    obtain ⟨_, _, _, _, rfl⟩ := h
    omega

/-- **The text with its references replaced** and without NUL. -/
def decode : List Char → List Char
  | [] => []
  | c :: cs =>
    if c = '&' then
      match _h : readReference cs with
      | some (char, rest) => char :: decode rest
      | none => '&' :: decode cs
    else if c = '\x00' then decode cs
    else c :: decode cs
termination_by cs => cs.length
decreasing_by
  all_goals simp only [List.length_cons]
  · have := length_readReference _h
    omega
  all_goals omega

/-- How a character is written in text. -/
def escapeTextChar (c : Char) : List Char :=
  if c = '&' then ['&', 'a', 'm', 'p', ';']
  else if c = '<' then ['&', 'l', 't', ';']
  else if c = '>' then ['&', 'g', 't', ';']
  else [c]

/-- How a character is written in the value of an attribute. -/
def escapeValueChar (c : Char) : List Char :=
  if c = '"' then ['&', 'q', 'u', 'o', 't', ';'] else escapeTextChar c

/-- **Text as markup.** -/
def escapeText (cs : List Char) : List Char := cs.flatMap escapeTextChar

/-- **The value of an attribute as markup**, between double quotes. -/
def escapeValue (cs : List Char) : List Char := cs.flatMap escapeValueChar

end SafePreview.Markup
