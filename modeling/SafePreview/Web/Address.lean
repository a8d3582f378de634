import SafePreview.Text.Percent

/-!
# Addresses

The target of a request has a path and, behind the first `?`, a query; what follows a `#` is no part
of either. A path is kept as it was sent, since a coded slash does not separate its parts. A query
holds fields `name=value` between `&`, in which `+` stands for a space.
-/

namespace SafePreview

/-- **What a request is for.** -/
structure Address where
  path : String
  query : String
deriving DecidableEq, Repr

namespace Address

/-- A character that may stand in a path uncoded. -/
def isPathChar (c : Char) : Bool :=
  '!' ≤ c && c ≠ '#' && c ≠ '<' && c ≠ '>' && c ≠ '?' && c ≠ '\x60'

/-- A character that may stand in a query uncoded. -/
def isQueryChar (c : Char) : Bool :=
  '!' ≤ c && c ≠ '"' && c ≠ '#' && c ≠ '<' && c ≠ '>'

/-- **The address that a target spells**, or nothing if it holds a character that has to be
coded. -/
def ofTarget? (target : String) : Option Address :=
  let whole := target.toList.takeWhile (· ≠ '#')
  let path := whole.takeWhile (· ≠ '?')
  let query := (whole.dropWhile (· ≠ '?')).drop 1
  if path.head? = some '/' && path.all isPathChar && query.all isQueryChar then
    some ⟨String.ofList path, String.ofList query⟩
  else none

/-- A name or value of a query, decoded. -/
def decodeField (cs : List Char) : String :=
  Text.percentDecodeLossy (cs.map fun c => if c = '+' then ' ' else c)

/-- **The fields of the query**, in order. -/
def fields (a : Address) : List (String × String) :=
  ((a.query.toList.splitOn '&').filter (!·.isEmpty)).map fun field =>
    (decodeField (field.takeWhile (· ≠ '=')), decodeField ((field.dropWhile (· ≠ '=')).drop 1))

/-- The value of a field that is given exactly once. -/
def field? (a : Address) (name : String) : Option String :=
  match a.fields.filter (·.1 = name) with
  | [(_, value)] => some value
  | _ => none

end Address

end SafePreview
