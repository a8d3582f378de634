import SafePreview.Decimal.Shortest

/-!
# Written forms of a double

A double is written with its shortest digits. Where the leading digit stands between `10 ^ low` and
`10 ^ high` the number is positional and shows a point in any case; outside it has an exponent
with a sign and at least two digits. The bounds are fields of a `Style`, so one function serves
every format.
-/

namespace SafePreview.Decimal

/-- The exponents of the leading digit that are written positionally. -/
structure Style where
  low : Int
  high : Int
deriving DecidableEq, Repr

/-- The digits with a point after the first `places` of them, zeros filling both sides. -/
def positional (digits : List Char) (places : Int) : List Char :=
  if places ≤ 0 then
    ['0', '.'] ++ List.replicate (-places).toNat '0' ++ digits
  else if digits.length ≤ places.toNat then
    digits ++ List.replicate (places.toNat - digits.length) '0' ++ ['.', '0']
  else
    digits.take places.toNat ++ '.' :: digits.drop places.toNat

/-- The digits with a point after the first, then the exponent. -/
def scientific (digits : List Char) (exponent : Int) : List Char :=
  let mantissa := match digits with
    | [] => []
    | [d] => [d]
    | d :: ds => d :: '.' :: ds
  let size := Nat.toDigits 10 exponent.natAbs
  mantissa ++ ['e', if exponent < 0 then '-' else '+']
    ++ List.replicate (2 - size.length) '0' ++ size

/-- **The text of a finite double** in the given style. -/
def Style.write (style : Style) (x : Float) : String :=
  let parts := Parts.ofFloat x
  let sign := if parts.negative then ['-'] else []
  if parts.significand = 0 then String.ofList (sign ++ ['0', '.', '0'])
  else
    let d := shortest parts.significand parts.exponent parts.narrow
    let digits := Nat.toDigits 10 d.digits
    let lead : Int := d.exponent + digits.length - 1
    let body :=
      if style.low ≤ lead ∧ lead ≤ style.high then positional digits (lead + 1)
      else scientific digits lead
    String.ofList (sign ++ body)

end SafePreview.Decimal
