/-!
# The fewest digits that read back

A double stands for an interval of reals: all those that round to it, its ends included when its
significand is even. Its shortest decimal is the one with the fewest digits in that interval, and
of two such the nearer. `shortest` finds it in whole-number arithmetic. For one digit, then two,
and so on, it lays the grid of the decimals with that many digits over the value and tests the two
grid points next to the value, since if any grid point lies in the interval then one of these does.
-/

namespace SafePreview.Decimal

/-- **A decimal numeral**: `digits · 10 ^ exponent`. -/
structure Numeral where
  digits : Nat
  exponent : Int
deriving DecidableEq, Repr

/-- A ratio of two whole numbers, the second not zero. -/
structure Ratio where
  num : Nat
  den : Nat

/-- The ratio `n · base ^ e`. -/
def Ratio.scaled (n base : Nat) (e : Int) : Ratio :=
  if 0 ≤ e then ⟨n * Nat.pow base e.toNat, 1⟩ else ⟨n, Nat.pow base (-e).toNat⟩

def Ratio.lt (a b : Ratio) : Bool := a.num * b.den < b.num * a.den

def Ratio.le (a b : Ratio) : Bool := a.num * b.den ≤ b.num * a.den

/-- The exponent `e` with `10 ^ e ≤ r < 10 ^ (e + 1)`, for a positive ratio. -/
def Ratio.magnitude (r : Ratio) : Int :=
  let guess : Int := (Nat.toDigits 10 r.num).length - (Nat.toDigits 10 r.den).length
  if (Ratio.scaled 1 10 guess).le r then guess else guess - 1

/-- The reals that round to a double, with the double among them. -/
structure Interval where
  low : Ratio
  value : Ratio
  high : Ratio
  closed : Bool

def Interval.contains (i : Interval) (r : Ratio) : Bool :=
  if i.closed then i.low.le r && r.le i.high else i.low.lt r && r.lt i.high

/-- The interval of the positive double `m · 2 ^ q`; `narrow` marks a power of two, below which
the doubles lie twice as close. -/
def Interval.ofDouble (m : Nat) (q : Int) (narrow : Bool) : Interval where
  low := Ratio.scaled (if narrow then 4 * m - 1 else 4 * m - 2) 2 (q - 2)
  value := Ratio.scaled (4 * m) 2 (q - 2)
  high := Ratio.scaled (4 * m + 2) 2 (q - 2)
  closed := m % 2 = 0

/-- The grid point next to the value, among the decimals with `count` digits, that lies in the
interval and is nearest to the value. -/
def Interval.point? (i : Interval) (count : Nat) : Option Numeral :=
  let k := i.value.magnitude - ((count : Int) - 1)
  let unit := Ratio.scaled 1 10 k
  let below := i.value.num * unit.den / (i.value.den * unit.num)
  let at_ (d : Nat) := Ratio.scaled d 10 k
  let low := i.contains (at_ below)
  let high := i.contains (at_ (below + 1))
  if low && high then
    let twice : Ratio := ⟨2 * i.value.num, i.value.den⟩
    if twice.lt (at_ (2 * below + 1)) then some ⟨below, k⟩
    else if (at_ (2 * below + 1)).lt twice then some ⟨below + 1, k⟩
    else if below % 2 = 0 then some ⟨below, k⟩ else some ⟨below + 1, k⟩
  else if low then some ⟨below, k⟩
  else if high then some ⟨below + 1, k⟩
  else none

/-- The numeral without the zeros at the end of its digits. -/
def Numeral.strip : Nat → Numeral → Numeral
  | 0, d => d
  | fuel + 1, d =>
    if d.digits ≠ 0 ∧ d.digits % 10 = 0 then strip fuel ⟨d.digits / 10, d.exponent + 1⟩ else d

/-- **The shortest decimal of the positive double** `m · 2 ^ q`. Seventeen digits always do. -/
def shortest (m : Nat) (q : Int) (narrow : Bool) : Numeral :=
  let i := Interval.ofDouble m q narrow
  match ((List.range 17).map (· + 1)).findSome? i.point? with
  | some d => d.strip 17
  | none => ⟨0, 0⟩

/-- The parts of a finite double: its sign, significand and exponent, and whether it is a power
of two with a closer neighbour below. -/
structure Parts where
  negative : Bool
  significand : Nat
  exponent : Int
  narrow : Bool

def Parts.ofFloat (x : Float) : Parts :=
  let bits : Nat := x.toBits.toNat
  let fraction : Nat := bits % Nat.pow 2 52
  let biased : Nat := bits / Nat.pow 2 52 % 2048
  { negative := bits / Nat.pow 2 63 = 1
    significand := if biased = 0 then fraction else fraction + Nat.pow 2 52
    exponent := if biased = 0 then -1074 else (biased : Int) - 1075
    narrow := fraction = 0 && 1 < biased }

end SafePreview.Decimal
