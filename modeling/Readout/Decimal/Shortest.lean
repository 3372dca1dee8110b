import Readout.Decimal.Binary64
/-!
# Shortest decimals

The shortest decimal of a floating-point number has the fewest digits among the decimals that read
back as the number, and of those it is the nearest to it.

A number with significand `m` and exponent `q` is read back from every decimal between the middles
to its two neighbours; the middles belong to it when `m` is even.  The grids of the powers of ten are
tried from the coarsest: on the first grid with a point in that interval, one of the two points next
to the number lies in it.

* `shortest` gives the digits and the power of ten.
-/

namespace Readout.Decimal

/-- The interval of a positive number, in quarters of its unit: lower end, number, upper end and
whether the ends belong to it. -/
structure Interval where
  low : Nat
  mid : Nat
  high : Nat
  closed : Bool
  deriving DecidableEq, Repr

/-- Below a power of two the neighbours are only half as far away. -/
def Interval.of (m : Nat) (q : Int) : Interval where
  low := if m = Binary64.hiddenBit ∧ Binary64.minExponent < q then 4 * m - 1 else 4 * m - 2
  mid := 4 * m
  high := 4 * m + 2
  closed := m % 2 == 0

/-- A scale factor as a fraction: `base ^ e`. -/
def power (base : Nat) (e : Int) : Nat × Nat :=
  match e with
  | .ofNat n => (base.pow n, 1)
  | .negSucc n => (1, base.pow (n + 1))

/-- Twice the distance of `a` and `b`, for comparing. -/
def distance (a b : Nat) : Nat := (a - b) + (b - a)

/-- The point of the grid `10 ^ s` that is in the interval and nearest to the number.  Half way the
upper point is taken. -/
def Interval.onGrid? (i : Interval) (q s : Int) : Option Nat :=
  let (unit, unitDen) := power 2 (q - 2)
  let (grid, gridDen) := power 10 s
  let scale := unit * gridDen
  let step := grid * unitDen
  let isIn (c : Nat) : Bool :=
    if i.closed then i.low * scale ≤ c * step && c * step ≤ i.high * scale
    else i.low * scale < c * step && c * step < i.high * scale
  let below := i.mid * scale / step
  let above := below + 1
  match isIn below, isIn above with
  | false, false => none
  | true, false => some below
  | false, true => some above
  | true, true =>
    if distance (below * step) (i.mid * scale) < distance (above * step) (i.mid * scale)
    then some below else some above

/-- Try the grids from `10 ^ s` downwards. -/
def Interval.search (i : Interval) (q : Int) : (fuel : Nat) → (s : Int) → Nat × Int
  | 0, s => (0, s)
  | fuel + 1, s =>
    match i.onGrid? q s with
    | some digits => (digits, s)
    | none => i.search q fuel (s - 1)

/-- The decimal logarithm of `m * 2 ^ q`, rounded up generously: 30103 / 100000 is just above the
decimal logarithm of 2. -/
def topGrid (m : Nat) (q : Int) : Int := ((m.log2 : Int) + 1 + q) * 30103 / 100000 + 1

/-- The digits and the power of ten of the shortest decimal of `m * 2 ^ q`, for a positive `m`.
Seventeen digits suffice for any number, and the search starts at most two grids above the first. -/
def shortest (m : Nat) (q : Int) : Nat × Int :=
  (Interval.of m q).search q 24 (topGrid m q)

end Readout.Decimal
