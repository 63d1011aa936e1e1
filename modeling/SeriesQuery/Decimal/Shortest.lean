import SeriesQuery.Decimal.Binary

/-!
# The fewest digits that read back

Reading a decimal numeral gives the nearest number, so every numeral inside an interval
around a number reads back as that number.  The text of a number takes the coarsest
decimal grid that has a point inside the interval, and on that grid the point nearest to
the number.  The interval includes its ends exactly when the mantissa is even, because a
tie goes to the even neighbour.

All quantities are scaled to whole numbers, so the search is exact.
-/

namespace SeriesQuery.Decimal

/-- A positive decimal numeral: `digits · 10 ^ exponent`. -/
structure Numeral where
  digits : Nat
  exponent : Int
  deriving DecidableEq, Repr

/-- The interval that reads back as a number: the number, its two ends, and a common
denominator; `closed` tells whether the ends belong to it. -/
structure Interval where
  low : Nat
  value : Nat
  high : Nat
  scale : Nat
  closed : Bool

/-- The interval around a number.  Below a power of two the neighbours are half as far
away. -/
def Interval.around (b : Binary) : Interval :=
  let m := b.mantissa
  let up := Nat.pow 2 b.exponent.toNat
  let narrow := m == Nat.pow 2 52 && b.exponent > -1074
  { low := (if narrow then 4 * m - 1 else 4 * m - 2) * up
    value := 4 * m * up
    high := (4 * m + 2) * up
    scale := 4 * b.denominator
    closed := m % 2 == 0 }

/-- Whether `n / d` lies in the interval. -/
def Interval.contains (i : Interval) (n d : Nat) : Bool :=
  if i.closed then i.low * d ≤ n * i.scale && n * i.scale ≤ i.high * d
  else i.low * d < n * i.scale && n * i.scale < i.high * d

/-- The point of the grid of multiples of `10 ^ p` that is in the interval and nearest
to the number; a tie goes to the even multiple. -/
def Interval.gridPoint? (i : Interval) (p : Int) : Option Nat :=
  let up := Nat.pow 10 p.toNat
  let down := Nat.pow 10 (-p).toNat
  let below := (i.value * down) / (i.scale * up)
  let twice := 2 * ((i.value * down) % (i.scale * up))
  let above := below + 1
  let lowIn := i.contains (below * up) down
  let highIn := i.contains (above * up) down
  let nearLow := twice < i.scale * up || (twice == i.scale * up && below % 2 == 0)
  if lowIn && highIn then some (if nearLow then below else above)
  else if lowIn then some below
  else if highIn then some above
  else none

/-- The power of ten of the leading digit of `n / d`, for a number of at least
`10 ^ -400`. -/
def leadingPower (n d : Nat) : Int :=
  ((Nat.toDigits 10 (n * Nat.pow 10 400 / d)).length : Int) - 401

/-- Tries grids from coarse to fine, at most `tries` of them. -/
def Interval.search (i : Interval) (p : Int) : (tries : Nat) → Numeral
  | 0 => ⟨i.value / i.scale, 0⟩
  | tries + 1 =>
    match i.gridPoint? p with
    | some n => ⟨n, p⟩
    | none => i.search (p - 1) tries

/-- Takes the zeros off the end of the digits, at most `tries` of them. -/
def Numeral.strip (x : Numeral) : (tries : Nat) → Numeral
  | 0 => x
  | tries + 1 =>
    if x.digits % 10 = 0 && x.digits ≠ 0 then
      Numeral.strip ⟨x.digits / 10, x.exponent + 1⟩ tries
    else x

/-- The shortest numeral that reads back as the magnitude of a number other than
zero. -/
def shortest (b : Binary) : Numeral :=
  let i := Interval.around b
  (i.search (leadingPower b.numerator b.denominator) 18).strip 18

end SeriesQuery.Decimal
