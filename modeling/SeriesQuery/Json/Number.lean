import SeriesQuery.Json.Value
import SeriesQuery.Decimal.Reading

/-!
# The value of a JSON number

A whole number without fraction and exponent that fits in 64 bits is kept exactly, with
one exception: minus zero is a floating-point number.  Every other number is worked out
in floating point: as many leading digits as fit in 64 bits, scaled by one power of ten.
A number that is too large is refused, one that is too small is zero.
-/

namespace SeriesQuery.Json

open SeriesQuery.Decimal (Spelling natOfDigits)

/-- The largest significand. -/
def maxSignificand : Nat := Nat.pow 2 64 - 1

/-- Appends digits to a significand while it fits; gives the significand and how many
digits were appended. -/
def appendDigits (significand : Nat) : List Char → Nat × Nat
  | [] => (significand, 0)
  | c :: ds =>
    let next := significand * 10 + (c.toNat - '0'.toNat)
    if next ≤ maxSignificand then
      let (n, taken) := appendDigits next ds
      (n, taken + 1)
    else (significand, 0)

/-- A power of ten up to `10 ^ 308`. -/
def powerOfTen (n : Nat) : Float := Float.ofScientific 1 false n

/-- A significand times a power of ten.  Powers below `10 ^ -308` are taken in several
steps. -/
def scaled? (x : Float) (power : Int) : (steps : Nat) → Option Float
  | 0 => some 0
  | steps + 1 =>
    if power.natAbs ≤ 308 then
      if 0 ≤ power then
        let y := x * powerOfTen power.natAbs
        if y.isInf then none else some y
      else some (x / powerOfTen power.natAbs)
    else if x == 0 then some x
    else if 0 ≤ power then none
    else scaled? (x / powerOfTen 308) (power + 308) steps

/-- The largest exponent that is taken at its value. -/
def maxExponent : Nat := Nat.pow 2 31 - 1

/-- The magnitude of a spelled number in floating point, if it is not too large. -/
def magnitude? (s : Spelling) : Option Float :=
  let (n, taken) := appendDigits 0 s.whole
  let (n, places) := appendDigits n s.fraction
  let dropped : Int := (s.whole.length - taken : Nat)
  let exponent := natOfDigits s.exponent
  if maxExponent < exponent then
    if n = 0 || s.exponentNegative then some 0 else none
  else
    let power :=
      dropped - (places : Int) +
        (if s.exponentNegative then -(exponent : Int) else exponent)
    scaled? (Float.ofNat n) power 4

/-- The floating-point number of a spelled number, if it is not too large. -/
def float? (s : Spelling) : Option Float :=
  (magnitude? s).map fun x => if s.negative then -x else x

/-- The value of a spelled number. -/
def Number.ofSpelling? (s : Spelling) : Option Number :=
  let n := natOfDigits s.whole
  if s.fraction.isEmpty && s.exponent.isEmpty && n ≤ maxSignificand then
    if s.negative then
      if n = 0 || Nat.pow 2 63 < n then some (.float (-Float.ofNat n))
      else some (.negative (-(n : Int)))
    else some (.natural n)
  else (float? s).map .float

end SeriesQuery.Json
