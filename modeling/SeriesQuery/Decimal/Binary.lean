/-!
# The binary form of a number

A finite number of the type `Float` is a sign, a whole mantissa and a power of two.
This module takes the three out of its bit pattern.  Everything that turns numbers into
text works on them in exact arithmetic.
-/

namespace SeriesQuery.Decimal

/-- A finite number `± mantissa · 2 ^ exponent`. -/
structure Binary where
  negative : Bool
  mantissa : Nat
  exponent : Int
  deriving DecidableEq, Repr

/-- The exponent field of the bit pattern. -/
def exponentField (x : Float) : Nat := (x.toBits.toNat / Nat.pow 2 52) % Nat.pow 2 11

/-- The fraction field of the bit pattern. -/
def fractionField (x : Float) : Nat := x.toBits.toNat % Nat.pow 2 52

/-- The sign bit, set for `-0` too. -/
def isNegative (x : Float) : Bool := x.toBits.toNat / Nat.pow 2 63 == 1

/-- Sign, mantissa and exponent of a finite number. -/
def Binary.ofFloat (x : Float) : Binary :=
  let e := exponentField x
  if e = 0 then ⟨isNegative x, fractionField x, -1074⟩
  else ⟨isNegative x, Nat.pow 2 52 + fractionField x, (e : Int) - 1075⟩

/-- The numerator of the magnitude as a fraction. -/
def Binary.numerator (b : Binary) : Nat := b.mantissa * Nat.pow 2 b.exponent.toNat

/-- The denominator of the magnitude as a fraction. -/
def Binary.denominator (b : Binary) : Nat := Nat.pow 2 (-b.exponent).toNat

/-- A denominator is never zero. -/
theorem Binary.denominator_pos (b : Binary) : 0 < b.denominator := Nat.two_pow_pos _

/-- Whether a number is neither infinite nor undefined: the largest exponent field is
kept for the numbers that are. -/
def isFinite (x : Float) : Bool := exponentField x != 2047

/-- The natural number that a number is, if it is one. -/
def natural? (x : Float) : Option Nat :=
  let b := Binary.ofFloat x
  if isFinite x && (!b.negative || b.mantissa == 0) &&
    b.numerator % b.denominator == 0 then
    some (b.numerator / b.denominator)
  else none

end SeriesQuery.Decimal
