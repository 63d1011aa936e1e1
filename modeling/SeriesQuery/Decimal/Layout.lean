import SeriesQuery.Decimal.Shortest

/-!
# How numbers are written

Two layouts are in use.  A JSON text writes a number positionally when its leading digit
stands between the fifth place after the point and the sixteenth before it, always with
a fraction, and with an exponent otherwise.  A message writes every number positionally,
and a whole number without a fraction.
-/

namespace SeriesQuery.Decimal

/-- The decisions of a number's text. -/
structure Layout where
  /-- Powers of ten of the leading digit that are written without an exponent; all when
  absent. -/
  positional : Option (Int × Int)
  /-- Whether a whole number gets `.0`. -/
  wholeFraction : Bool

/-- Numbers in JSON texts. -/
def Layout.wire : Layout := ⟨some (-5, 15), true⟩

/-- Numbers in messages. -/
def Layout.message : Layout := ⟨none, false⟩

/-- Digits of a natural number. -/
def digits (n : Nat) : List Char := Nat.toDigits 10 n

/-- A whole number with its sign. -/
def signed (n : Int) : List Char :=
  if n < 0 then '-' :: digits n.natAbs else digits n.natAbs

/-- The digits of a numeral around the decimal point. -/
def positionalDigits (wholeFraction : Bool) (x : Numeral) : List Char :=
  let ds := digits x.digits
  if 0 ≤ x.exponent then
    ds ++ List.replicate x.exponent.toNat '0' ++
      (if wholeFraction then ['.', '0'] else [])
  else
    let places := (-x.exponent).toNat
    if places < ds.length then
      ds.take (ds.length - places) ++ '.' :: ds.drop (ds.length - places)
    else '0' :: '.' :: (List.replicate (places - ds.length) '0' ++ ds)

/-- One digit, the others after the point, and the power of ten with its sign. -/
def exponentDigits (x : Numeral) : List Char :=
  let ds := digits x.digits
  let power := x.exponent + (ds.length : Int) - 1
  ds.take 1 ++ (if ds.length ≤ 1 then [] else '.' :: ds.drop 1) ++
    'e' :: (if power < 0 then '-' else '+') :: digits power.natAbs

/-- The text of a positive numeral. -/
def Layout.numeral (l : Layout) (x : Numeral) : List Char :=
  let power := x.exponent + ((digits x.digits).length : Int) - 1
  match l.positional with
  | none => positionalDigits l.wholeFraction x
  | some (lo, hi) =>
    if lo ≤ power && power ≤ hi then positionalDigits l.wholeFraction x
      else exponentDigits x

/-- The text of a number. -/
def Layout.text (l : Layout) (x : Float) : List Char :=
  if x.isNaN then ['N', 'a', 'N']
  else
    let sign := if isNegative x then ['-'] else []
    if x.isInf then sign ++ ['i', 'n', 'f']
    else
      let b := Binary.ofFloat x
      if b.mantissa = 0 then sign ++ '0' :: (if l.wholeFraction then ['.', '0'] else [])
      else sign ++ l.numeral (shortest b)

/-- A number as messages show it. -/
def messageText (x : Float) : String := String.ofList (Layout.message.text x)

end SeriesQuery.Decimal
