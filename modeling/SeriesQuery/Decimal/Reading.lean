import SeriesQuery.Decimal.Layout

/-!
# Reading numerals

A decimal numeral denotes the number nearest to it, with ties to the even neighbour; one
beyond the largest number denotes infinity.  A setting or a number given as text may
also spell infinity and "not a number".  Unsigned whole numbers are read with an
optional plus sign and refused beyond a limit.
-/

namespace SeriesQuery.Decimal

/-- The number that a run of decimal digits denotes. -/
def natOfDigits (ds : List Char) : Nat :=
  ds.foldl (fun n c => 10 * n + (c.toNat - '0'.toNat)) 0

/-- A numeral as written: sign, digits before and after the point, exponent with its
sign. -/
structure Spelling where
  negative : Bool
  whole : List Char
  fraction : List Char
  exponentNegative : Bool
  exponent : List Char
  deriving DecidableEq, Repr

/-- The power of ten of the last written digit. -/
def Spelling.power (s : Spelling) : Int :=
  let e : Int := natOfDigits s.exponent
  (if s.exponentNegative then -e else e) - (s.fraction.length : Int)

/-- The number nearest to `0.ds` times a power of ten, where `ds` begins with a digit
that is not zero.  Beyond `10 ^ 310` and below `10 ^ -330` nothing is left to be worked
out. -/
def scaledDigits (ds : List Char) (power : Int) : Float :=
  if 310 < power then 1 / 0
  else if power < -330 then 0
  else
    let p := power - (ds.length : Int)
    Float.ofScientific (natOfDigits ds) (p < 0) p.natAbs

/-- The number nearest to the numeral. -/
def Spelling.value (s : Spelling) : Float :=
  let ds := (s.whole ++ s.fraction).dropWhile (· == '0')
  let magnitude :=
    if ds.isEmpty then 0 else scaledDigits ds (s.power + (ds.length : Int))
  if s.negative then -magnitude else magnitude

/-- The digits after a point, if there is one, and what follows them. -/
def takeFraction : List Char → List Char × List Char
  | '.' :: r => (r.takeWhile Char.isDigit, r.dropWhile Char.isDigit)
  | r => ([], r)

/-- Whether there is a minus sign, and what follows the sign. -/
def takeSign : List Char → Bool × List Char
  | '-' :: r => (true, r)
  | '+' :: r => (false, r)
  | r => (false, r)

/-- The sign and the digits of an exponent, which is all that is left of a numeral, if
anything. -/
def exponent? : List Char → Option (Bool × List Char)
  | [] => some (false, [])
  | c :: r =>
    let (negative, ds) := takeSign r
    if (c = 'e' || c = 'E') && !ds.isEmpty && ds.all Char.isDigit then
      some (negative, ds)
    else none

/-- Digits, an optional fraction and an optional exponent, with nothing after them.
Digits may be missing on one side of the point, not on both. -/
def Spelling.read? (negative : Bool) (s : List Char) : Option Spelling :=
  let whole := s.takeWhile Char.isDigit
  let (fraction, r) := takeFraction (s.dropWhile Char.isDigit)
  if whole.isEmpty && fraction.isEmpty then none
  else (exponent? r).map fun e => ⟨negative, whole, fraction, e.1, e.2⟩

/-- The number that an unsigned text denotes. -/
def readMagnitude? (negative : Bool) (s : List Char) : Option Float :=
  let word := s.map Char.toLower
  let infinity : Float := 1 / 0
  if word = "inf".toList || word = "infinity".toList then
    some (if negative then -infinity else infinity)
  else if word = "nan".toList then some (0 / 0)
  else (Spelling.read? negative s).map Spelling.value

/-- The number that a text denotes: a numeral with an optional sign, or one of the words
for infinity and "not a number" in any letter case. -/
def read? (s : String) : Option Float :=
  match s.toList with
  | '-' :: r => readMagnitude? true r
  | '+' :: r => readMagnitude? false r
  | r => readMagnitude? false r

/-- A whole number of decimal digits with an optional plus sign, at most `limit`. -/
def readNat? (limit : Nat) (s : String) : Option Nat :=
  let ds := match s.toList with
    | '+' :: r => r
    | r => r
  if ds.isEmpty || !ds.all Char.isDigit then none
  else
    let n := natOfDigits ds
    if n ≤ limit then some n else none

end SeriesQuery.Decimal
