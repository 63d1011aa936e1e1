import SeriesQuery.Decimal.Layout
import SeriesQuery.Time.Instant

/-!
# The text of an instant

An instant is written as date, time of day and offset, the way RFC 3339 lays down.  The
fraction has three, six or nine digits, the fewest that lose nothing, and is left out
when it is zero.  A year outside 0 to 9999 has a sign and at least four digits.  A leap
second is second sixty.
-/

namespace SeriesQuery.Time

open SeriesQuery.Decimal

/-- A natural number in at least `width` digits. -/
def padded (width n : Nat) : List Char :=
  let ds := digits n
  List.replicate (width - ds.length) '0' ++ ds

/-- The text of a year. -/
def yearText (y : Int) : List Char :=
  if 0 ≤ y && y ≤ 9999 then padded 4 y.toNat
  else (if y < 0 then '-' else '+') :: padded 4 y.natAbs

/-- Year, month and day joined by hyphens. -/
def Date.text (d : Date) : List Char :=
  yearText d.year ++ '-' :: padded 2 d.month ++ '-' :: padded 2 d.day

namespace Instant

/-- The second of the minute, sixty inside a leap second. -/
def secondOfMinute (t : Instant) : Nat :=
  t.secondOfDay % 60 + (if t.inLeapSecond then 1 else 0)

/-- The nanoseconds since the second of the minute began. -/
def fraction (t : Instant) : Nat := t.nano % nanosPerSecond

/-- Hour, minute and second joined by colons. -/
def clockText (t : Instant) : List Char :=
  padded 2 (t.secondOfDay / 3600) ++ ':' :: padded 2 (t.secondOfDay / 60 % 60) ++
    ':' :: padded 2 t.secondOfMinute

/-- The fraction in as many groups of three digits as it needs. -/
def fractionText (t : Instant) : List Char :=
  let f := t.fraction
  if f = 0 then []
  else if f % 1000000 = 0 then '.' :: padded 3 (f / 1000000)
  else if f % 1000 = 0 then '.' :: padded 6 (f / 1000)
  else '.' :: padded 9 f

/-- Date and time of day without the offset. -/
def localText (t : Instant) : List Char :=
  t.date.text ++ 'T' :: t.clockText ++ t.fractionText

/-- The instant with the offset of universal time in numbers, as messages show it. -/
def text (t : Instant) : String := String.ofList (t.localText ++ "+00:00".toList)

/-- The instant with the letter for universal time, as JSON texts show it. -/
def zuluText (t : Instant) : String := String.ofList (t.localText ++ ['Z'])

/-- Date and time of day with milliseconds, as tables show it. -/
def tableText (t : Instant) : String :=
  String.ofList
    (t.date.text ++ ' ' :: t.clockText ++ '.' :: padded 3 (t.fraction / 1000000))

end Instant

end SeriesQuery.Time
