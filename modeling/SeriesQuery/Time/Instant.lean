import SeriesQuery.Time.Date

/-!
# Instants

An instant is a count of seconds since the start of 1970 and a count of nanoseconds
within the second.  A leap second has no number of its own: it is counted with the
second before it, and its nanoseconds run from one thousand million on.  Instants are
ordered by seconds first, so an instant inside a leap second comes before the second
that follows, although its milliseconds, counted from 1970, may be larger.
-/

namespace SeriesQuery.Time

/-- A point in time, in universal time. -/
structure Instant where
  second : Int
  nano : Nat
  deriving DecidableEq, Repr, Inhabited

namespace Instant

/-- Nanoseconds in a second. -/
def nanosPerSecond : Nat := 1000000000

/-- Seconds in a day. -/
def secondsPerDay : Int := 86400

/-- Whether the instant lies inside a leap second. -/
def inLeapSecond (t : Instant) : Bool := nanosPerSecond ≤ t.nano

/-- The first representable second. -/
def firstSecond : Int := (Date.mk firstYear 1 1).dayNumber * secondsPerDay

/-- The last representable second. -/
def lastSecond : Int := (Date.mk lastYear 12 31).dayNumber * secondsPerDay + 86399

/-- Whether the instant lies in a year that has dates. -/
def isRepresentable (t : Instant) : Bool :=
  firstSecond ≤ t.second && t.second ≤ lastSecond

/-- `t` comes before `u`. -/
def before (t u : Instant) : Bool :=
  t.second < u.second || (t.second == u.second && t.nano < u.nano)

/-- Milliseconds since the start of 1970, rounded down. -/
def millis (t : Instant) : Int := t.second * 1000 + (t.nano / 1000000 : Nat)

/-- The instant at a count of milliseconds since the start of 1970. -/
def ofMillis (n : Int) : Instant := ⟨n / 1000, (n % 1000).toNat * 1000000⟩

/-- The instant at a count of milliseconds, if it is representable. -/
def ofMillis? (n : Int) : Option Instant :=
  if (ofMillis n).isRepresentable then some (ofMillis n) else none

/-- The date of the instant. -/
def date (t : Instant) : Date := Date.ofDayNumber (t.second / secondsPerDay)

/-- The second of the day. -/
def secondOfDay (t : Instant) : Nat := (t.second % secondsPerDay).toNat

/-- The instant on a date at a second of the day. -/
def ofDate (d : Date) (secondOfDay nano : Nat) : Instant :=
  ⟨d.dayNumber * secondsPerDay + secondOfDay, nano⟩

/-- The instant some seconds earlier.  Leaving a leap second costs the second that it
is. -/
def minusSeconds (t : Instant) (n : Nat) : Instant :=
  if n = 0 then t
  else if t.inLeapSecond then ⟨t.second + 1 - (n : Int), t.nano - nanosPerSecond⟩
  else ⟨t.second - (n : Int), t.nano⟩

/-- The instant some seconds earlier, if it is representable. -/
def minusSeconds? (t : Instant) (n : Nat) : Option Instant :=
  if (t.minusSeconds n).isRepresentable then some (t.minusSeconds n) else none

/-- The same time of day some calendar months earlier, if that date exists. -/
def minusMonths? (t : Instant) (n : Nat) : Option Instant :=
  if n = 0 then some t
  else (t.date.minusMonths? n).map fun d => ofDate d t.secondOfDay t.nano

end Instant

end SeriesQuery.Time
