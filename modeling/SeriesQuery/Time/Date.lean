/-!
# Calendar dates

Dates of the Gregorian calendar, extended to all years, and their day numbers counted
from the first of January 1970.  A date is found from its day number by taking off whole
periods of 400, 100, 4 and 1 years and then whole months.
-/

namespace SeriesQuery.Time

/-- A day of the calendar: months and days count from one. -/
structure Date where
  year : Int
  month : Nat
  day : Nat
  deriving DecidableEq, Repr, Inhabited

/-- Every fourth year has a leap day, of the full centuries only every fourth. -/
def isLeapYear (year : Int) : Bool :=
  year % 4 == 0 && (year % 100 != 0 || year % 400 == 0)

/-- The number of days of a month. -/
def monthLength (year : Int) (month : Nat) : Nat :=
  if month = 2 then (if isLeapYear year then 29 else 28)
  else if month = 4 || month = 6 || month = 9 || month = 11 then 30
  else 31

/-- Whether month and day exist in the calendar. -/
def Date.isValid (d : Date) : Bool :=
  1 ≤ d.month && d.month ≤ 12 && 1 ≤ d.day && d.day ≤ monthLength d.year d.month

/-- Days from the first of January of year 1 to the first of January of `year`. -/
def daysBeforeYear (year : Int) : Int :=
  365 * (year - 1) + (year - 1) / 4 - (year - 1) / 100 + (year - 1) / 400

/-- Days of `year` before the first of `month`. -/
def daysBeforeMonth (year : Int) (month : Nat) : Nat :=
  (List.range (month - 1)).foldl (fun days m => days + monthLength year (m + 1)) 0

/-- The day number of the first of January 1970 counted from the first of January of
year 1. -/
def epochDay : Int := 719162

/-- Days since the first of January 1970. -/
def Date.dayNumber (d : Date) : Int :=
  daysBeforeYear d.year + (daysBeforeMonth d.year d.month : Int) +
    (d.day : Int) - 1 - epochDay

/-- The month and the day of the month of a day of the year, both found by taking off
whole months; `left` counts the months that may still be taken off. -/
def monthAndDay (year : Int) (month : Nat) (dayOfYear : Nat) : (left : Nat) → Nat × Nat
  | 0 => (month, dayOfYear + 1)
  | left + 1 =>
    if dayOfYear < monthLength year month then (month, dayOfYear + 1)
    else monthAndDay year (month + 1) (dayOfYear - monthLength year month) left

/-- The date with a given day number. -/
def Date.ofDayNumber (n : Int) : Date :=
  let days := n + epochDay
  let fourCenturies := days / 146097
  let r := (days % 146097).toNat
  let centuries := min (r / 36524) 3
  let r := r - 36524 * centuries
  let fourYears := r / 1461
  let r := r % 1461
  let years := min (r / 365) 3
  let dayOfYear := r - 365 * years
  let year : Int := 400 * fourCenturies + 100 * centuries + 4 * fourYears + years + 1
  let md := monthAndDay year 1 dayOfYear 11
  ⟨year, md.1, md.2⟩

/-- The first year with dates. -/
def firstYear : Int := -262143

/-- The last year with dates. -/
def lastYear : Int := 262142

/-- The date of a year, a month and a day, if the calendar has it. -/
def Date.ofParts? (year : Int) (month day : Nat) : Option Date :=
  let d : Date := ⟨year, month, day⟩
  if firstYear ≤ year && year ≤ lastYear && d.isValid then some d else none

/-- The same day of the month some months earlier, or the last day of that month when it
is shorter.  Absent when that is before the first year. -/
def Date.minusMonths? (d : Date) (months : Nat) : Option Date :=
  let index := d.year * 12 + (d.month : Int) - 1 - (months : Int)
  let year := index / 12
  let month := (index % 12).toNat + 1
  Date.ofParts? year month (min d.day (monthLength year month))

end SeriesQuery.Time
