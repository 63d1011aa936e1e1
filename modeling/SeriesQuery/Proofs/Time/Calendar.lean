import Mathlib.Data.List.Range
import Mathlib.Tactic.Ring
import SeriesQuery.Time.Instant

/-!
# The calendar

Every day number has one date, and the date is in the calendar.  The parts that are
taken off a day number are whole periods of 400, 100, 4 and 1 years, so what is left is
a day of the year, and whole months are taken off that until a day of the month is left.

## Main results

* `Date.dayNumber_ofDayNumber`: the date of a day number has that day number.
* `Date.isValid_ofDayNumber`: it is in the calendar.
* `Instant.ofParts?_date`: the date of a representable instant is read back from its
  parts.
* `Instant.isRepresentable_ofDate`: every instant on a date with a year in range is
  representable.
-/

namespace SeriesQuery.Time

/-! ## Months -/

theorem daysBeforeMonth_succ (year : Int) {month : Nat} (h : 1 ≤ month) :
    daysBeforeMonth year (month + 1) =
      daysBeforeMonth year month + monthLength year month := by
  unfold daysBeforeMonth
  rw [Nat.add_sub_cancel, ← Nat.sub_add_cancel h, List.range_succ, List.foldl_append,
    Nat.add_sub_cancel]
  rfl

theorem daysBeforeMonth_mono (year : Int) {a b : Nat} (ha : 1 ≤ a) (hab : a ≤ b) :
    daysBeforeMonth year a ≤ daysBeforeMonth year b := by
  induction hab with
  | refl => exact Nat.le_refl _
  | step hab ih =>
      rw [Nat.succ_eq_add_one, daysBeforeMonth_succ year (Nat.le_trans ha hab)]
      omega

/-- The length of a year. -/
theorem daysBeforeMonth_end (year : Int) :
    daysBeforeMonth year 13 = if isLeapYear year then 366 else 365 := by
  by_cases h : isLeapYear year = true <;>
    simp [daysBeforeMonth, List.range, List.range.loop, monthLength, h]

/-- A day of a month is a day of the year. -/
structure InMonth (year : Int) (dayOfYear : Nat) (md : Nat × Nat) : Prop where
  month : 1 ≤ md.1 ∧ md.1 ≤ 12
  day : 1 ≤ md.2 ∧ md.2 ≤ monthLength year md.1
  eq : daysBeforeMonth year md.1 + md.2 = dayOfYear + 1

/-- Taking off whole months leaves a day of the last one. -/
theorem inMonth_monthAndDay {year : Int} {left month dayOfYear : Nat}
    (hmonth : 1 ≤ month) (hleft : month + left = 12)
    (hday : daysBeforeMonth year month + dayOfYear < daysBeforeMonth year 13) :
    InMonth year (daysBeforeMonth year month + dayOfYear)
      (monthAndDay year month dayOfYear left) := by
  induction left generalizing month dayOfYear with
  | zero =>
      obtain rfl : month = 12 := hleft
      have hlast : daysBeforeMonth year 13 =
          daysBeforeMonth year 12 + monthLength year 12 :=
        daysBeforeMonth_succ year (by omega)
      rw [monthAndDay]
      exact ⟨by simp, ⟨by omega, by simp only; omega⟩, by simp only; omega⟩
  | succ left ih =>
      rw [monthAndDay]
      split
      · exact ⟨⟨hmonth, by simp only; omega⟩, ⟨by omega, by simp only; omega⟩, by
          simp only; omega⟩
      · rename_i hlong
        have hnext := daysBeforeMonth_succ year hmonth
        have hsame : daysBeforeMonth year (month + 1) +
            (dayOfYear - monthLength year month) =
            daysBeforeMonth year month + dayOfYear := by omega
        rw [← hsame]
        exact ih (by omega) (by omega) (by omega)

/-! ## Years -/

/-- The days of a year come between its start and the start of the next. -/
theorem daysBeforeYear_succ (year : Int) :
    daysBeforeYear (year + 1) = daysBeforeYear year + daysBeforeMonth year 13 := by
  rw [daysBeforeMonth_end]
  simp only [daysBeforeYear]
  by_cases h : isLeapYear year = true
  · rw [if_pos h]
    simp only [isLeapYear, Bool.and_eq_true, Bool.or_eq_true, beq_iff_eq,
      bne_iff_ne] at h
    omega
  · rw [if_neg h]
    simp only [isLeapYear, Bool.and_eq_true, Bool.or_eq_true, beq_iff_eq,
      bne_iff_ne] at h
    omega

/-- The parts of a day number: whole periods of 400, 100, 4 and 1 years and a day of the
year. -/
structure YearParts (days : Int) where
  fourCenturies : Int
  centuries : Nat
  fourYears : Nat
  years : Nat
  dayOfYear : Nat
  centuries_le : centuries ≤ 3
  fourYears_le : fourYears ≤ 24
  years_le : years ≤ 3
  sum : days = 146097 * fourCenturies + 36524 * centuries + 1461 * fourYears +
    365 * years + dayOfYear
  /-- The day of the year is the last of a leap year only where there is one. -/
  short : dayOfYear < 365 ∨
    dayOfYear = 365 ∧ years = 3 ∧ (fourYears = 24 → centuries = 3)

namespace YearParts

variable {days : Int} (p : YearParts days)

/-- The year of the parts. -/
def year : Int :=
  400 * p.fourCenturies + 100 * p.centuries + 4 * p.fourYears + p.years + 1

/-- The days before the year are those of the periods. -/
theorem daysBeforeYear_year :
    daysBeforeYear p.year =
      146097 * p.fourCenturies + 36524 * p.centuries + 1461 * p.fourYears +
        365 * p.years := by
  have hc := p.centuries_le
  have hf := p.fourYears_le
  have hy := p.years_le
  simp only [daysBeforeYear, year]
  omega

private theorem dayOfYear_lt : p.dayOfYear < daysBeforeMonth p.year 13 := by
  rw [daysBeforeMonth_end]
  have hc := p.centuries_le
  have hf := p.fourYears_le
  rcases p.short with hshort | ⟨hday, hyears, hcentury⟩
  · split <;> omega
  · have hleap : isLeapYear p.year = true := by
      simp only [isLeapYear, year, hyears, Bool.and_eq_true, Bool.or_eq_true,
        beq_iff_eq, bne_iff_ne]
      omega
    rw [hleap, hday]
    decide

end YearParts

/-- The parts that are taken off a day number. -/
def yearParts (days : Int) : YearParts days :=
  let r := (days % 146097).toNat
  let centuries := min (r / 36524) 3
  let r₁ := r - 36524 * centuries
  let r₂ := r₁ % 1461
  let years := min (r₂ / 365) 3
  { fourCenturies := days / 146097
    centuries := centuries
    fourYears := r₁ / 1461
    years := years
    dayOfYear := r₂ - 365 * years
    centuries_le := by omega
    fourYears_le := by omega
    years_le := by omega
    sum := by omega
    short := by omega }

namespace Date

private theorem ofDayNumber_eq (n : Int) :
    ofDayNumber n =
      ⟨(yearParts (n + epochDay)).year,
        (monthAndDay (yearParts (n + epochDay)).year 1
          (yearParts (n + epochDay)).dayOfYear 11).1,
        (monthAndDay (yearParts (n + epochDay)).year 1
          (yearParts (n + epochDay)).dayOfYear 11).2⟩ :=
  rfl

/-- Month and day of a day number are those of a day of the year. -/
theorem inMonth_ofDayNumber (n : Int) :
    InMonth (ofDayNumber n).year (yearParts (n + epochDay)).dayOfYear
      ((ofDayNumber n).month, (ofDayNumber n).day) := by
  have hday := (yearParts (n + epochDay)).dayOfYear_lt
  have hzero : daysBeforeMonth (yearParts (n + epochDay)).year 1 = 0 := rfl
  have hin : InMonth _ _ (monthAndDay _ 1 (yearParts (n + epochDay)).dayOfYear 11) :=
    inMonth_monthAndDay (Nat.le_refl 1) rfl (by rw [hzero, Nat.zero_add]; exact hday)
  rw [hzero, Nat.zero_add] at hin
  rw [ofDayNumber_eq]
  exact hin

/-- The date of a day number is in the calendar. -/
theorem isValid_ofDayNumber (n : Int) : (ofDayNumber n).isValid = true := by
  obtain ⟨⟨hm, hm'⟩, ⟨hd, hd'⟩, -⟩ := inMonth_ofDayNumber n
  simp only [isValid, Bool.and_eq_true, decide_eq_true_eq]
  exact ⟨⟨⟨hm, hm'⟩, hd⟩, hd'⟩

/-- The date of a day number has that day number. -/
theorem dayNumber_ofDayNumber (n : Int) : (ofDayNumber n).dayNumber = n := by
  have heq := (inMonth_ofDayNumber n).eq
  have hyear := (yearParts (n + epochDay)).daysBeforeYear_year
  have hsum := (yearParts (n + epochDay)).sum
  have hsame : (ofDayNumber n).year = (yearParts (n + epochDay)).year := by
    rw [ofDayNumber_eq]
  simp only at heq
  rw [dayNumber, hsame, hyear]
  rw [hsame] at heq
  omega

/-- The day number of a date in the calendar lies within its year. -/
theorem dayNumber_bounds {d : Date} (h : d.isValid = true) :
    daysBeforeYear d.year ≤ d.dayNumber + epochDay ∧
      d.dayNumber + epochDay < daysBeforeYear (d.year + 1) := by
  obtain ⟨year, month, day⟩ := d
  simp only [isValid, Bool.and_eq_true, decide_eq_true_eq] at h
  obtain ⟨⟨⟨hm, hm'⟩, hd⟩, hd'⟩ := h
  have hmonth := daysBeforeMonth_succ year hm
  have hend : daysBeforeMonth year (month + 1) ≤ daysBeforeMonth year 13 :=
    daysBeforeMonth_mono year (Nat.le_add_left 1 month) (Nat.succ_le_succ hm')
  have hnext := daysBeforeYear_succ year
  simp only [dayNumber]
  omega

/-- The first and the last day with a date. -/
theorem firstDay_eq : (Date.mk firstYear 1 1).dayNumber = -96465292 := by decide +kernel

private theorem lastDay_eq : (Date.mk lastYear 12 31).dayNumber = 95026236 := by
  decide +kernel

/-- The years of the days with a date. -/
theorem year_ofDayNumber {n : Int} (hlow : (Date.mk firstYear 1 1).dayNumber ≤ n)
    (hhigh : n ≤ (Date.mk lastYear 12 31).dayNumber) :
    firstYear ≤ (ofDayNumber n).year ∧ (ofDayNumber n).year ≤ lastYear := by
  have hsum := (yearParts (n + epochDay)).sum
  have hshort := (yearParts (n + epochDay)).short
  have hc := (yearParts (n + epochDay)).centuries_le
  have hf := (yearParts (n + epochDay)).fourYears_le
  have hy := (yearParts (n + epochDay)).years_le
  rw [firstDay_eq] at hlow
  rw [lastDay_eq] at hhigh
  rw [ofDayNumber_eq]
  simp only [YearParts.year, firstYear, lastYear, epochDay] at *
  omega

/-- A date that has parts has them in the calendar. -/
theorem ofParts?_eq_some {year : Int} {month day : Nat} {d : Date} :
    ofParts? year month day = some d ↔
      d = ⟨year, month, day⟩ ∧ (firstYear ≤ d.year ∧ d.year ≤ lastYear) ∧
        d.isValid = true := by
  simp only [ofParts?]
  constructor
  · intro h
    split at h
    · rename_i hparts
      cases h
      simp only [Bool.and_eq_true, decide_eq_true_eq] at hparts
      exact ⟨rfl, hparts⟩
    · cases h
  · rintro ⟨rfl, hparts⟩
    rw [if_pos (by simpa only [Bool.and_eq_true, decide_eq_true_eq] using hparts)]

/-- A date with a year in range lies between the first and the last day. -/
theorem dayNumber_of_ofParts? {year : Int} {month day : Nat} {d : Date}
    (h : ofParts? year month day = some d) :
    (Date.mk firstYear 1 1).dayNumber ≤ d.dayNumber ∧
      d.dayNumber ≤ (Date.mk lastYear 12 31).dayNumber := by
  obtain ⟨-, ⟨hlow, hhigh⟩, hvalid⟩ := ofParts?_eq_some.1 h
  obtain ⟨hstart, hend⟩ := dayNumber_bounds hvalid
  rw [firstDay_eq, lastDay_eq]
  simp only [daysBeforeYear, epochDay, firstYear, lastYear] at *
  omega

end Date

/-! ## Instants -/

namespace Instant

private theorem isRepresentable_iff {t : Instant} :
    t.isRepresentable = true ↔
      (Date.mk firstYear 1 1).dayNumber ≤ t.second / secondsPerDay ∧
        t.second / secondsPerDay ≤ (Date.mk lastYear 12 31).dayNumber := by
  simp only [isRepresentable, firstSecond, lastSecond, secondsPerDay, Date.firstDay_eq,
    Date.lastDay_eq, Bool.and_eq_true, decide_eq_true_eq]
  omega

/-- The date of a representable instant is read back from its parts. -/
theorem ofParts?_date {t : Instant} (h : t.isRepresentable = true) :
    Date.ofParts? t.date.year t.date.month t.date.day = some t.date := by
  obtain ⟨hlow, hhigh⟩ := isRepresentable_iff.1 h
  exact Date.ofParts?_eq_some.2
    ⟨rfl, Date.year_ofDayNumber hlow hhigh, Date.isValid_ofDayNumber _⟩

/-- An instant is known by its date and its time of day. -/
theorem ofDate_date (t : Instant) : ofDate t.date t.secondOfDay t.nano = t := by
  obtain ⟨second, nano⟩ := t
  simp only [ofDate, date, Date.dayNumber_ofDayNumber, secondOfDay, secondsPerDay,
    mk.injEq, and_true]
  omega

/-- Every instant on a date with a year in range is representable. -/
theorem isRepresentable_ofDate {year : Int} {month day : Nat} {d : Date}
    {secondOfDay nano : Nat} (hd : Date.ofParts? year month day = some d)
    (hs : secondOfDay < 86400) :
    (ofDate d secondOfDay nano).isRepresentable = true := by
  obtain ⟨hlow, hhigh⟩ := Date.dayNumber_of_ofParts? hd
  have hday : (d.dayNumber * secondsPerDay + secondOfDay) / secondsPerDay =
      d.dayNumber := by
    simp only [secondsPerDay]
    omega
  rw [isRepresentable_iff, ofDate, hday]
  exact ⟨hlow, hhigh⟩

end Instant

end SeriesQuery.Time
