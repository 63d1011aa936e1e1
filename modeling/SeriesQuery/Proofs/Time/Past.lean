import SeriesQuery.Proofs.Time.Proper

/-!
# Times before the present

A relative time counts back from the present.  Fixed units are subtracted exactly, as
nanoseconds since 1970.  Months are taken off the calendar: the time of day stays, and
so does the day of the month, unless the month that is reached is shorter.  A relative
time has no value just if what it counts back to lies before the first representable
instant.

Dates in the calendar are ordered as their day numbers are, so that a date is known by
its day number and more months never lead to a later instant.

## Main results

* `Date.dayNumber_lt_of_before`, `Date.ofDayNumber_dayNumber`: the calendar and the day
  numbers.
* `Instant.minusMonths?_eq`, `Instant.minusSeconds?_eq`: what counting back gives, and
  when.
* `Moment.ago_exact`: relative times of all units and amounts.
-/

namespace SeriesQuery

namespace Time

/-! ## Dates in order -/

namespace Date

variable {d e : Date} {n : Nat}

/-- One date comes before another one in the calendar. -/
def Before (d e : Date) : Prop :=
  d.year < e.year ∨
    d.year = e.year ∧ (d.month < e.month ∨ d.month = e.month ∧ d.day < e.day)

private theorem before_or_eq_or_after (d e : Date) :
    d.Before e ∨ d = e ∨ e.Before d := by
  obtain ⟨year, month, day⟩ := d
  obtain ⟨year', month', day'⟩ := e
  simp only [Before, mk.injEq]
  omega

private theorem isValid_iff :
    d.isValid = true ↔
    (1 ≤ d.month ∧ d.month ≤ 12) ∧ 1 ≤ d.day ∧ d.day ≤ monthLength d.year d.month := by
  simp only [isValid, Bool.and_eq_true, decide_eq_true_eq, and_assoc]

/-- Of two dates in the calendar the earlier one has the smaller day number. -/
theorem dayNumber_lt_of_before (hd : d.isValid = true) (he : e.isValid = true)
    (h : d.Before e) : d.dayNumber < e.dayNumber := by
  obtain ⟨-, hend⟩ := dayNumber_bounds hd
  obtain ⟨hstart, -⟩ := dayNumber_bounds he
  obtain ⟨⟨hm, -⟩, -, hlast⟩ := isValid_iff.1 hd
  obtain ⟨-, hfirst, -⟩ := isValid_iff.1 he
  rcases h with hyear | ⟨hyear, hmonth | ⟨hmonth, hday⟩⟩
  · have hmono : daysBeforeYear (d.year + 1) ≤ daysBeforeYear e.year := by
      simp only [daysBeforeYear]
      omega
    omega
  · have hnext := daysBeforeMonth_succ d.year hm
    have hmono : daysBeforeMonth d.year (d.month + 1) ≤
        daysBeforeMonth d.year e.month :=
      daysBeforeMonth_mono d.year (Nat.le_add_left 1 d.month) hmonth
    simp only [dayNumber, ← hyear]
    omega
  · simp only [dayNumber, ← hyear, ← hmonth]
    omega

/-- A date in the calendar is known by its day number. -/
theorem ofDayNumber_dayNumber (h : d.isValid = true) : ofDayNumber d.dayNumber = d := by
  have hsame := dayNumber_ofDayNumber d.dayNumber
  have hvalid := isValid_ofDayNumber d.dayNumber
  rcases before_or_eq_or_after (ofDayNumber d.dayNumber) d with hlt | heq | hgt
  · exact absurd (dayNumber_lt_of_before hvalid h hlt) (by omega)
  · exact heq
  · exact absurd (dayNumber_lt_of_before h hvalid hgt) (by omega)

/-! ## Months back -/

private theorem monthLength_pos (year : Int) (month : Nat) :
    1 ≤ monthLength year month := by
  unfold monthLength
  split <;> split <;> decide

/-- A date some months back in the calendar: the months are taken off year and month,
and the day stays, or becomes the last one of a shorter month. -/
structure MonthsBack (d : Date) (n : Nat) (e : Date) : Prop where
  months : e.year * 12 + (e.month : Int) = d.year * 12 + (d.month : Int) - (n : Int)
  month : 1 ≤ e.month ∧ e.month ≤ 12
  day : e.day = min d.day (monthLength e.year e.month)

/-- The date some months back, whether or not it is representable. -/
def monthsBack (d : Date) (n : Nat) : Date :=
  let index := d.year * 12 + (d.month : Int) - 1 - (n : Int)
  let month := (index % 12).toNat + 1
  ⟨index / 12, month, min d.day (monthLength (index / 12) month)⟩

private theorem monthsBack_spec (d : Date)
    (n : Nat) : d.MonthsBack n (d.monthsBack n) where
  months := by
    simp only [monthsBack]
    omega
  month := by
    simp only [monthsBack]
    omega
  day := rfl

/-- There is one date so many months back. -/
theorem MonthsBack.unique {e' : Date} (h : d.MonthsBack n e) (h' : d.MonthsBack n e') :
    e = e' := by
  obtain ⟨year, month, day⟩ := e
  obtain ⟨year', month', day'⟩ := e'
  obtain ⟨hmonths, hmonth, hday⟩ := h
  obtain ⟨hmonths', hmonth', hday'⟩ := h'
  simp only at hmonths hmonth hday hmonths' hmonth' hday'
  obtain rfl : year = year' := by omega
  obtain rfl : month = month' := by omega
  rw [hday, hday']

private theorem MonthsBack.isValid (h : d.MonthsBack n e) (hd : d.isValid = true) :
    e.isValid = true := by
  obtain ⟨-, hfirst, -⟩ := isValid_iff.1 hd
  have hpos := monthLength_pos e.year e.month
  have hday := h.day
  exact isValid_iff.2 ⟨h.month, by omega, by omega⟩

/-- A date some months back has no greater year. -/
theorem MonthsBack.year_le (h : d.MonthsBack n e) (hd : d.isValid = true) :
    e.year ≤ d.year := by
  obtain ⟨⟨-, hm⟩, -⟩ := isValid_iff.1 hd
  obtain ⟨hmonth, -⟩ := h.month
  have hmonths := h.months
  omega

/-- No month back is the date itself. -/
theorem monthsBack_zero (h : d.isValid = true) : d.MonthsBack 0 d := by
  obtain ⟨hmonth, -, hlast⟩ := isValid_iff.1 h
  exact ⟨by omega, hmonth, by omega⟩

/-- The date some months back, unless it lies before the first year. -/
theorem minusMonths?_eq (hd : d.isValid = true) (hlast : d.year ≤ lastYear) (n : Nat) :
    d.minusMonths? n = if (d.monthsBack n).year < firstYear then none
      else some (d.monthsBack n) := by
  have hparts : d.minusMonths? n =
      ofParts? (d.monthsBack n).year (d.monthsBack n).month (d.monthsBack n).day := rfl
  have hback := monthsBack_spec d n
  have hyear := hback.year_le hd
  have hvalid := hback.isValid hd
  rw [hparts]
  generalize d.monthsBack n = e at hyear hvalid ⊢
  split
  · rw [Option.eq_none_iff_forall_ne_some]
    intro f hf
    obtain ⟨rfl, ⟨hfirst, -⟩, -⟩ := ofParts?_eq_some.1 hf
    simp only at hfirst
    omega
  · exact ofParts?_eq_some.2 ⟨rfl, by omega, hvalid⟩

/-- More months back is never later. -/
theorem MonthsBack.dayNumber_le {m : Nat} {f : Date} (hd : d.isValid = true)
    (hmn : m ≤ n) (he : d.MonthsBack m e) (hf : d.MonthsBack n f) :
    f.dayNumber ≤ e.dayNumber := by
  rcases Nat.eq_or_lt_of_le hmn with rfl | hlt
  · rw [he.unique hf]
  · have hbefore : f.Before e := by
      have hmonths := he.months
      have hmonths' := hf.months
      have hmonth := he.month
      have hmonth' := hf.month
      unfold Before
      omega
    exact Int.le_of_lt (dayNumber_lt_of_before (hf.isValid hd) (he.isValid hd) hbefore)

end Date

/-! ## Instants on dates -/

namespace Instant

variable {t u : Instant} {d : Date} {n seconds nano : Nat}

/-- The first representable instant. -/
def earliest : Instant := ⟨firstSecond, 0⟩

/-- Nanoseconds since the start of 1970. -/
def nanos (t : Instant) : Int := t.second * (nanosPerSecond : Int) + (t.nano : Int)

private theorem secondOfDay_lt_day (t : Instant) : t.secondOfDay < 86400 := by
  simp only [secondOfDay, secondsPerDay]
  omega

private theorem date_ofDate (hd : d.isValid = true) (hs : seconds < 86400) :
    (ofDate d seconds nano).date = d := by
  have hday : (d.dayNumber * secondsPerDay + (seconds : Int)) / secondsPerDay =
      d.dayNumber := by
    simp only [secondsPerDay]
    omega
  rw [date, ofDate, hday]
  exact Date.ofDayNumber_dayNumber hd

private theorem secondOfDay_ofDate (hs : seconds < 86400) :
    (ofDate d seconds nano).secondOfDay = seconds := by
  simp only [secondOfDay, ofDate, secondsPerDay]
  omega

/-- On an earlier date, or on the same, the same time of day is no later. -/
theorem not_before_ofDate {e : Date} (h : d.dayNumber ≤ e.dayNumber) :
    (ofDate e seconds nano).before (ofDate d seconds nano) = false := by
  have hsecond : (ofDate d seconds nano).second ≤ (ofDate e seconds nano).second := by
    simp only [ofDate, secondsPerDay]
    omega
  simp only [before, Bool.or_eq_false_iff, Bool.and_eq_false_iff,
    decide_eq_false_iff_not]
  exact ⟨by omega, .inr (Nat.lt_irrefl nano)⟩

/-! ## Counting back -/

/-- What lies some seconds before an instant outside leap seconds, and when that is
representable. -/
theorem minusSeconds?_eq (ht : t.isRepresentable = true)
    (hleap : t.inLeapSecond = false) (n : Nat) :
    t.minusSeconds? n =
      if firstSecond ≤ t.second - (n : Int) then some ⟨t.second - (n : Int), t.nano⟩
      else none := by
  have hback : t.minusSeconds n = ⟨t.second - (n : Int), t.nano⟩ := by
    unfold minusSeconds
    split
    · rename_i hzero
      obtain ⟨second, nano⟩ := t
      simp [hzero]
    · rw [if_neg (by simp [hleap])]
  simp only [isRepresentable, Bool.and_eq_true, decide_eq_true_eq] at ht
  have hrepresentable : (t.minusSeconds n).isRepresentable =
      decide (firstSecond ≤ t.second - (n : Int)) := by
    rw [hback, isRepresentable, Bool.and_eq_left_iff_imp]
    exact fun _ => decide_eq_true (by show t.second - (n : Int) ≤ lastSecond; omega)
  unfold minusSeconds?
  rw [hrepresentable, hback]
  simp only [decide_eq_true_eq]

/-- What lies some months before an instant, and when that is representable. -/
theorem minusMonths?_eq (ht : t.isRepresentable = true) (n : Nat) :
    t.minusMonths? n =
      if (t.date.monthsBack n).year < firstYear then none
      else some (ofDate (t.date.monthsBack n) t.secondOfDay t.nano) := by
  obtain ⟨-, ⟨hlow, hhigh⟩, hvalid⟩ := Date.ofParts?_eq_some.1 (ofParts?_date ht)
  have hback := Date.monthsBack_spec t.date n
  unfold minusMonths?
  split
  · rename_i hzero
    subst hzero
    rw [hback.unique (Date.monthsBack_zero hvalid), if_neg (by omega), ofDate_date]
  · rw [Date.minusMonths?_eq hvalid hhigh]
    split <;> rfl

end Instant

end Time

open SeriesQuery.Time

/-! ## Units -/

/-- How many seconds a unit lasts; a month has no fixed length. -/
inductive TimeUnit.Lasts : TimeUnit → Nat → Prop
  | second : Lasts .second 1
  | minute {n : Nat} : Lasts .second n → Lasts .minute (60 * n)
  | hour {n : Nat} : Lasts .minute n → Lasts .hour (60 * n)
  | day {n : Nat} : Lasts .hour n → Lasts .day (24 * n)
  | week {n : Nat} : Lasts .day n → Lasts .week (7 * n)

private theorem TimeUnit.Lasts.seconds?_eq {unit : TimeUnit} {n : Nat}
    (h : unit.Lasts n) : unit.seconds? = some n := by
  induction h with
  | second => rfl
  | minute _ ih | hour _ ih | day _ ih | week _ ih =>
      obtain rfl := Option.some.inj ih
      rfl

/-- Every unit but the month lasts some seconds. -/
theorem TimeUnit.exists_lasts {unit : TimeUnit} (h : unit ≠ .month) :
    ∃ n, unit.Lasts n := by
  have hminute := Lasts.minute .second
  have hday := Lasts.day (.hour hminute)
  cases unit with
  | second => exact ⟨_, .second⟩
  | minute => exact ⟨_, hminute⟩
  | hour => exact ⟨_, .hour hminute⟩
  | day => exact ⟨_, hday⟩
  | week => exact ⟨_, .week hday⟩
  | month => exact absurd rfl h

/-- The most seconds in a length of time: its milliseconds fit in 64 bits with a
sign. -/
def longestSeconds : Nat := (Nat.pow 2 63 - 1) / 1000

/-- Every amount of 32 bits is a length of time in each of the fixed units. -/
theorem TimeUnit.Lasts.le_longest {unit : TimeUnit} {n amount : Nat} (h : unit.Lasts n)
    (hamount : amount < Nat.pow 2 32) : amount * n ≤ longestSeconds := by
  have hweek : n ≤ 604800 := by
    have hseconds := h.seconds?_eq
    cases unit <;>
      simp only [TimeUnit.seconds?, Option.some.injEq, reduceCtorEq] at hseconds <;>
      omega
  calc amount * n ≤ (Nat.pow 2 32 - 1) * 604800 := Nat.mul_le_mul (by omega) hweek
    _ ≤ longestSeconds := by decide

/-! ## Relative times -/

/-- How a relative time is told from the present. -/
structure Time.Instant.TellsPast (now : Instant) : Prop where
  /-- Every amount of a fixed unit is a length of time. -/
  length : ∀ (unit : TimeUnit) (n amount : Nat), unit.Lasts n → amount < Nat.pow 2 32 →
    amount * n ≤ longestSeconds
  /-- A fixed unit is subtracted exactly, unless the first instant is passed. -/
  fixed : ∀ (unit : TimeUnit) (n amount : Nat), unit.Lasts n → amount < Nat.pow 2 32 →
    let exact : Int := now.nanos - ((amount * n * Instant.nanosPerSecond : Nat) : Int)
    (Moment.resolve now (.ago amount unit) = .error (.outOfRange amount unit) ↔
      exact < Instant.earliest.nanos) ∧
    (Instant.earliest.nanos ≤ exact →
      ∃ t, Moment.resolve now (.ago amount unit) = .ok t ∧ t.isRepresentable = true ∧
        t.inLeapSecond = false ∧ t.nanos = exact)
  /-- Months are taken off the calendar, unless the first date is passed. -/
  months : ∀ amount, amount < Nat.pow 2 32 → ∃ target,
    now.date.MonthsBack amount target ∧
    (Moment.resolve now (.ago amount .month) = .error (.outOfRange amount .month) ↔
      target.Before ⟨firstYear, 1, 1⟩) ∧
    (¬ target.Before ⟨firstYear, 1, 1⟩ →
      ∃ t, Moment.resolve now (.ago amount .month) = .ok t ∧ t.date = target ∧
        t.secondOfDay = now.secondOfDay ∧ t.nano = now.nano)
  /-- A larger amount of a unit never gives a later instant. -/
  antitone : ∀ (unit : TimeUnit) (less more : Nat) (t u : Instant), less ≤ more →
    Moment.resolve now (.ago less unit) = .ok t →
    Moment.resolve now (.ago more unit) = .ok u → t.before u = false
  /-- No relative time is after the present. -/
  past : ∀ (unit : TimeUnit) (amount : Nat) (t : Instant),
    Moment.resolve now (.ago amount unit) = .ok t → now.before t = false

namespace Moment

variable {now t u : Instant} {unit : TimeUnit} {n amount : Nat}

private theorem resolve_ago (now : Instant) (amount : Nat) (unit : TimeUnit) :
    resolve now (.ago amount unit) =
      match unit.before? amount now with
      | some t => .ok t
      | none => .error (.outOfRange amount unit) :=
  rfl

private theorem resolve_ago_eq_ok :
    resolve now (.ago amount unit) = .ok t ↔ unit.before? amount now = some t := by
  rw [resolve_ago]
  cases unit.before? amount now <;> simp

private theorem resolve_ago_eq_error :
    resolve now (.ago amount unit) = .error (.outOfRange amount unit) ↔
      unit.before? amount now = none := by
  rw [resolve_ago]
  cases unit.before? amount now <;> simp

private theorem before?_of_lasts (h : unit.Lasts n) (amount : Nat) (now : Instant) :
    unit.before? amount now = now.minusSeconds? (amount * n) := by
  rw [TimeUnit.before?, h.seconds?_eq]

private theorem before?_month (amount : Nat) (now : Instant) :
    TimeUnit.month.before? amount now = now.minusMonths? amount := rfl

/-- Counting fixed units back, in nanoseconds. -/
theorem ago_fixed (hnow : now.isRepresentable = true) (hleap : now.inLeapSecond = false)
    (h : unit.Lasts n) :
    let exact : Int := now.nanos - ((amount * n * Instant.nanosPerSecond : Nat) : Int)
    (resolve now (.ago amount unit) = .error (.outOfRange amount unit) ↔
      exact < Instant.earliest.nanos) ∧
    (Instant.earliest.nanos ≤ exact →
      ∃ t, resolve now (.ago amount unit) = .ok t ∧ t.isRepresentable = true ∧
        t.inLeapSecond = false ∧ t.nanos = exact) := by
  intro exact
  have hback := (before?_of_lasts h amount now).trans
    (Instant.minusSeconds?_eq hnow hleap (amount * n))
  have hnano : now.nano < Instant.nanosPerSecond := by
    simpa [Instant.inLeapSecond] using hleap
  -- whole seconds: the nanoseconds of the present do not bear on the comparison
  have hexact : exact =
      (now.second - ((amount * n : Nat) : Int)) * (Instant.nanosPerSecond : Int) +
      (now.nano : Int) := by
    simp only [exact, Instant.nanos, Int.sub_mul, Nat.cast_mul]
    omega
  have hearliest : Instant.earliest.nanos =
      Instant.firstSecond * (Instant.nanosPerSecond : Int) := by
    simp only [Instant.earliest, Instant.nanos]
    omega
  simp only [Instant.nanosPerSecond] at hexact hearliest hnano
  constructor
  · rw [resolve_ago_eq_error, hback, ite_eq_right_iff]
    simp only [reduceCtorEq, imp_false]
    omega
  · intro hle
    have hfirst :
        Instant.firstSecond ≤ now.second - ((amount * n : Nat) : Int) := by omega
    have ht : resolve now (.ago amount unit) =
        .ok ⟨now.second - ((amount * n : Nat) : Int), now.nano⟩ := by
      rw [resolve_ago_eq_ok, hback, if_pos hfirst]
    refine ⟨_, ht, ?_, hleap, hexact.symm⟩
    simp only [Instant.isRepresentable, Bool.and_eq_true, decide_eq_true_eq] at hnow ⊢
    omega

/-- Counting months back, in the calendar. -/
theorem ago_months (hnow : now.isRepresentable = true) (amount : Nat) :
    ∃ target, now.date.MonthsBack amount target ∧
      (resolve now (.ago amount .month) = .error (.outOfRange amount .month) ↔
        target.Before ⟨firstYear, 1, 1⟩) ∧
      (¬ target.Before ⟨firstYear, 1, 1⟩ →
        ∃ t, resolve now (.ago amount .month) = .ok t ∧ t.date = target ∧
          t.secondOfDay = now.secondOfDay ∧ t.nano = now.nano) := by
  obtain ⟨-, -, hvalid⟩ := Date.ofParts?_eq_some.1 (Instant.ofParts?_date hnow)
  have hspec := Date.monthsBack_spec now.date amount
  have htarget := hspec.isValid hvalid
  have hback := (before?_month amount now).trans (Instant.minusMonths?_eq hnow amount)
  -- no day of the calendar comes before the first of its year
  have hbefore : (now.date.monthsBack amount).Before ⟨firstYear, 1, 1⟩ ↔
      (now.date.monthsBack amount).year < firstYear := by
    obtain ⟨⟨hmonth, -⟩, hday, -⟩ := Date.isValid_iff.1 htarget
    simp only [Date.Before]
    omega
  refine ⟨_, hspec, ?_, ?_⟩
  · rw [resolve_ago_eq_error, hback, hbefore, ite_eq_left_iff]
    simp only [reduceCtorEq, imp_false, not_not]
  · intro h
    refine ⟨Instant.ofDate _ now.secondOfDay now.nano, ?_,
      Instant.date_ofDate htarget now.secondOfDay_lt_day,
      Instant.secondOfDay_ofDate now.secondOfDay_lt_day, rfl⟩
    rw [resolve_ago_eq_ok, hback, if_neg fun hyear => h (hbefore.2 hyear)]

/-- A larger amount of a unit never gives a later instant. -/
theorem ago_antitone (hnow : now.isRepresentable = true)
    (hleap : now.inLeapSecond = false) {less more : Nat} (h : less ≤ more)
    (ht : resolve now (.ago less unit) = .ok t)
    (hu : resolve now (.ago more unit) = .ok u) : t.before u = false := by
  rw [resolve_ago_eq_ok] at ht hu
  by_cases hunit : unit = .month
  · subst hunit
    obtain ⟨-, -, hvalid⟩ := Date.ofParts?_eq_some.1 (Instant.ofParts?_date hnow)
    rw [before?_month, Instant.minusMonths?_eq hnow] at ht hu
    obtain ⟨-, ht⟩ := Option.ite_none_left_eq_some.1 ht
    obtain ⟨-, hu⟩ := Option.ite_none_left_eq_some.1 hu
    cases ht
    cases hu
    exact Instant.not_before_ofDate
      (Date.MonthsBack.dayNumber_le hvalid h (Date.monthsBack_spec _ _)
        (Date.monthsBack_spec _ _))
  · obtain ⟨n, hn⟩ := TimeUnit.exists_lasts hunit
    have hmore : less * n ≤ more * n := Nat.mul_le_mul_right n h
    rw [before?_of_lasts hn, Instant.minusSeconds?_eq hnow hleap] at ht hu
    obtain ⟨-, ht⟩ := Option.ite_none_right_eq_some.1 ht
    obtain ⟨-, hu⟩ := Option.ite_none_right_eq_some.1 hu
    cases ht
    cases hu
    simp only [Instant.before, Bool.or_eq_false_iff, Bool.and_eq_false_iff,
      decide_eq_false_iff_not, beq_eq_false_iff_ne]
    omega

/-- Nothing counted back is the present itself. -/
theorem ago_zero (hnow : now.isRepresentable = true)
    (hleap : now.inLeapSecond = false) : resolve now (.ago 0 unit) = .ok now := by
  rw [resolve_ago_eq_ok]
  by_cases hunit : unit = .month
  · subst hunit
    rfl
  · obtain ⟨n, hn⟩ := TimeUnit.exists_lasts hunit
    simp only [Instant.isRepresentable, Bool.and_eq_true, decide_eq_true_eq] at hnow
    rw [before?_of_lasts hn,
      Instant.minusSeconds?_eq (by simpa [Instant.isRepresentable] using hnow) hleap,
      if_pos (by omega)]
    simp

/-- Relative times of every unit and every amount are exact, and have no value just if
they lie before the first representable instant. -/
theorem ago_exact {now : Instant} (hnow : now.isRepresentable = true)
    (hleap : now.inLeapSecond = false) : now.TellsPast where
  length _ _ _ hn hamount := hn.le_longest hamount
  fixed _ _ _ hn _ := ago_fixed hnow hleap hn
  months amount _ := ago_months hnow amount
  antitone _ _ _ _ _ h ht hu := ago_antitone hnow hleap h ht hu
  past _ amount _ ht :=
    ago_antitone hnow hleap (Nat.zero_le amount) (ago_zero hnow hleap) ht

/-- The last of March 2024, at eight o'clock. -/
def marchEnd : Instant := Instant.ofDate ⟨2024, 3, 31⟩ 28800 0

/-- A month before the last of March is the last of February; the greatest amount of
weeks leads beyond the first representable instant. -/
theorem ago_exact_marchEnd :
    marchEnd.isRepresentable = true ∧ marchEnd.inLeapSecond = false ∧
      (∃ t, resolve marchEnd (.ago 1 .month) = .ok t ∧ t.date = ⟨2024, 2, 29⟩ ∧
        t.secondOfDay = 28800) ∧
      resolve marchEnd (.ago 4294967295 .week) =
        .error (.outOfRange 4294967295 .week) := by
  have hnow : marchEnd.isRepresentable = true := by decide +kernel
  have hleap : marchEnd.inLeapSecond = false := by decide
  have htells := ago_exact hnow hleap
  refine ⟨hnow, hleap, ?_, ?_⟩
  · obtain ⟨target, hback, -, hok⟩ := htells.months 1 (by decide)
    have hdate : marchEnd.date = ⟨2024, 3, 31⟩ := by decide +kernel
    have hfebruary : marchEnd.date.MonthsBack 1 ⟨2024, 2, 29⟩ := by
      rw [hdate]
      exact ⟨by decide, by decide, by decide⟩
    obtain rfl := hback.unique hfebruary
    obtain ⟨t, ht, hd, hs, -⟩ := hok (by simp only [Date.Before, firstYear]; decide)
    exact ⟨t, ht, hd, hs.trans (by decide +kernel)⟩
  · exact (htells.fixed .week _ 4294967295 (.week (.day (.hour (.minute .second))))
      (by decide)).1.2 (by decide +kernel)

end Moment

end SeriesQuery
