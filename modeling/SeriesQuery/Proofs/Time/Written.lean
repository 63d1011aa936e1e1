import Mathlib.Data.List.TakeWhile
import SeriesQuery.Proofs.Json.Numerals
import SeriesQuery.Proofs.Time.Calendar
import SeriesQuery.Time.Reading

/-!
# Written instants read back

The text of a representable instant outside leap seconds is read in the relaxed way, and
what is read is the instant.  Numbers are padded with zeros, and a padded number is read
up to its last digit; the parts are those of the date and the time of day, from which
the instant is put together again.

## Main results

* `takeDigits?_padded`, `takeYear?_yearText`, `takeFraction?_fractionText`: the numbers
  of the text.
* `Instant.readRelaxed?_zuluText`: the whole text.
-/

namespace SeriesQuery.Time

open SeriesQuery.Decimal
open SeriesQuery.Text (isSpace trimLeft)

/-! ## Padded numbers -/

section Padded

variable {width least n : Nat} {c : Char} {rest : List Char}

private theorem isDigit_of_mem_padded (h : c ∈ padded width n) : c.isDigit = true := by
  rcases List.mem_append.1 h with h | h
  · rw [List.eq_of_mem_replicate h]
    decide
  · exact isDigit_of_mem_digits h

/-- Leading zeros do not change a number. -/
theorem natOfDigits_padded : natOfDigits (padded width n) = n := by
  have hzeros := Nat.ofDigitChars_append (b := 10)
    (l := List.replicate (width - (digits n).length) '0') (m := digits n) 0
  rw [Nat.ofDigitChars_replicate_zero, Nat.mul_zero] at hzeros
  exact hzeros.trans (natOfDigits_digits n)

private theorem length_padded (hwidth : 0 < width) (hn : n < 10 ^ width) :
    (padded width n).length = width := by
  have hlen := (Nat.length_toDigits_le_iff (by decide) hwidth).2 hn
  simp only [padded, digits, List.length_append, List.length_replicate]
  omega

private theorem padded_ne_nil : padded width n ≠ [] :=
  List.append_ne_nil_of_right_ne_nil _ (digits_ne_nil n)

private theorem isSpace_of_isDigit (h : c.isDigit = true) : isSpace c = false := by
  simp only [Char.isDigit, Bool.and_eq_true, decide_eq_true_eq] at h
  have hlow : 48 ≤ c.toNat := h.1
  have hhigh : c.toNat ≤ 57 := h.2
  simp only [isSpace, Bool.or_eq_false_iff, Bool.and_eq_false_iff,
    decide_eq_false_iff_not, beq_eq_false_iff_ne, ne_eq]
  omega

private theorem trimLeft_cons (h : isSpace c = false) :
    trimLeft (c :: rest) = c :: rest :=
  List.dropWhile_cons_of_neg (by simp [h])

private theorem trimLeft_padded :
    trimLeft (padded width n ++ rest) = padded width n ++ rest := by
  cases h : padded width n with
  | nil => exact absurd h padded_ne_nil
  | cons c cs =>
      have hc : c ∈ padded width n := by simp [h]
      exact trimLeft_cons (isSpace_of_isDigit (isDigit_of_mem_padded hc))

private theorem takeWhile_padded (h : ∀ c ∈ rest.head?, c.isDigit = false) :
    (padded width n ++ rest).takeWhile Char.isDigit = padded width n := by
  rw [List.takeWhile_append_of_pos fun c hc => isDigit_of_mem_padded hc]
  cases rest with
  | nil => simp
  | cons c rest => simp [h c rfl]

/-- A padded number is read up to its last digit. -/
theorem takeDigits?_padded (hwidth : 0 < width) (hleast : least ≤ width)
    (hn : n < 10 ^ width) :
    takeDigits? least width (padded width n ++ rest) = some (n, rest) := by
  have hlen := length_padded hwidth hn
  have htake : (padded width n ++ rest).take width = padded width n := by
    rw [List.take_append_of_le_length hlen.ge, List.take_of_length_le hlen.le]
  have hall : (padded width n).takeWhile Char.isDigit = padded width n :=
    List.takeWhile_eq_self_iff.2 fun c hc => isDigit_of_mem_padded hc
  simp only [takeDigits?, htake, hall, hlen, if_neg hleast.not_gt, natOfDigits_padded,
    Option.some.injEq, Prod.mk.injEq, true_and]
  rw [List.drop_append_of_le_length hlen.ge, List.drop_of_length_le hlen.le,
    List.nil_append]

/-- A long number is read up to where its digits end. -/
theorem takeLongNumber?_padded (hn : n < Nat.pow 2 63)
    (h : ∀ c ∈ rest.head?, c.isDigit = false) :
    takeLongNumber? (padded width n ++ rest) = some (n, rest) := by
  have hempty : (padded width n).isEmpty = false := by
    rw [Bool.eq_false_iff, ne_eq, List.isEmpty_iff]
    exact padded_ne_nil
  simp [takeLongNumber?, takeWhile_padded h, natOfDigits_padded, hempty, hn]

end Padded

/-- A year is read up to the hyphen after it. -/
theorem takeYear?_yearText {y : Int} (hlow : firstYear ≤ y) (hhigh : y ≤ lastYear)
    (rest : List Char) :
    takeYear? (yearText y ++ '-' :: rest) = some (y, '-' :: rest) := by
  have hhyphen : ∀ c ∈ ('-' :: rest).head?, c.isDigit = false := by
    intro c hc
    cases hc
    decide
  have hsmall : y.natAbs < Nat.pow 2 63 := by
    have hpow : Nat.pow 2 63 = 9223372036854775808 := by decide
    simp only [firstYear, lastYear] at hlow hhigh
    omega
  unfold yearText
  by_cases hfour : 0 ≤ y ∧ y ≤ 9999
  · rw [if_pos (by simpa using hfour)]
    have hdigit :
        ∀ c r, padded 4 y.toNat ++ '-' :: rest = c :: r → c.isDigit = true := by
      intro c r h
      cases hp : padded 4 y.toNat with
      | nil => exact absurd hp padded_ne_nil
      | cons d ds =>
          rw [hp, List.cons_append] at h
          rw [← (List.cons.inj h).1]
          exact isDigit_of_mem_padded (n := y.toNat)
            (by rw [hp]; exact List.mem_cons_self)
    rw [takeYear?.eq_3 _ (fun r h => absurd (hdigit _ r h) (by decide))
      (fun r h => absurd (hdigit _ r h) (by decide)),
      takeDigits?_padded (by decide) (by decide) (by omega)]
    simp only [Option.map_some, Option.some.injEq, Prod.mk.injEq, and_true]
    omega
  · rw [if_neg (by simpa using hfour)]
    by_cases hneg : y < 0
    · rw [if_pos hneg, List.cons_append, takeYear?,
        takeLongNumber?_padded hsmall hhyphen]
      simp only [Option.map_some, Option.some.injEq, Prod.mk.injEq, and_true]
      omega
    · rw [if_neg hneg, List.cons_append, takeYear?,
        takeLongNumber?_padded hsmall hhyphen]
      simp only [Option.map_some, Option.some.injEq, Prod.mk.injEq, and_true]
      omega

/-- The digits of a fraction are read as nanoseconds. -/
theorem takeNanos?_padded {width n : Nat} (hwidth : 0 < width) (hnine : width ≤ 9)
    (hn : n < 10 ^ width) {c : Char} (hc : c.isDigit = false) (rest : List Char) :
    takeNanos? (padded width n ++ c :: rest) =
      some (n * Nat.pow 10 (9 - width), c :: rest) := by
  have hlen := length_padded hwidth hn
  have hempty : (padded width n).isEmpty = false := by
    rw [Bool.eq_false_iff, ne_eq, List.isEmpty_iff]
    exact padded_ne_nil
  have hhead : ∀ d ∈ (c :: rest).head?, d.isDigit = false := by
    intro d hd
    cases hd
    exact hc
  have hkept : (padded width n).take 9 = padded width n :=
    List.take_of_length_le (by omega)
  simp [takeNanos?, takeWhile_padded hhead, hempty, hkept, natOfDigits_padded, hlen]

/-- A fraction is read as the nanoseconds it was written for. -/
theorem takeFraction?_fractionText (t : Instant) {c : Char} (hdigit : c.isDigit = false)
    (hpoint : c ≠ '.') (rest : List Char) :
    takeFraction? (t.fractionText ++ c :: rest) = some (t.fraction, c :: rest) := by
  have hsmall : t.fraction < 1000000000 := Nat.mod_lt _ (by decide)
  simp only [Instant.fractionText]
  split
  · rename_i hzero
    rw [List.nil_append, takeFraction?.eq_2 _ fun r h => hpoint (List.cons.inj h).1,
      hzero]
  · split
    · rw [List.cons_append, takeFraction?,
        takeNanos?_padded (by decide) (by decide) (by omega) hdigit rest,
        Option.some.injEq, Prod.mk.injEq]
      exact ⟨by show _ * 1000000 = _; omega, rfl⟩
    · split
      · rw [List.cons_append, takeFraction?,
          takeNanos?_padded (by decide) (by decide) (by omega) hdigit rest,
          Option.some.injEq, Prod.mk.injEq]
        exact ⟨by show _ * 1000 = _; omega, rfl⟩
      · rw [List.cons_append, takeFraction?,
          takeNanos?_padded (by decide) (by decide) (by omega) hdigit rest,
          Option.some.injEq, Prod.mk.injEq]
        exact ⟨by show _ * 1 = _; omega, rfl⟩

/-! ## Layouts -/

section Layouts

variable {f : Field} {fs : List Field} {p p' : Parts} {s s' rest : List Char} {c : Char}
  {n : Nat}

/-- The elements of a layout are read one after the other. -/
theorem takeFields?_cons (h : f.take? p s = some (p', s')) :
    takeFields? (f :: fs) p s = takeFields? fs p' s' := by
  rw [takeFields?, h]
  rfl

private theorem take?_gap (h : isSpace c = false) :
    Field.gap.take? p (c :: rest) = some (p, c :: rest) := by
  rw [Field.take?, trimLeft_cons h]

private theorem take?_mark : (Field.mark c).take? p (c :: rest) = some (p, rest) := by
  simp [Field.take?, takeChar?]

/-- The elements of two digits. -/
def Field.setTwo : Field → Option (Parts → Nat → Parts)
  | .month => some fun p n => { p with month := n }
  | .day => some fun p n => { p with day := n }
  | .hour => some fun p n => { p with hour := n }
  | .minute => some fun p n => { p with minute := n }
  | .second => some fun p n => { p with second := n }
  | _ => none

/-- A number of two digits is read where the layout has one. -/
theorem take?_two {put : Parts → Nat → Parts} (hf : f.setTwo = some put)
    (hn : n < 100) : f.take? p (padded 2 n ++ rest) = some (put p n, rest) := by
  have htwo : takeDigits? 1 2 (padded 2 n ++ rest) = some (n, rest) :=
    takeDigits?_padded (by decide) (by decide) hn
  cases f <;> cases hf <;> rw [Field.take?, trimLeft_padded, htwo] <;> rfl

end Layouts

/-! ## The whole text -/

namespace Instant

private theorem secondOfDay_lt (t : Instant) : t.secondOfDay < 86400 := by
  simp only [secondOfDay, secondsPerDay]
  omega

/-- The date in front of a text. -/
theorem takeFields?_date {t : Instant} (h : t.isRepresentable = true)
    (rest : List Char) :
    takeFields? [.year, .gap, .mark '-', .month, .gap, .mark '-',
      .day] {} (t.date.text ++ rest) =
      some ({ year := t.date.year, month := t.date.month, day := t.date.day },
        rest) := by
  obtain ⟨-, ⟨hlow, hhigh⟩, hvalid⟩ := Date.ofParts?_eq_some.1 (ofParts?_date h)
  simp only [Date.isValid, Bool.and_eq_true, decide_eq_true_eq] at hvalid
  obtain ⟨⟨⟨-, hmonth⟩, -⟩, hday⟩ := hvalid
  have hlength : monthLength t.date.year t.date.month ≤ 31 := by
    unfold monthLength
    split
    · split <;> omega
    · split <;> omega
  have hhyphen : isSpace '-' = false := by decide
  have hyear : ∀ r, Field.year.take? {} (yearText t.date.year ++ '-' :: r) =
      some ({ year := t.date.year }, '-' :: r) := by
    intro r
    have htrim : trimLeft (yearText t.date.year ++ '-' :: r) =
        yearText t.date.year ++ '-' :: r := by
      unfold yearText
      split
      · exact trimLeft_padded
      · split
        · exact trimLeft_cons (by decide)
        · exact trimLeft_cons (by decide)
    rw [Field.take?, htrim, takeYear?_yearText hlow hhigh]
    rfl
  simp only [Date.text, List.append_assoc, List.cons_append]
  rw [takeFields?_cons (hyear _), takeFields?_cons (take?_gap hhyphen),
    takeFields?_cons take?_mark, takeFields?_cons (take?_two rfl (by omega)),
    takeFields?_cons (take?_gap hhyphen), takeFields?_cons take?_mark,
    takeFields?_cons (take?_two rfl (by omega)), takeFields?]

/-- The time of day before the letter for universal time. -/
theorem takeFields?_clock {t : Instant} (h : t.inLeapSecond = false) (p : Parts) :
    takeFields? [.hour, .gap, .mark ':', .minute, .gap, .mark ':', .second,
      .fraction, .gap] p
        (t.clockText ++ (t.fractionText ++ ['Z'])) =
      some ({ p with
        hour := t.secondOfDay / 3600
        minute := t.secondOfDay / 60 % 60
        second := t.secondOfDay % 60
        nano := t.nano }, ['Z']) := by
  have hday := t.secondOfDay_lt
  have hcolon : isSpace ':' = false := by decide
  have hsecond : t.secondOfMinute = t.secondOfDay % 60 := by simp [secondOfMinute, h]
  have hnano : t.fraction = t.nano := by
    simp only [inLeapSecond, decide_eq_false_iff_not, not_le] at h
    exact Nat.mod_eq_of_lt h
  have hfraction : ∀ q : Parts, Field.fraction.take? q (t.fractionText ++ ['Z']) =
      some ({ q with nano := t.nano }, ['Z']) := by
    intro q
    rw [Field.take?, takeFraction?_fractionText t (by decide) (by decide), hnano]
    rfl
  simp only [clockText, hsecond, List.append_assoc, List.cons_append]
  rw [takeFields?_cons (take?_two rfl (by omega)), takeFields?_cons (take?_gap hcolon),
    takeFields?_cons take?_mark, takeFields?_cons (take?_two rfl (by omega)),
    takeFields?_cons (take?_gap hcolon), takeFields?_cons take?_mark,
    takeFields?_cons (take?_two rfl (by omega)), takeFields?_cons (hfraction _),
    takeFields?_cons (take?_gap (by decide)), takeFields?]

/-- The text of a representable instant outside leap seconds is read as the instant. -/
theorem readRelaxed?_zuluText {t : Instant} (h : t.isRepresentable = true)
    (hleap : t.inLeapSecond = false) : readRelaxed? t.zuluText.toList = some t := by
  have hday := t.secondOfDay_lt
  have hinstant : Parts.instant? ⟨t.date.year, t.date.month, t.date.day,
      t.secondOfDay / 3600,
      t.secondOfDay / 60 % 60, t.secondOfDay % 60, t.nano⟩ = some t := by
    have hsum : t.secondOfDay / 3600 * 3600 + t.secondOfDay / 60 % 60 * 60 +
        t.secondOfDay % 60 = t.secondOfDay := by omega
    have hhour : t.secondOfDay / 3600 < 24 := by omega
    have hminute : t.secondOfDay / 60 % 60 < 60 := by omega
    have hsecond : t.secondOfDay % 60 < 60 := by omega
    simp only [Parts.instant?, ofParts?_date h, Option.bind_eq_bind, Option.bind_some,
      hhour, hminute, hsecond.le, decide_true, Bool.and_self, if_true,
      if_neg hsecond.ne, hsum, ofDate_date]
  have hat : Parts.instantAt? ⟨t.date.year, t.date.month, t.date.day,
      t.secondOfDay / 3600,
      t.secondOfDay / 60 % 60, t.secondOfDay % 60, t.nano⟩ 0 = some t := by
    simp [Parts.instantAt?, hinstant, h]
  have hoffset : takeOffset? .anyGap ['Z'] = some (0, []) := rfl
  simp only [readRelaxed?, zuluText, localText, String.toList_ofList, List.append_assoc,
    takeFields?_date h, Option.bind_eq_bind, Option.bind_some, List.cons_append]
  have hmark : ∀ r, takeTimeMark? ('T' :: r) = some r := fun _ => rfl
  have hword : (['Z'].take 3).map Char.toLower ≠ ['u', 't', 'c'] := by decide
  rw [hmark, Option.bind_some, takeFields?_clock hleap, Option.bind_some, if_neg hword,
    hoffset]
  have hends : ((trimLeft []).isEmpty && decide ((0 : Int).natAbs < 86400)) = true := by
    rw [decide_eq_true (by omega : (0 : Int).natAbs < 86400)]
    rfl
  rw [Option.bind_some, if_pos hends, hat]

end Instant

end SeriesQuery.Time
