import Mathlib.Data.List.TakeWhile
import SeriesQuery.Json.Number
import SeriesQuery.Json.Tree
import SeriesQuery.Json.Written

/-!
# Numerals read back

A whole number is written in digits and read from them again.  For a floating-point
number the same is asked of the reader where it is needed: the text that is written for
the number is a numeral, and the numeral denotes the number.  A numeral is read up to
the first character that does not go on with it, so it is read the same whatever comes
after such a character.

## Main results

* `Decimal.natOfDigits_digits`: the digits of a number denote it.
* `readNumber?_append`: what comes after a numeral does not change how it is read.
* `readsBack_natural`, `readsBack_negative`: whole numbers of 64 bits read back.
* `inRange_of_ofSpelling?`: what a numeral denotes is within the range of its kind.
-/

namespace SeriesQuery

/-! ## Digits -/

namespace Decimal

/-- The digits of a number denote it. -/
theorem natOfDigits_digits (n : Nat) : natOfDigits (digits n) = n :=
  Nat.ofDigitChars_ten_toDigits

theorem isDigit_of_mem_digits {n : Nat} {c : Char} (h : c ∈ digits n) :
    c.isDigit = true :=
  Nat.isDigit_of_mem_toDigits (by decide) (by decide) h

theorem digits_ne_nil (n : Nat) : digits n ≠ [] := Nat.toDigits_ne_nil

/-- Only zero is written with a leading zero. -/
theorem eq_zero_of_head_digits {n : Nat} (h : (digits n).head? = some '0') : n = 0 := by
  unfold digits at h
  induction n using Nat.strong_induction_on with
  | _ n ih =>
      rw [Nat.toDigits_eq_if (by decide)] at h
      by_cases hn : n < 10
      · rw [if_pos hn] at h
        exact Nat.digitChar_eq_zero.1 (Option.some.inj h)
      · have hsome :=
          List.head?_eq_some_head (Nat.toDigits_ne_nil (n := n / 10) (b := 10))
        rw [if_neg hn, List.head?_append, hsome, Option.some_or] at h
        have hzero := ih (n / 10) (by omega) (hsome.trans h)
        omega

end Decimal

namespace Json

open SeriesQuery.Decimal

/-! ## What comes after a numeral -/

/-- A text does not go on with a numeral that ends before it. -/
def EndsNumeral (rest : List Char) : Prop :=
  ∀ c ∈ rest.head?, c.isDigit = false ∧ c ≠ '.' ∧ c ≠ 'e' ∧ c ≠ 'E'

theorem endsNumeral_nil : EndsNumeral [] := by
  intro c hc
  cases hc

theorem endsNumeral_cons {c : Char} {r : List Char}
    (h : c.isDigit = false ∧ c ≠ '.' ∧ c ≠ 'e' ∧ c ≠ 'E') : EndsNumeral (c :: r) := by
  intro d hd
  cases hd
  exact h

section Append

variable {s ds r rest : List Char}

/-- Digits end where a text begins that does not go on with them. -/
theorem takeWhile_digits_append (h : EndsNumeral rest) :
    (s ++ rest).takeWhile Char.isDigit = s.takeWhile Char.isDigit := by
  induction s with
  | nil =>
      cases rest with
      | nil => rfl
      | cons c rest => simp [(h c rfl).1]
  | cons c s ih =>
      by_cases hc : c.isDigit = true
      · simp [hc, ih]
      · simp [hc]

private theorem dropWhile_digits_append (h : EndsNumeral rest) :
    (s ++ rest).dropWhile Char.isDigit = s.dropWhile Char.isDigit ++ rest := by
  induction s with
  | nil =>
      cases rest with
      | nil => rfl
      | cons c rest => simp [(h c rfl).1]
  | cons c s ih =>
      by_cases hc : c.isDigit = true
      · simp [hc, ih]
      · simp [hc]

/-- Digits before the point are all digits in front, and a zero leads only if it stands
alone. -/
theorem wholeDigits?_eq_some :
    wholeDigits? s = some (ds, r) ↔
      s.takeWhile Char.isDigit = ds ∧ s.dropWhile Char.isDigit = r ∧ ds ≠ [] ∧
        (ds.head? = some '0' → ds = ['0']) := by
  unfold wholeDigits?
  split
  case h_1 tail =>
    cases tail with
    | nil =>
        simp only [List.takeWhile_cons, List.dropWhile_cons]
        constructor
        case mp =>
          intro h
          cases h
          exact ⟨rfl, rfl, List.cons_ne_nil _ _, fun _ => rfl⟩
        case mpr =>
          rintro ⟨rfl, rfl, -, -⟩
          rfl
    | cons c tail =>
        by_cases hc : c.isDigit = true
        · simp only [hc, if_true, reduceCtorEq, false_iff]
          rintro ⟨rfl, -, -, halone⟩
          have hall := halone (by rfl)
          simp [hc] at hall
        · simp only [hc, Bool.false_eq_true, if_false, Option.some.injEq, Prod.mk.injEq]
          constructor
          case mp =>
            rintro ⟨rfl, rfl⟩
            simp [hc]
          case mpr =>
            rintro ⟨rfl, rfl, -, -⟩
            simp [hc]
  case h_2 other =>
    have hlead : (s.takeWhile Char.isDigit).head? ≠ some '0' := by
      intro hhead
      cases s with
      | nil => cases hhead
      | cons c s =>
          by_cases hc : c.isDigit = true
          · simp only [List.takeWhile_cons, hc, if_true, List.head?_cons,
              Option.some.injEq] at hhead
            exact other s (by rw [hhead])
          · simp [hc] at hhead
    by_cases hnone : s.takeWhile Char.isDigit = []
    · simp only [hnone, List.isEmpty_nil, if_true, reduceCtorEq, false_iff]
      rintro ⟨rfl, -, hne, -⟩
      exact hne rfl
    · simp only [List.isEmpty_iff, hnone, if_false, Option.some.injEq, Prod.mk.injEq]
      constructor
      case mp =>
        rintro ⟨rfl, rfl⟩
        exact ⟨rfl, rfl, hnone, fun h => absurd h hlead⟩
      case mpr => exact fun h => ⟨h.1, h.2.1⟩

private theorem wholeDigits?_append (h : EndsNumeral rest)
    (hs : wholeDigits? s = some (ds, r)) :
    wholeDigits? (s ++ rest) = some (ds, r ++ rest) := by
  rw [wholeDigits?_eq_some] at hs ⊢
  rw [takeWhile_digits_append h, dropWhile_digits_append h]
  exact ⟨hs.1, by rw [hs.2.1], hs.2.2⟩

private theorem fractionDigits?_append (h : EndsNumeral rest)
    (hs : fractionDigits? s = some (ds, r)) :
    fractionDigits? (s ++ rest) = some (ds, r ++ rest) := by
  cases s with
  | nil =>
      cases hs
      cases rest with
      | nil => rfl
      | cons c rest =>
          have hc := (h c rfl).2.1
          exact fractionDigits?.eq_2 _ fun t ht => hc (List.cons.inj ht).1
  | cons c s =>
      by_cases hc : c = '.'
      · subst hc
        simp only [List.cons_append, fractionDigits?, takeWhile_digits_append h,
          dropWhile_digits_append h] at hs ⊢
        split at hs
        · cases hs
        · rename_i hsome
          cases hs
          rw [if_neg hsome]
      · have hother : ∀ t u, c :: t ≠ '.' :: u :=
          fun t u htu => hc (List.cons.inj htu).1
        rw [fractionDigits?.eq_2 _ (hother s)] at hs
        cases hs
        exact fractionDigits?.eq_2 _ (hother (s ++ rest))

/-- The sign of an exponent, and the text after it. -/
def exponentSign (s : List Char) : Bool × List Char :=
  match s with
  | '+' :: r => (false, r)
  | '-' :: r => (true, r)
  | _ => (false, s)

private theorem exponentDigits?_cons {c : Char} (hc : c = 'e' ∨ c = 'E')
    (s : List Char) :
    exponentDigits? (c :: s) =
      if ((exponentSign s).2.takeWhile Char.isDigit).isEmpty then none
      else some ((exponentSign s).1, (exponentSign s).2.takeWhile Char.isDigit,
        (exponentSign s).2.dropWhile Char.isDigit) := by
  have hletter : (decide (c = 'e') || decide (c = 'E')) = true := by simpa using hc
  simp only [exponentDigits?, hletter, if_true]
  rfl

private theorem exponentSign_append (hs : s ≠ []) :
    exponentSign (s ++ rest) = ((exponentSign s).1, (exponentSign s).2 ++ rest) := by
  cases s with
  | nil => exact absurd rfl hs
  | cons d s =>
      by_cases hplus : d = '+'
      · subst hplus
        rfl
      · by_cases hminus : d = '-'
        · subst hminus
          rfl
        · have hneither : ∀ t, exponentSign (d :: t) = (false, d :: t) := by
            intro t
            unfold exponentSign
            split <;> simp_all
          rw [List.cons_append, hneither, hneither]
          rfl

private theorem exponentDigits?_append {b : Bool} (h : EndsNumeral rest)
    (hs : exponentDigits? s = some (b, ds, r)) :
    exponentDigits? (s ++ rest) = some (b, ds, r ++ rest) := by
  cases s with
  | nil =>
      cases hs
      cases rest with
      | nil => rfl
      | cons c rest =>
          have hc := (h c rfl).2.2
          simp [exponentDigits?, hc.1, hc.2]
  | cons c s =>
      by_cases hc : c = 'e' ∨ c = 'E'
      · rw [exponentDigits?_cons hc] at hs
        by_cases hnone : ((exponentSign s).2.takeWhile Char.isDigit).isEmpty = true
        · rw [if_pos hnone] at hs
          cases hs
        · have hne : s ≠ [] := by
            rintro rfl
            exact hnone rfl
          rw [if_neg hnone] at hs
          cases hs
          rw [List.cons_append, exponentDigits?_cons hc, exponentSign_append hne,
            takeWhile_digits_append h, dropWhile_digits_append h, if_neg hnone]
      · simp only [not_or] at hc
        simp only [List.cons_append, exponentDigits?, hc.1, hc.2, decide_false,
          Bool.or_self, Bool.false_eq_true, if_false, Option.some.injEq,
          Prod.mk.injEq] at hs ⊢
        exact ⟨hs.1, hs.2.1, by rw [← hs.2.2]; rfl⟩

private theorem readMagnitude?_append {negative : Bool} {x : Spelling}
    (h : EndsNumeral rest) (hs : Json.readMagnitude? negative s = some (x, r)) :
    Json.readMagnitude? negative (s ++ rest) = some (x, r ++ rest) := by
  unfold Json.readMagnitude? at hs ⊢
  simp only [Option.bind_eq_bind, Option.bind_eq_some_iff, Prod.exists,
    Option.pure_def] at hs ⊢
  obtain ⟨whole, s₁, hwhole, fraction, s₂, hfraction, b, exponent, s₃, hexponent, hx⟩ :=
    hs
  cases hx
  exact ⟨whole, _, wholeDigits?_append h hwhole, fraction, _,
    fractionDigits?_append h hfraction,
    b, exponent, _, exponentDigits?_append h hexponent, rfl⟩

/-- What comes after a numeral does not change how it is read. -/
theorem readNumber?_append {x : Spelling} (h : EndsNumeral rest)
    (hs : readNumber? s = some (x, r)) :
    readNumber? (s ++ rest) = some (x, r ++ rest) := by
  cases s with
  | nil => cases hs
  | cons c s =>
      by_cases hc : c = '-'
      · subst hc
        exact readMagnitude?_append h hs
      · have hplain : ∀ t, readNumber? (c :: t) = Json.readMagnitude? false (c :: t) :=
          fun t => readNumber?.eq_2 _ fun u hu => hc (List.cons.inj hu).1
        rw [hplain] at hs
        rw [List.cons_append, hplain, ← List.cons_append]
        exact readMagnitude?_append h hs

end Append

/-! ## Numbers read back -/

/-- The text that is written for a number is a numeral, and the numeral denotes the
number. -/
def Number.ReadsBack (n : Number) : Prop :=
  ∃ s, readNumber? n.written = some (s, []) ∧ Number.ofSpelling? s = some n

/-- A number of the kinds that a text can hold: a whole number that fits in 64 bits,
without sign or with one, or a floating-point number. -/
def Number.InRange : Number → Prop
  | .natural n => n ≤ maxSignificand
  | .negative n => -(Nat.pow 2 63 : Nat) ≤ n ∧ n < 0
  | .float _ => True

/-- What a numeral denotes is within the range of its kind. -/
theorem inRange_of_ofSpelling? {s : Spelling} {n : Number}
    (h : Number.ofSpelling? s = some n) : n.InRange := by
  unfold Number.ofSpelling? at h
  simp only at h
  split at h
  · rename_i hwhole
    simp only [Bool.and_eq_true, decide_eq_true_eq] at hwhole
    split at h
    · split at h
      · cases h
        trivial
      · rename_i hfits
        cases h
        simp only [Bool.or_eq_true, decide_eq_true_eq, not_or] at hfits
        simp only [Number.InRange]
        omega
    · cases h
      exact hwhole.2
  · obtain ⟨x, -, rfl⟩ := Option.map_eq_some_iff.1 h
    trivial

/-- Digits are read as a numeral without fraction and exponent. -/
theorem readMagnitude?_digits (negative : Bool) (n : Nat) :
    Json.readMagnitude? negative (digits n) =
      some (⟨negative, digits n, [], false, []⟩, []) := by
  have hall : ∀ c ∈ digits n, c.isDigit = true := fun c hc => isDigit_of_mem_digits hc
  have hwhole : wholeDigits? (digits n) = some (digits n, []) := by
    rw [wholeDigits?_eq_some, List.takeWhile_eq_self_iff.2 hall,
      List.dropWhile_eq_nil_iff.2 hall]
    refine ⟨rfl, rfl, digits_ne_nil n, fun hhead => ?_⟩
    rw [eq_zero_of_head_digits hhead]
    rfl
  unfold Json.readMagnitude?
  rw [hwhole]
  rfl

/-- A whole number without sign reads back. -/
theorem readsBack_natural {n : Nat} (h : n ≤ maxSignificand) :
    (Number.natural n).ReadsBack := by
  refine ⟨⟨false, digits n, [], false, []⟩, ?_, ?_⟩
  · have hsign : ∀ t, digits n ≠ '-' :: t := by
      intro t ht
      have hdigit : '-'.isDigit = true :=
        isDigit_of_mem_digits (n := n) (by rw [ht]; simp)
      cases hdigit
    rw [Number.written, readNumber?.eq_2 _ hsign]
    exact readMagnitude?_digits false n
  · simp [Number.ofSpelling?, natOfDigits_digits, h]

/-- A whole number below zero reads back. -/
theorem readsBack_negative {n : Int} (h : (Number.negative n).InRange) :
    (Number.negative n).ReadsBack := by
  obtain ⟨hlow, hneg⟩ := h
  refine ⟨⟨true, digits n.natAbs, [], false, []⟩, ?_, ?_⟩
  · rw [Number.written, signed, if_pos hneg]
    exact readMagnitude?_digits true n.natAbs
  · have hfits : n.natAbs ≤ maxSignificand := by
      simp only [maxSignificand]
      have hpow : Nat.pow 2 63 ≤ Nat.pow 2 64 - 1 := by decide
      omega
    have hsome : ¬ (n.natAbs = 0 ∨ Nat.pow 2 63 < n.natAbs) := by omega
    simp only [Number.ofSpelling?, natOfDigits_digits, List.isEmpty_nil, Bool.true_and,
      decide_eq_true hfits, if_true, Bool.or_eq_true, decide_eq_true_eq, if_neg hsome,
      Option.some.injEq, Number.negative.injEq]
    omega

end Json

end SeriesQuery
