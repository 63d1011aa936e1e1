import Mathlib.Algebra.Order.Field.Rat
import Mathlib.Algebra.Order.Ring.Rat
import Mathlib.Tactic.Linarith
import Mathlib.Tactic.Positivity
import Mathlib.Tactic.Tauto
import SeriesQuery.Plan.Combiner

/-!
# Arguments

What arguments mean apart from any aggregator: which numbers are counts, what is given
for a field, and when two keys are the same name.

## Main results

* `Decimal.natural?_eq_some`, `countOf?_eq_some`: a number is read as the natural
  number, or the count, that it is equal to.
* `sameIgnoringCase_iff`, `countP_same`: letter case does not count in names.
-/

namespace SeriesQuery

open SeriesQuery.Backend (Count)

/-! ## Numbers -/

namespace Decimal

/-- The rational number that a sign, a mantissa and an exponent denote. -/
def Binary.value (b : Binary) : ℚ :=
  (if b.negative then -1 else 1) * b.mantissa * (2 : ℚ) ^ b.exponent

private theorem Binary.magnitude_eq (b : Binary) :
    (b.mantissa : ℚ) * (2 : ℚ) ^ b.exponent = (b.numerator : ℚ) / b.denominator := by
  unfold numerator denominator
  rcases le_total 0 b.exponent with h | h
  · obtain ⟨k, hk⟩ := Int.eq_ofNat_of_zero_le h
    simp [hk]
  · obtain ⟨k, hk⟩ := Int.eq_ofNat_of_zero_le (neg_nonneg.2 h)
    have hzero : b.exponent.toNat = 0 := by omega
    have hexponent : b.exponent = -(k : Int) := by omega
    rw [hzero, hk, hexponent]
    simp [div_eq_mul_inv]

private theorem Binary.value_eq_natural (b : Binary) (n : Nat) :
    b.value = n ↔
    (b.negative = false ∨ b.mantissa = 0) ∧ b.numerator = n * b.denominator := by
  have hden : (0 : ℚ) < b.denominator := by exact_mod_cast b.denominator_pos
  have hpositive : (b.numerator : ℚ) / b.denominator = n ↔
      b.numerator = n * b.denominator := by
    rw [div_eq_iff (ne_of_gt hden)]
    norm_cast
  unfold value
  rw [mul_assoc, b.magnitude_eq]
  cases hneg : b.negative with
  | false => simpa using hpositive
  | true =>
      have hle : (0 : ℚ) ≤ (b.numerator : ℚ) / b.denominator := by positivity
      have hzero : b.mantissa = 0 ↔ (b.numerator : ℚ) / b.denominator = 0 := by
        have hpower : (2 : ℚ) ^ b.exponent ≠ 0 := zpow_ne_zero _ two_ne_zero
        rw [← b.magnitude_eq]
        simp [hpower]
      rw [hzero, ← hpositive]
      simp only [if_true, neg_one_mul, Bool.true_eq_false, false_or]
      constructor
      · intro h
        have hn : (0 : ℚ) ≤ n := n.cast_nonneg
        constructor <;> linarith
      · rintro ⟨h, hn⟩
        rw [← hn, h, neg_zero]

/-- A number is read as the natural number that it is equal to. -/
theorem natural?_eq_some {x : Float} {n : Nat} :
    natural? x = some n ↔ isFinite x = true ∧ (Binary.ofFloat x).value = n := by
  have hden := (Binary.ofFloat x).denominator_pos
  have hwhole :
      ∀ num den : Nat, 0 < den → (num % den = 0 ∧ num / den = n ↔ num = n * den) := by
    intro num den h
    constructor
    · rintro ⟨hmod, rfl⟩
      exact (Nat.div_mul_cancel (Nat.dvd_of_mod_eq_zero hmod)).symm
    · rintro rfl
      exact ⟨Nat.mul_mod_left n den, Nat.mul_div_cancel n h⟩
  rw [Binary.value_eq_natural, ← hwhole _ _ hden]
  unfold natural?
  simp only [Option.ite_none_right_eq_some, Option.some.injEq, Bool.and_eq_true,
    Bool.or_eq_true, Bool.not_eq_true', beq_iff_eq]
  tauto

end Decimal

theorem countOf?_eq_some {x : Float} {n : Count} :
    countOf? x = some n ↔
      Decimal.isFinite x = true ∧ (Decimal.Binary.ofFloat x).value = n.val := by
  rw [← Decimal.natural?_eq_some, countOf?, Option.bind_eq_some_iff]
  have hcount : ∀ m, Backend.Count.ofNat? m = some n ↔ m = n.val := by
    intro m
    unfold Backend.Count.ofNat?
    constructor
    · intro h
      split at h
      · cases h
        rfl
      · cases h
    · rintro rfl
      rw [dif_pos n.property]
  simp [hcount]

/-! ## Names -/

/-- The value first given for a field. -/
def Getter.first? (given : List Argument) (field : String) : Option ArgValue :=
  (given.find? fun a => Text.sameIgnoringCase a.key field).map Argument.value

/-- A name as it counts when letter case does not. -/
def folded (key : String) : List Char := key.toList.map Char.toLower

theorem sameIgnoringCase_iff {a b : String} :
    Text.sameIgnoringCase a b = true ↔ folded a = folded b := by
  rw [Text.sameIgnoringCase, beq_iff_eq]
  rfl

theorem countP_same (name : String) (keys : List String) :
    keys.countP (Text.sameIgnoringCase name) =
      (keys.map folded).count (folded name) := by
  rw [List.count, List.countP_map]
  refine List.countP_congr fun key _ => ?_
  rw [sameIgnoringCase_iff, Function.comp_apply, beq_iff_eq]
  exact eq_comm

end SeriesQuery
