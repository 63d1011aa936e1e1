import Mathlib.Data.List.TakeWhile
import SeriesQuery.Proofs.Time.Calendar
import SeriesQuery.Statement.Literal

/-!
# Proper instants

An instant is proper when its second is representable and its nanoseconds are those of
one second, or of a leap second after it.  Whatever is read from a text is proper, and
so is what lies some units before a proper instant, if it is there at all.

## Main results

* `Instant.proper_readAbsolute?`: a date-time that a statement writes is proper.
* `Moment.proper_resolve`: a written time denotes a proper instant.
* `Instant.isRepresentable_ofMillis`: the milliseconds of a proper instant are those of
  an instant, unless it lies in the leap second after the last second.
-/

namespace SeriesQuery

namespace Time

open SeriesQuery.Decimal (natOfDigits)
open SeriesQuery.Text (trimLeft)

/-- The second is representable, and the nanoseconds are those of one or two seconds. -/
structure Instant.Proper (t : Instant) : Prop where
  representable : t.isRepresentable = true
  nano : t.nano < 2 * Instant.nanosPerSecond

/-- The instant lies in the leap second after the last second. -/
def Instant.IsPastLast (t : Instant) : Prop :=
  t.second = Instant.lastSecond ∧ t.inLeapSecond = true

/-! ## Fractions -/

/-- Digits denote less than the power of ten with as many zeros. -/
theorem natOfDigits_lt {ds : List Char} (h : ∀ c ∈ ds, c.isDigit = true) :
    natOfDigits ds < 10 ^ ds.length := by
  have hall : ∀ (ds : List Char) (n k : Nat),
      (∀ c ∈ ds, c.isDigit = true) → n < 10 ^ k →
      ds.foldl (fun n c => 10 * n + (c.toNat - '0'.toNat)) n <
      10 ^ (k + ds.length) := by
    intro ds
    induction ds with
    | nil => exact fun n k _ hn => hn
    | cons c ds ih =>
        intro n k hds hn
        have hdigit := hds c List.mem_cons_self
        simp only [Char.isDigit, Bool.and_eq_true, decide_eq_true_eq] at hdigit
        have hhigh : c.toNat ≤ 57 := hdigit.2
        have hzero : '0'.toNat = 48 := rfl
        have hnext : 10 * n + (c.toNat - '0'.toNat) < 10 ^ (k + 1) := by
          rw [Nat.pow_succ]
          omega
        have hrest := ih _ (k + 1) (fun d hd => hds d (List.mem_cons_of_mem c hd)) hnext
        rw [List.foldl_cons, List.length_cons, ← Nat.add_assoc, Nat.add_right_comm]
        exact hrest
  have hstart := hall ds 0 0 h (by decide)
  rwa [Nat.zero_add] at hstart

private theorem takeNanos?_lt {s rest : List Char} {n : Nat}
    (h : takeNanos? s = some (n, rest)) : n < Instant.nanosPerSecond := by
  simp only [takeNanos?] at h
  split at h
  · cases h
  · obtain ⟨rfl, -⟩ := Prod.mk.inj (Option.some.inj h)
    generalize hkept : (s.takeWhile Char.isDigit).take 9 = kept
    have hdigits : ∀ c ∈ kept, c.isDigit = true := by
      subst hkept
      exact fun c hc => List.mem_takeWhile_imp (List.mem_of_mem_take hc)
    have hlen : kept.length ≤ 9 := by
      subst hkept
      exact List.length_take_le _ _
    have hpow : 10 ^ kept.length * 10 ^ (9 - kept.length) = 10 ^ 9 := by
      rw [← Nat.pow_add]
      congr 1
      omega
    have hpos : 0 < 10 ^ (9 - kept.length) := Nat.pow_pos (by decide)
    calc natOfDigits kept * 10 ^ (9 - kept.length)
        < 10 ^ kept.length * 10 ^ (9 - kept.length) :=
          Nat.mul_lt_mul_of_pos_right (natOfDigits_lt hdigits) hpos
      _ = Instant.nanosPerSecond := by rw [hpow]; rfl

private theorem takeFraction?_lt {s rest : List Char} {n : Nat}
    (h : takeFraction? s = some (n, rest)) : n < Instant.nanosPerSecond := by
  unfold takeFraction? at h
  split at h
  · exact takeNanos?_lt h
  · cases h
    decide

/-! ## Parts -/

/-- Checked parts denote a proper instant. -/
theorem Parts.proper_instant? {p : Parts} {t : Instant}
    (hp : p.nano < Instant.nanosPerSecond) (h : p.instant? = some t) : t.Proper := by
  obtain ⟨d, hd, h⟩ := Option.bind_eq_some_iff.1 h
  split at h
  · rename_i hclock
    simp only [Bool.and_eq_true, decide_eq_true_eq] at hclock
    obtain ⟨⟨hhour, hminute⟩, hsecond⟩ := hclock
    split at h
    · cases h
      exact ⟨Instant.isRepresentable_ofDate hd (by omega), by
        show Instant.nanosPerSecond + p.nano < _
        omega⟩
    · cases h
      exact ⟨Instant.isRepresentable_ofDate hd (by omega), by
        show p.nano < _
        omega⟩
  · cases h

private theorem Parts.proper_instantAt? {p : Parts} {t : Instant} {offset : Int}
    (hp : p.nano < Instant.nanosPerSecond) (h : p.instantAt? offset = some t) :
    t.Proper := by
  obtain ⟨u, hu, h⟩ := Option.bind_eq_some_iff.1 h
  simp only at h
  split at h
  · rename_i hrepresentable
    cases h
    exact ⟨hrepresentable, (proper_instant? hp hu).nano⟩
  · cases h

/-- One element of a layout keeps the nanoseconds within a second. -/
theorem Field.take?_nano {f : Field} {p p' : Parts} {s r : List Char}
    (hp : p.nano < Instant.nanosPerSecond) (h : f.take? p s = some (p', r)) :
    p'.nano < Instant.nanosPerSecond := by
  cases f with
  | fraction =>
      obtain ⟨⟨n, rest⟩, hn, h⟩ := Option.map_eq_some_iff.1 h
      cases h
      exact takeFraction?_lt hn
  | gap =>
      cases h
      exact hp
  | mark c =>
      obtain ⟨rest, -, h⟩ := Option.map_eq_some_iff.1 h
      cases h
      exact hp
  | _ =>
      obtain ⟨⟨n, rest⟩, -, h⟩ := Option.map_eq_some_iff.1 h
      cases h
      exact hp

private theorem takeFields?_nano {fs : List Field} {p p' : Parts} {s r : List Char}
    (hp : p.nano < Instant.nanosPerSecond) (h : takeFields? fs p s = some (p', r)) :
    p'.nano < Instant.nanosPerSecond := by
  induction fs generalizing p s with
  | nil =>
      cases h
      exact hp
  | cons f fs ih =>
      obtain ⟨⟨q, rest⟩, hq, h⟩ := Option.bind_eq_some_iff.1 h
      exact ih (Field.take?_nano hp hq) h

/-! ## Texts -/

namespace Instant

private theorem proper_readLayout? {layout : List Field} {s : List Char} {t : Instant}
    (h : readLayout? layout s = some t) : t.Proper := by
  obtain ⟨⟨p, rest⟩, hp, h⟩ := Option.bind_eq_some_iff.1 h
  simp only at h
  split at h
  · exact Parts.proper_instant? (takeFields?_nano (by decide) hp) h
  · cases h

private theorem proper_readStrict? {s : List Char} {t : Instant}
    (h : readStrict? s = some t) : t.Proper := by
  -- date and time of day do not bear on the nanoseconds
  obtain ⟨⟨_, _⟩, -, h⟩ := Option.bind_eq_some_iff.1 h
  obtain ⟨_, -, h⟩ := Option.bind_eq_some_iff.1 h
  obtain ⟨⟨_, _⟩, -, h⟩ := Option.bind_eq_some_iff.1 h
  obtain ⟨_, -, h⟩ := Option.bind_eq_some_iff.1 h
  obtain ⟨⟨_, _⟩, -, h⟩ := Option.bind_eq_some_iff.1 h
  obtain ⟨_, -, h⟩ := Option.bind_eq_some_iff.1 h
  obtain ⟨⟨_, _⟩, -, h⟩ := Option.bind_eq_some_iff.1 h
  obtain ⟨_, -, h⟩ := Option.bind_eq_some_iff.1 h
  obtain ⟨⟨_, _⟩, -, h⟩ := Option.bind_eq_some_iff.1 h
  obtain ⟨_, -, h⟩ := Option.bind_eq_some_iff.1 h
  obtain ⟨⟨_, _⟩, -, h⟩ := Option.bind_eq_some_iff.1 h
  obtain ⟨⟨nano, _⟩, hnano, h⟩ := Option.bind_eq_some_iff.1 h
  obtain ⟨⟨_, _⟩, -, h⟩ := Option.bind_eq_some_iff.1 h
  simp only at h
  split at h
  · exact Parts.proper_instantAt? (takeFraction?_lt hnano) h
  · cases h

/-- A date-time that a statement writes is proper. -/
theorem proper_readAbsolute? {s : List Char} {t : Instant}
    (h : readAbsolute? s = some t) : t.Proper := by
  rcases Option.or_eq_some_iff.1 h with h | ⟨-, h⟩
  · exact proper_readStrict? h
  · obtain ⟨layout, -, h⟩ := List.exists_of_findSome?_eq_some h
    exact proper_readLayout? h

/-! ## Counting back -/

theorem proper_minusSeconds? {t u : Instant} {n : Nat} (ht : t.Proper)
    (h : t.minusSeconds? n = some u) : u.Proper := by
  unfold minusSeconds? at h
  split at h
  · rename_i hrepresentable
    cases h
    refine ⟨hrepresentable, ?_⟩
    have hnano := ht.nano
    unfold minusSeconds
    split
    · exact hnano
    · split
      · exact (Nat.sub_le _ _).trans_lt hnano
      · exact hnano
  · cases h

theorem proper_minusMonths? {t u : Instant} {n : Nat} (ht : t.Proper)
    (h : t.minusMonths? n = some u) : u.Proper := by
  unfold minusMonths? at h
  split at h
  · cases h
    exact ht
  · obtain ⟨d, hd, rfl⟩ := Option.map_eq_some_iff.1 h
    have hday : t.secondOfDay < 86400 := by
      simp only [secondOfDay, secondsPerDay]
      omega
    exact ⟨isRepresentable_ofDate hd hday, ht.nano⟩

/-! ## Milliseconds -/

/-- The milliseconds of a proper instant are those of an instant, unless it lies past
the last second. -/
theorem isRepresentable_ofMillis {t : Instant} (h : t.Proper) (hlast : ¬ t.IsPastLast) :
    (ofMillis t.millis).isRepresentable = true := by
  have hnano : t.nano < 2000000000 := h.nano
  have hlow : firstSecond ≤ t.second ∧ t.second ≤ lastSecond := by
    simpa [isRepresentable] using h.representable
  have hhigh : t.second = lastSecond → t.nano < 1000000000 := by
    intro hsecond
    by_contra hle
    exact hlast ⟨hsecond, decide_eq_true (Nat.le_of_not_lt hle)⟩
  have hwire : firstSecond ≤ t.millis / 1000 ∧ t.millis / 1000 ≤ lastSecond := by
    simp only [millis]
    omega
  exact Bool.and_eq_true_iff.2 ⟨decide_eq_true hwire.1, decide_eq_true hwire.2⟩

end Instant

end Time

open SeriesQuery.Time (Instant)

/-! ## Written times -/

/-- An instant in a written time is proper. -/
def Moment.Proper : Moment → Prop
  | .fixed t => t.Proper
  | _ => True

/-- A written time denotes a proper instant. -/
theorem Moment.proper_resolve {m : Moment} {now t : Instant} (hm : m.Proper)
    (hnow : now.Proper) (h : m.resolve now = .ok t) : t.Proper := by
  cases m with
  | now =>
      cases h
      exact hnow
  | fixed u =>
      cases h
      exact hm
  | ago amount unit =>
      simp only [Moment.resolve] at h
      split at h
      · rename_i u hu
        cases h
        unfold TimeUnit.before? at hu
        split at hu
        · exact Instant.proper_minusSeconds? hnow hu
        · exact Instant.proper_minusMonths? hnow hu
      · cases h

end SeriesQuery
