import SeriesQuery.Proofs.Backend.Answers
import SeriesQuery.Proofs.Plan.Step
import SeriesQuery.Result.Threshold

/-!
# Results put together

What is put together from results can be read off them part by part: the blocks,
warnings, errors and alerts one after another, and of the members of answers the first
value of each key.  Results whose members have rising keys are known by their parts.
Hence it does not matter how results are grouped when they are put together, and a
threshold over results sees what it sees over the results put together before.

## Main results

* `concat_parts`: the parts of what is put together.
* `concat_append`, `concat_singleton`: putting together is associative, and one result
  stays as it is.
* `Threshold.evaluate_grouped`: a threshold does not tell results from the same results
  grouped.
-/

namespace SeriesQuery

open SeriesQuery.Json

namespace SeriesResult

variable {a b r : SeriesResult} {rs xs ys zs : List SeriesResult}

/-! ## Parts -/

/-- Results with rising keys are known by their parts. -/
theorem ext_of_ordered (ha : a.response.other.Ordered) (hb : b.response.other.Ordered)
    (hblocks : a.response.blocks = b.response.blocks)
    (hother : ∀ key, a.response.other.get? key = b.response.other.get? key)
    (hwarnings : a.warnings = b.warnings) (herrors : a.errors = b.errors)
    (halerts : a.alerts = b.alerts) : a = b := by
  obtain ⟨⟨ablocks, aother⟩, awarnings, aerrors, aalerts⟩ := a
  obtain ⟨⟨bblocks, bother⟩, bwarnings, berrors, balerts⟩ := b
  have hsame : aother = bother := ha.ext hb hother
  cases hblocks
  cases hsame
  cases hwarnings
  cases herrors
  cases halerts
  rfl

/-- A part that is put together by appending. -/
theorem foldl_append_part {α : Type} (part : SeriesResult → List α)
    (h : ∀ a b, part (append a b) = part a ++ part b) (a : SeriesResult)
    (rs : List SeriesResult) :
    part (rs.foldl append a) = part a ++ rs.flatMap part := by
  induction rs generalizing a with
  | nil => simp
  | cons r rs ih => rw [List.foldl_cons, ih, h, List.flatMap_cons, List.append_assoc]

/-- Adding the members of an answer that are new. -/
theorem get?_adopt (fs gs : Fields) (key : String) :
    (gs.foldl (fun fs m => fs.putNew m.1 m.2) fs).get? key = (fs.get? key).or
    (gs.get? key) := by
  induction gs generalizing fs with
  | nil => simp [Fields.get?]
  | cons g gs ih =>
      rw [List.foldl_cons, ih, Fields.get?_putNew, Fields.get?_cons, Option.or_assoc]
      congr 1
      by_cases hkey : g.1 = key <;> simp [hkey]

private theorem ordered_adopt {fs : Fields} (h : fs.Ordered) (gs : Fields) :
    (gs.foldl (fun fs m => fs.putNew m.1 m.2) fs).Ordered := by
  induction gs generalizing fs with
  | nil => exact h
  | cons g gs ih => exact ih h.putNew

private theorem get?_foldl_append (a : SeriesResult) (rs : List SeriesResult)
    (key : String) :
    (rs.foldl append a).response.other.get? key =
      (a.response.other.get? key).or
      (rs.findSome? fun r => r.response.other.get? key) := by
  induction rs generalizing a with
  | nil => simp
  | cons r rs ih =>
      rw [List.foldl_cons, ih, append, get?_adopt, List.findSome?_cons, Option.or_assoc]
      congr 1
      cases r.response.other.get? key <;> rfl

private theorem ordered_foldl_append (h : a.response.other.Ordered)
    (rs : List SeriesResult) : (rs.foldl append a).response.other.Ordered := by
  induction rs generalizing a with
  | nil => exact h
  | cons r rs ih => exact ih (ordered_adopt h r.response.other)

/-- What is put together has rising keys. -/
theorem ordered_concat (rs : List SeriesResult) : (concat rs).response.other.Ordered :=
  ordered_foldl_append (a := empty) List.Pairwise.nil rs

/-- The parts of what is put together are those of the results in their order, with
repeats; under each key stands the first value. -/
structure Parts (r : SeriesResult) (rs : List SeriesResult) : Prop where
  blocks : r.response.blocks = rs.flatMap fun r => r.response.blocks
  other : ∀ key, r.response.other.get? key = rs.findSome? fun r =>
    r.response.other.get? key
  warnings : r.warnings = rs.flatMap SeriesResult.warnings
  errors : r.errors = rs.flatMap SeriesResult.errors
  alerts : r.alerts = rs.flatMap SeriesResult.alerts

theorem concat_parts (rs : List SeriesResult) : (concat rs).Parts rs where
  blocks := foldl_append_part (fun r => r.response.blocks) (fun _ _ => rfl) empty rs
  other := fun key => get?_foldl_append empty rs key
  warnings := foldl_append_part SeriesResult.warnings (fun _ _ => rfl) empty rs
  errors := foldl_append_part SeriesResult.errors (fun _ _ => rfl) empty rs
  alerts := foldl_append_part SeriesResult.alerts (fun _ _ => rfl) empty rs

private theorem Parts.unique (ha : a.Parts rs) (hb : b.Parts rs)
    (hao : a.response.other.Ordered) (hbo : b.response.other.Ordered) : a = b :=
  ext_of_ordered hao hbo (ha.blocks.trans hb.blocks.symm)
    (fun key => (ha.other key).trans (hb.other key).symm)
    (ha.warnings.trans hb.warnings.symm)
    (ha.errors.trans hb.errors.symm) (ha.alerts.trans hb.alerts.symm)

/-! ## Groups -/

/-- Some of the results may have been put together before. -/
theorem Parts.grouped (h : r.Parts (xs ++ concat ys :: zs)) :
    r.Parts (xs ++ ys ++ zs) := by
  have hys := concat_parts ys
  refine ⟨?_, fun key => ?_, ?_, ?_, ?_⟩
  · rw [h.blocks]
    simp [hys.blocks]
  · rw [h.other key]
    simp only [List.findSome?_append, List.findSome?_cons, hys.other, Option.or_assoc]
    cases ys.findSome? fun r => r.response.other.get? key <;> rfl
  · rw [h.warnings]
    simp [hys.warnings]
  · rw [h.errors]
    simp [hys.errors]
  · rw [h.alerts]
    simp [hys.alerts]

/-- **Grouping.**  Putting some of the results together before changes nothing. -/
theorem concat_grouped (xs ys zs : List SeriesResult) :
    concat (xs ++ concat ys :: zs) = concat (xs ++ ys ++ zs) :=
  (concat_parts _).grouped.unique (concat_parts _) (ordered_concat _) (ordered_concat _)

theorem concat_append (xs ys : List SeriesResult) :
    concat (xs ++ ys) = concat [concat xs, concat ys] := by
  calc concat (xs ++ ys) = concat (xs ++ ys ++ []) := by rw [List.append_nil]
    _ = concat (xs ++ [concat ys]) := (concat_grouped xs ys []).symm
    _ = concat ([] ++ xs ++ [concat ys]) := by rw [List.nil_append]
    _ = concat [concat xs, concat ys] := (concat_grouped [] xs [concat ys]).symm

/-- One result whose members have rising keys stays as it is. -/
theorem concat_singleton (h : r.response.other.Ordered) : concat [r] = r := by
  have hr : r.Parts [r] := by
    refine ⟨by simp, fun key => ?_, by simp, by simp, by simp⟩
    cases hkey : r.response.other.get? key <;> simp [hkey]
  exact (concat_parts [r]).unique hr (ordered_concat [r]) h

end SeriesResult

/-! ## Thresholds -/

namespace Threshold

open SeriesResult

variable {xs ys zs : List SeriesResult}

private theorem points_eq (r : SeriesResult) :
    r.response.points = r.response.blocks.flatMap fun b =>
      b.series.flatMap Backend.Series.points :=
  rfl

/-- A threshold looks at the same points in the same order. -/
theorem scanned_grouped (xs ys zs : List SeriesResult) :
    scanned (xs ++ concat ys :: zs) = scanned (xs ++ ys ++ zs) := by
  have hys : (concat ys).response.points = scanned ys := by
    rw [points_eq, (concat_parts ys).blocks, List.flatMap_assoc]
    rfl
  unfold scanned at hys ⊢
  rw [List.append_assoc, List.flatMap_append, List.flatMap_append, List.flatMap_append,
    List.flatMap_cons, hys]

/-- **Transparency.**  A threshold gives the same, be it a result or an error, when some
of the results were put together before. -/
theorem evaluate_grouped (t : Threshold) (xs ys zs : List SeriesResult) :
    t.evaluate (xs ++ concat ys :: zs) = t.evaluate (xs ++ ys ++ zs) := by
  have hoffending : t.offending? (xs ++ concat ys :: zs) =
      t.offending? (xs ++ ys ++ zs) := by
    unfold offending?
    rw [scanned_grouped]
  unfold evaluate
  rw [hoffending, scanned_grouped, concat_grouped]

end Threshold

/-! ## Answers of the backend -/

/-- The members of an answer that was read have rising keys. -/
theorem Backend.Response.ordered_of_decodeText {text : String} {r : Backend.Response}
    (h : Json.decodeText decoder text = .ok r) : r.other.Ordered := by
  obtain ⟨-, -, -, hsound⟩ := of_decodeText h
  exact hsound.other.ordered

end SeriesQuery
