import SeriesQuery.Proofs.Execution.Move
import SeriesQuery.Proofs.Fallible

/-!
# Results and failures of joins

A join that looks at its inputs finds all results, a failure, or an input that is not
done.  A narrow join takes the first failure in the order of the inputs, a wider one
only a failure that no earlier input holds back; in either case an input has failed with
it.  Results are looked up by the numbers of the inputs, and since inputs of one number
have one result they come back in the declared order.

## Main results

* `inDeclaredOrder_of_recalls`: results that are kept come in the order of the inputs.
* `exists_undone`: a join that has neither failed nor all results has an input that is
  not done.
-/

namespace SeriesQuery.Execution

open World

variable {w : World} {id : Nat} {ts : List Task} {rs : List SeriesResult}

/-! ## Results in their declared order -/

private theorem find?_of_recalls {table : List (Nat × SeriesResult)}
    (hall : ∀ e ∈ table, w.recalled? e.1 = some e.2) (hmem : ∃ e ∈ table, e.1 = id)
    {r : SeriesResult} (hr : w.recalled? id = some r) :
    (table.find? fun e => e.1 == id) = some (id, r) := by
  cases hfind : table.find? fun e => e.1 == id with
  | none =>
      obtain ⟨e, he, hid⟩ := hmem
      have hnot := List.find?_eq_none.1 hfind e he
      simp [hid] at hnot
  | some e =>
      have hid : e.1 = id := by
        have hbeq := List.find?_some hfind
        simpa using hbeq
      have he := hall e (List.mem_of_find?_eq_some hfind)
      rw [hid, hr, Option.some.injEq] at he
      rw [← hid, he]

/-- Inputs of one number have one result, so looking results up by number returns them
in order. -/
theorem inDeclaredOrder_of_recalls {ns : List Node} (h : w.Recalls ns rs) :
    inDeclaredOrder (ns.map Node.id) rs = .ok rs := by
  have hall : ∀ e ∈ ((ns.map Node.id).zip rs).reverse, w.recalled? e.1 = some e.2 := by
    intro e he
    rw [List.mem_reverse, List.zip_map_left, List.mem_map] at he
    obtain ⟨⟨m, r⟩, hpair, rfl⟩ := he
    exact (List.forall₂_iff_zip.1 h).2 hpair
  have hmem : ∀ m ∈ ns, ∃ e ∈ ((ns.map Node.id).zip rs).reverse, e.1 = m.id := by
    intro m hm
    obtain ⟨i, hi, rfl⟩ := List.mem_iff_getElem.1 hm
    have hlen := h.length_eq
    refine ⟨(ns[i].id, rs[i]), ?_, rfl⟩
    rw [List.mem_reverse, List.mem_iff_getElem]
    exact ⟨i, by simp; omega, by simp⟩
  refine Fallible.mapM_eq_ok_iff.2 ?_
  rw [List.forall₂_map_left_iff]
  refine ((List.forall₂_and_left _ _).2 ⟨hmem, h⟩).imp ?_
  rintro m r ⟨hm, hr⟩
  rw [find?_of_recalls hall hm hr]

/-! ## Looking at the inputs of a join -/

/-- A failure that no earlier input holds back is the first. -/
theorem failed?_of_surfaced? {e : StageFailure} (h : surfaced? ts = some e) :
    failed? ts = some e := by
  induction ts with
  | nil => cases h
  | cons t ts ih =>
      cases t with
      | done result =>
          cases result with
          | ok r => exact ih h
          | error e' => exact h
      | fresh => cases h
      | queued => cases h
      | joining us => cases h
      | calling due outcome => cases h

private theorem joinFailure?_of_surfaced? {inputs : List Actor} {e : StageFailure}
    (h : surfaced? ts = some e) : joinFailure? inputs ts = some e := by
  unfold joinFailure?
  split
  · exact failed?_of_surfaced? h
  · exact h

/-- A join fails with a failure of one of its inputs. -/
theorem joinFailure?_mem {inputs : List Actor} {e : StageFailure}
    (h : joinFailure? inputs ts = some e) : Task.done (.error e) ∈ ts := by
  have hfailed : failed? ts = some e := by
    unfold joinFailure? at h
    split at h
    · exact h
    · exact failed?_of_surfaced? h
  clear h
  induction ts with
  | nil => cases hfailed
  | cons t ts ih =>
      cases t with
      | done result =>
          cases result with
          | ok r => exact List.mem_cons_of_mem _ (ih hfailed)
          | error e' =>
              rw [failed?, Option.some.injEq] at hfailed
              rw [hfailed]
              exact List.mem_cons_self
      | fresh => exact List.mem_cons_of_mem _ (ih hfailed)
      | queued => exact List.mem_cons_of_mem _ (ih hfailed)
      | joining us => exact List.mem_cons_of_mem _ (ih hfailed)
      | calling due outcome => exact List.mem_cons_of_mem _ (ih hfailed)

theorem results?_eq_some (h : results? ts = some rs) :
    ts = rs.map fun r => .done (.ok r) := by
  induction ts generalizing rs with
  | nil =>
      cases h
      rfl
  | cons t ts ih =>
      cases t with
      | done result =>
          cases result with
          | ok r =>
              rw [results?, Option.map_eq_some_iff] at h
              obtain ⟨rs', hrs', rfl⟩ := h
              rw [ih hrs', List.map_cons]
          | error e => cases h
      | fresh => cases h
      | queued => cases h
      | joining us => cases h
      | calling due outcome => cases h

/-- An input that is not done, in a join that has neither failed nor all its results. -/
theorem exists_undone {inputs : List Actor} (hresults : results? ts = none)
    (hfailure : joinFailure? inputs ts = none) : ∃ u ∈ ts, ∀ r, u ≠ .done r := by
  have hsurfaced : surfaced? ts = none := by
    cases h : surfaced? ts with
    | none => rfl
    | some e =>
        rw [joinFailure?_of_surfaced? h] at hfailure
        cases hfailure
  clear hfailure
  induction ts with
  | nil => cases hresults
  | cons t ts ih =>
      cases t with
      | done result =>
          cases result with
          | ok r =>
              rw [results?, Option.map_eq_none_iff] at hresults
              obtain ⟨u, hu, hne⟩ := ih hresults hsurfaced
              exact ⟨u, List.mem_cons_of_mem _ hu, hne⟩
          | error e => cases hsurfaced
      | fresh => exact ⟨_, List.mem_cons_self, by simp⟩
      | queued => exact ⟨_, List.mem_cons_self, by simp⟩
      | joining us => exact ⟨_, List.mem_cons_self, by simp⟩
      | calling due outcome => exact ⟨_, List.mem_cons_self, by simp⟩

end SeriesQuery.Execution
