import SeriesQuery.Execution.Schedule
import SeriesQuery.Proofs.Execution.Asking

/-!
# Laws of schedules

A schedule says when a stage ends and with what result.  Stages end when their inputs
have ended, and a stage that has a result has not failed, nor has any stage that it
needs.

## Main results

* `ownFailure?_of_ok`, `stageOutcome_of_reaches`: what a result tells of the stages that
  it needs.
* `exists_ask_of_ends`: the moment when a stage ends is the moment of some reply.
-/

namespace SeriesQuery.Execution

open SeriesQuery.Backend (Request)

variable {reply : Nat → Request → Reply} {graph : Node → Prop} {root n m : Node}
  {ns : List Node} {rs : List SeriesResult} {r : SeriesResult} {e : StageFailure}
  {now : Nat}

theorem ends_ask {request : Request} (h : n.work = .ask request) :
    ends reply n = endsAll reply n.inputs + (reply n.id request).delay := by
  cases n with
  | mk id name work inputs =>
      cases h
      rw [ends, Node.inputs, Node.id]

theorem ends_combine {c : Combination} (h : n.work = .combine c) :
    ends reply n = endsAll reply n.inputs := by
  cases n with
  | mk id name work inputs =>
      cases h
      rw [ends, Node.inputs]

theorem endsAll_le : endsAll reply ns ≤ now ↔ ∀ n ∈ ns, ends reply n ≤ now := by
  induction ns with
  | nil => simp [endsAll]
  | cons n ns ih =>
      rw [endsAll, Nat.max_le, ih]
      simp

theorem stageOutcome_eq : stageOutcome reply n =
    stageOutcomes reply n.inputs >>= workOutcome (reply n.id) n.work := by
  cases n with
  | mk id name work inputs => rw [stageOutcome]; rfl

theorem stageOutcomes_eq_ok : stageOutcomes reply ns = .ok rs ↔
    List.Forall₂ (fun n r => stageOutcome reply n = .ok r) ns rs := by
  induction ns generalizing rs with
  | nil =>
      rw [stageOutcomes]
      constructor
      · intro h
        cases h
        exact .nil
      · intro h
        cases h
        rfl
  | cons n ns ih =>
      rw [stageOutcomes]
      constructor
      · intro h
        obtain ⟨r, hr, h⟩ := Fallible.bind_eq_ok_iff.1 h
        obtain ⟨rs', hrs', h⟩ := Fallible.bind_eq_ok_iff.1 h
        cases h
        exact .cons hr (ih.1 hrs')
      · intro h
        cases h with
        | cons hr hrs =>
            rw [hr, ih.2 hrs]
            rfl

/-- A stage that has a result does not fail by itself. -/
theorem ownFailure?_of_ok (h : stageOutcome reply n = .ok r) :
    ownFailure? reply n = none := by
  rw [stageOutcome_eq] at h
  obtain ⟨rs, hrs, h⟩ := Fallible.bind_eq_ok_iff.1 h
  rw [ownFailure?, hrs]
  dsimp only
  rw [h]

theorem ownFailure?_of_error (hrs : stageOutcomes reply n.inputs = .ok rs)
    (h : workOutcome (reply n.id) n.work rs = .error e) :
    ownFailure? reply n = some e := by
  rw [ownFailure?, hrs]
  dsimp only
  rw [h]

/-- When a stage has a result, so has every stage that it needs. -/
theorem stageOutcome_of_reaches (h : root.Reaches n)
    (hr : stageOutcome reply root = .ok r) : ∃ r', stageOutcome reply n = .ok r' := by
  induction h generalizing r with
  | refl n => exact ⟨r, hr⟩
  | input hm _ ih =>
      rw [stageOutcome_eq] at hr
      obtain ⟨rs, hrs, -⟩ := Fallible.bind_eq_ok_iff.1 hr
      have hall := stageOutcomes_eq_ok.1 hrs
      obtain ⟨i, hi, rfl⟩ := List.mem_iff_getElem.1 hm
      exact ih
        ((List.forall₂_iff_get.1 hall).2 i hi (by rw [← hall.length_eq]; exact hi))

private theorem exists_ends_eq (h : 0 < endsAll reply ns) :
    ∃ n ∈ ns, ends reply n = endsAll reply ns := by
  induction ns with
  | nil => simp [endsAll] at h
  | cons n ns ih =>
      rw [endsAll] at h ⊢
      rcases Nat.le_total (endsAll reply ns) (ends reply n) with hle | hle
      · exact ⟨n, List.mem_cons_self, by omega⟩
      · obtain ⟨m, hm, hends⟩ := ih (by omega)
        exact ⟨m, List.mem_cons_of_mem _ hm, by omega⟩

/-- The moment when a stage ends is the moment of some reply that it needs. -/
theorem exists_ask_of_ends (hplanned : Planned graph) :
    ∀ size n, cost n < size → graph n → 0 < ends reply n →
      ∃ k request,
        n.Reaches k ∧ k.work = .ask request ∧ ends reply k = ends reply n := by
  intro size
  induction size with
  | zero => intro n hsize; omega
  | succ size ih =>
      intro n hsize hn hpos
      cases hwork : n.work with
      | ask request => exact ⟨n, request, .refl n, hwork, rfl⟩
      | combine c =>
          rw [ends_combine hwork] at hpos ⊢
          obtain ⟨m, hm, hends⟩ := exists_ends_eq hpos
          have hcost := cost_lt_of_mem hm
          obtain ⟨k, request, hk, hask, heq⟩ :=
            ih m (by omega) (hplanned.closed n hn m hm) (by omega)
          exact ⟨k, request, .input hm hk, hask, heq.trans hends⟩

end SeriesQuery.Execution
