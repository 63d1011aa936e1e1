import SeriesQuery.Proofs.Execution.Requests

/-!
# The first failure

When a stage of a narrow plan fails, the run ends at the moment of the earliest failure
and waits for nothing else.  Of failures at one moment it reports the one that comes
first in the order of the walk.  A wider join does not: it holds a failure back while an
earlier input waits, so that the run ends when that input does.

## Main results

* `first_failure_ends_run`: the moment, the failure and the requests of a run in which a
  stage fails.
* `wide_join_waits`: a failure that a wide join holds back.
-/

namespace SeriesQuery.Execution

open SeriesQuery.Backend (Request Response)

/-- **The first failure ends the run.**  When some stage of a plan with narrow joins
fails, a run without a deadline stops at the earliest failure; the walk by whose order
it asks, and by whose order it prefers failures of one moment, goes through the stages
of the plan, each once. -/
theorem first_failure_ends_run {combiners : Combiners} {now : Time.Instant}
    {s : Statement} {p : Plan} (hp : s.plan combiners now = .ok p)
    (hnarrow : ∀ n, p.terminal.Reaches n → n.inputs.length ≤ narrowLimit)
    (respond : Respond) {n : Node} (hn : p.terminal.Reaches n)
    (hfails : ownFailure? (replyTo respond p.terminal) n ≠ none) :
    (∃ e before f after,
      (run respond none [] p.terminal).result = some (.error e) ∧
      Stopped (replyTo respond p.terminal) p.terminal e
        (run respond none [] p.terminal).world before f after) ∧
    (∀ m, m ∈ p.terminal.inOrder ↔ p.terminal.Reaches m) ∧
    (p.terminal.inOrder.map Node.id).Nodup := by
  have hplanned := planned_of_plan hp
  have hran := narrow_run hplanned hnarrow respond none
  refine ⟨?_, fun m => mem_inOrder hplanned.numbered, nodup_inOrder hplanned.numbered⟩
  cases hresult : (run respond none [] p.terminal).result with
  | none =>
      have hfounded : (World.start []).Founded respond p.terminal.Reaches :=
        fun id r hr => by cases hr
      have hended :=
        run_ended hplanned.closed hplanned.numbered (.refl p.terminal) hfounded none
      exact absurd rfl (hended.ends hresult)
  | some result =>
      cases result with
      | ok r =>
          obtain ⟨r', hr'⟩ := stageOutcome_of_reaches hn (hran.ok r hresult).1
          exact absurd (ownFailure?_of_ok hr') hfails
      | error e =>
          obtain ⟨before, f, after, hstopped⟩ := hran.error e hresult
          exact ⟨e, before, f, after, rfl, hstopped⟩

/-- A request that fails after another has been answered, in a join that waits for a
third. -/
theorem first_failure_ends_run_late :
    ∃ p e before f after, Statement.plan .standard ⟨0, 0⟩
        ⟨[⟨some "a", .select ⟨"cpu", none, [], []⟩, ⟨1, 1⟩⟩,
          ⟨some "b", .select ⟨"mem", none, [], []⟩, ⟨1, 17⟩⟩,
          ⟨some "c", .select ⟨"net", none, [], []⟩, ⟨1, 33⟩⟩,
          ⟨none, .aggregate ⟨"union", some ["a", "b", "c"], []⟩, ⟨1, 49⟩⟩]⟩ = .ok p ∧
      Stopped
        (replyTo
          (fun k _ => ⟨9 - 3 * k, if k = 1 then .error .timedOut else .ok ⟨[], []⟩⟩)
          p.terminal)
        p.terminal e
        (run (fun k _ => ⟨9 - 3 * k, if k = 1 then .error .timedOut else .ok ⟨[], []⟩⟩)
          none [] p.terminal).world before f after := by
  have hrun : ∀ (s : Statement) (respond : Respond),
      (∃ p, s.plan .standard ⟨0, 0⟩ = .ok p ∧
        p.terminal.inOrder.all (fun n => n.inputs.length ≤ narrowLimit) = true ∧
        p.terminal.inOrder.any
          (fun n => (ownFailure? (replyTo respond p.terminal) n).isSome) = true) →
      ∃ p e before f after, s.plan .standard ⟨0, 0⟩ = .ok p ∧
        Stopped (replyTo respond p.terminal) p.terminal e
          (run respond none [] p.terminal).world before f after := by
    rintro s respond ⟨p, hp, hall, hany⟩
    have hmem : ∀ n, n ∈ p.terminal.inOrder ↔ p.terminal.Reaches n :=
      fun n => mem_inOrder (planned_of_plan hp).numbered
    obtain ⟨n, hn, hsome⟩ := List.any_eq_true.1 hany
    obtain ⟨⟨e, before, f, after, -, hstopped⟩, -⟩ := first_failure_ends_run hp
      (fun m hm => by simpa using List.all_eq_true.1 hall m ((hmem m).2 hm)) respond
      ((hmem n).1 hn) (fun hnone => by rw [hnone] at hsome; cases hsome)
    exact ⟨p, e, before, f, after, hp, hstopped⟩
  exact hrun _ _ ⟨_, rfl, rfl, rfl⟩

/-- A join of thirty-one inputs holds back a failure that comes at once while its first
input waits. -/
theorem wide_join_waits :
    ∃ p n,
      (wideStatement ("slow" :: "broken" :: List.replicate 29 "slow")).plan
        .standard ⟨0, 0⟩ = .ok p ∧ p.terminal.Reaches n ∧
      (ownFailure? (replyTo slowOrBroken p.terminal) n).isSome = true ∧
      ends (replyTo slowOrBroken p.terminal) n = 0 ∧
      (run slowOrBroken none [] p.terminal).world.now = 5 := by
  have hcheck :
      ((wideStatement ("slow" :: "broken" :: List.replicate 29 "slow")).plan .standard
      ⟨0, 0⟩).toOption.any (fun p =>
        (p.terminal.inOrder.any fun n =>
          (ownFailure? (replyTo slowOrBroken p.terminal) n).isSome &&
            ends (replyTo slowOrBroken p.terminal) n == 0) &&
        (proceedFor slowOrBroken none p.terminal 3 .fresh (.start [])).any fun o =>
          o.world.now == 5) = true := by decide +kernel
  cases hp :
    (wideStatement ("slow" :: "broken" :: List.replicate 29 "slow")).plan .standard
      ⟨0, 0⟩ with
  | error f =>
      rw [hp] at hcheck
      cases hcheck
  | ok p =>
      rw [hp] at hcheck
      cases ho : proceedFor slowOrBroken none p.terminal 3 .fresh (.start []) with
      | none => simp [Except.toOption, ho] at hcheck
      | some o =>
          simp only [Except.toOption, Option.any_some, ho, Bool.and_eq_true, beq_iff_eq,
            List.any_eq_true] at hcheck
          obtain ⟨⟨n, hn, hfails, hends⟩, hnow⟩ := hcheck
          refine ⟨p, n, rfl, (mem_inOrder (planned_of_plan hp).numbered).1 hn,
            hfails, hends, ?_⟩
          rw [run, proceed_eq_of_proceedFor 3 ho]
          exact hnow

end SeriesQuery.Execution
