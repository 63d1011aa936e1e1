import Mathlib.Data.List.Perm.Subperm
import SeriesQuery.Service.Basic
import SeriesQuery.Proofs.Execution.Narrow

/-!
# The requests of a run

Whatever a run comes to, it makes requests of the stages of its plan only.  When it
succeeds it has made those of all stages, each once, however many inputs the joins of
the plan have: what has not failed in the end has never failed, so no turn has been
passed on.  When all joins are narrow no request is made twice in runs that fail,
either.

A wider join takes failures in the order of its inputs.  When one that waits holds a
failure back, the turn at the stage that has failed goes to the next input that mentions
it, which asks again.

## Main results

* `run_calls_reachable`, `run_calls_perm`: what any run asks, and what a successful one
  does.
* `run_asks_once`: every request once, in plans with narrow joins.
* `wide_join_asks_again`: a request made thirty times for a wide join.
-/

namespace SeriesQuery.Execution

open SeriesQuery.Backend (Request Response)
open World

variable {respond : Respond} {graph : Node → Prop} {deadline : Option Nat}
  {w w' w₀ : World} {root n m k : Node} {p q : Path} {t t' : Task} {r : SeriesResult}

/-! ## What any run asks -/

/-- All requests that have been made are those of stages. -/
def Asked (graph : Node → Prop) (w : World) : Prop :=
  ∀ request ∈ w.calls, ∃ n, graph n ∧ n.work = .ask request

private theorem Move.asked (h : Move respond graph q w w') (hw : w.Tidy)
    (hasked : Asked graph w) : Asked graph w' := by
  intro request hmem
  rcases h.calls hw with hsame | ⟨n, request', hn, hwork, -, hnew⟩
  · exact hasked request (hsame ▸ hmem)
  · rw [hnew] at hmem
    rcases List.mem_append.1 hmem with hmem | hmem
    · exact hasked request hmem
    · rw [List.mem_singleton.1 hmem]
      exact ⟨n, hn, hwork⟩

private theorem Moves.asked {places : Path → Prop} (h : Moves respond graph places w w')
    (hw : w.Tidy) (hasked : Asked graph w) : Asked graph w' :=
  (h.keeps (P := Asked graph) (fun _ hm hv hasked => hm.asked hv hasked) hw hasked).2

/-- **Requests of any run.**  A run asks for stages of its plan only. -/
theorem run_asked (hclosed : Closed graph) (hroot : graph root) :
    Asked graph (run respond deadline [] root).world := by
  have hpass : ∀ {t w t' w'}, Ready respond graph root t w → Asked graph w →
      (actor respond root).poll [] t w = (t', w') → Asked graph w' := by
    intro t w t' w' hready hasked hpoll
    have hpassed :=
      passing respond hclosed root hroot [] t w hready.tidy hready.sound hready.expected
    rw [hpoll] at hpassed
    exact hpassed.moves.asked hready.tidy hasked
  have hlater : ∀ {t : Task} {w w'}, (∀ r, t ≠ .done r) →
      Ready respond graph root t w' → Asked graph w → Later w w' → Asked graph w' := by
    intro t w w' _ _ hasked hlater
    unfold Asked
    rw [hlater.calls]
    exact hasked
  have hstart : Asked graph (.start []) := fun request hmem => by cases hmem
  obtain ⟨_, hend, -⟩ : ∃ t : Task, Asked graph (run respond deadline [] root).world ∧
      ∀ r, (run respond deadline [] root).result = some r ↔ t = .done r :=
    Ready.along (P := fun _ w => Asked graph w) (Q := fun _ w => Asked graph w)
      hclosed hroot hpass hlater .nil hstart
  exact hend

/-! ## What a successful run asks -/

/-- **Requests of a successful run.**  What has not failed in the end has asked for the
stages that have begun, each once. -/
theorem run_smooth (hplanned : Planned root.Reaches)
    (hr : (run respond deadline [] root).result = some (.ok r)) :
    Smooth root.Reaches (.start []) (run respond deadline [] root).world := by
  let P : Task → World → Prop := fun t w =>
    Clear root [] t → Smooth root.Reaches (.start []) w ∧ Idle root [] t w
  have hpass : ∀ {t w t' w'}, Ready respond root.Reaches root t w → P t w →
      (actor respond root).poll [] t w = (t', w') → P t' w' := by
    intro t w t' w' hready hP hpoll hclear
    have hclearing := clearing respond root [] t w
    have hasking :=
      asking respond hplanned root (.refl root) [] t w hready.tidy hready.sound
      hready.expected
    rw [hpoll] at hclearing hasking
    obtain ⟨hsmooth, hidle⟩ := hP (hclearing hclear)
    obtain ⟨hsmooth', hidle'⟩ := hasking hidle hclear
    exact ⟨hsmooth.trans hsmooth', hidle'⟩
  have hlater : ∀ {t w w'}, (∀ r, t ≠ .done r) →
      Ready respond root.Reaches root t w' → P t w → Later w w' → P t w' := by
    intro t w w' _ _ hP hlater hclear
    obtain ⟨hsmooth, hidle⟩ := hP hclear
    have hturn : ∀ id, w'.turn? id = w.turn? id :=
      fun id => by rw [turn?, hlater.turns, turn?]
    have hrecalled : ∀ id, w'.recalled? id = w.recalled? id := fun id => by
      rw [recalled?, hlater.memo, recalled?]
    have howns : ∀ id q, w'.Owns id q ↔ w.Owns id q :=
      fun id q => by rw [Owns, hturn, Owns]
    refine ⟨hsmooth.trans
      (.of_same (fun id => ?_) (fun id q => (howns id q).1) hlater.calls), ?_⟩
    · rw [Begun, hrecalled, hturn, Begun]
    · intro k q hv ho
      exact hidle k q hv ((howns k.id q).1 ho)
  have hstart : P .fresh (.start []) :=
    fun _ => ⟨.refl _, idle_of_single (by simp) (by simp)⟩
  obtain ⟨t, hend, hresult⟩ : ∃ t, P t (run respond deadline [] root).world ∧
      ∀ r, (run respond deadline [] root).result = some r ↔ t = .done r :=
    Ready.along hplanned.closed (.refl root) hpass hlater .nil hstart
  rw [(hresult _).1 hr] at hend
  exact (hend (clear_of_single (by simp) (by simp))).1

/-- When the result of a stage is kept, so are those of all that it needs. -/
theorem begun_of_recalled (hplanned : Planned graph) (hf : w.Founded respond graph)
    (hn : graph n) (hreach : n.Reaches k) (hr : w.recalled? n.id = some r) :
    w.Begun k.id :=
  Or.inl (recalled_of_reaches hplanned.numbered hplanned.closed hf hn hreach
    (by rw [hr]; rfl))

/-- **Every stage once.**  A successful run asks what a walk asks. -/
theorem run_calls_perm (hplanned : Planned root.Reaches)
    (hr : (run respond deadline [] root).result = some (.ok r)) :
    (run respond deadline [] root).world.calls.Perm (requestsOf root.inOrder) := by
  have hfounded : (World.start []).Founded respond root.Reaches :=
    fun id r hr => by cases hr
  have hended :=
    run_ended hplanned.closed hplanned.numbered (.refl root) hfounded deadline
  have hkept : World.recalled? _ root.id = some r := hended.okay _ hr
  obtain ⟨ns, hcalls, hnodup, hgraph, hiff⟩ := (run_smooth hplanned hr).asked
  have hperm : ns.Perm root.inOrder := by
    refine (List.perm_ext_iff_of_nodup hnodup.of_map
      (nodup_inOrder hplanned.numbered).of_map).2 ?_
    intro m
    rw [mem_inOrder hplanned.numbered]
    refine ⟨hgraph m, fun hm => (hiff m hm).2 ⟨?_, ?_⟩⟩
    · rintro (hsome | hsome)
      · cases hsome
      · cases hsome
    · exact begun_of_recalled hplanned hended.founded (.refl root) hm hkept
  have hnone : (World.start []).calls = [] := rfl
  rw [hcalls, hnone, List.nil_append]
  exact hperm.filterMap _

/-! ## What a run of a narrow plan asks -/

/-- A run of a narrow plan asks what a walk asks, up to some stage. -/
theorem narrow_calls_sublist (hplanned : Planned root.Reaches)
    (hnarrow : Narrow root.Reaches) :
    (run respond deadline [] root).world.calls.Sublist (requestsOf root.inOrder) := by
  have hran := narrow_run hplanned hnarrow respond deadline
  cases hresult : (run respond deadline [] root).result with
  | none =>
      rw [hran.late hresult]
  | some result =>
      cases result with
      | ok r =>
          rw [(hran.ok r hresult).2]
      | error e =>
          obtain ⟨before, f, after, hstopped⟩ := hran.error e hresult
          rw [hstopped.calls]
          refine List.Sublist.filterMap _ ?_
          split
          · rw [hstopped.order, List.append_cons before f after]
            exact List.sublist_append_left _ _
          · exact List.Sublist.refl _

/-- The graph of a plan is planned. -/
theorem planned_of_plan {combiners : Combiners} {now : Time.Instant} {s : Statement}
    {p : Plan} (h : s.plan combiners now = .ok p) : Planned p.terminal.Reaches where
  closed := closed_reaches p.terminal
  numbered := Statement.plan_distinct h
  leaf := fun _ _ hn hr => Statement.plan_leaf h hn hr

/-- The service makes no requests but those of the statement that it is asked to run. -/
theorem answer_requests (site : Service.Site) (c : Service.Call) :
    (Service.answer site c).2 = [] ∨
      (Service.answer site c).2 = (Service.runCall site c).2 := by
  unfold Service.answer
  by_cases hoptions : c.method = "OPTIONS"
  · rw [if_pos hoptions]
    exact Or.inl rfl
  · rw [if_neg hoptions]
    show (Service.route site c).2 = [] ∨
        (Service.route site c).2 = (Service.runCall site c).2
    unfold Service.route
    cases Service.Endpoint.at? c.path with
    | none => exact Or.inl rfl
    | some e =>
        dsimp only
        split
        · exact Or.inl rfl
        · cases e with
          | run => exact Or.inr rfl
          | explain => exact Or.inl rfl
          | health => exact Or.inl rfl
          | live => exact Or.inl rfl

/-- The service makes requests only to run the plan of a text that has one. -/
theorem answer_planned {site : Service.Site} {c : Service.Call}
    (h : (Service.answer site c).2 ≠ []) :
    ∃ text p, Service.statementOf site c = .ok text ∧
      planText site.combiners site.now text = .ok p ∧
      (Service.answer site c).2 =
        (p.run site.respond site.timeoutMillis).world.calls := by
  rcases answer_requests site c with hnone | hrun
  · exact absurd hnone h
  · rw [hrun] at h ⊢
    unfold Service.runCall at h ⊢
    cases hplan : Service.planOf site c with
    | error f =>
        rw [hplan] at h
        exact absurd rfl h
    | ok p =>
        obtain ⟨text, htext, hplan⟩ := Fallible.bind_eq_ok_iff.1 hplan
        refine ⟨text, p, htext, ?_, rfl⟩
        cases hp : planText site.combiners site.now text with
        | error f =>
            rw [hp] at hplan
            cases hplan
        | ok p' =>
            rw [hp] at hplan
            cases hplan
            rfl

/-- **Requests of a run.**  A run of a plan makes requests that the description of the
plan lists, and when it succeeds, exactly these.  When no stage of the plan has more
inputs than a narrow join, every request is made at most as often as it is listed, also
in runs that fail or are cut off.  The service makes requests only to run the plan of a
text that has one. -/
theorem run_asks_once (combiners : Combiners) (now : Time.Instant) (s : Statement)
    (respond : Respond) (deadline : Option Nat) :
    (∀ p, s.plan combiners now = .ok p →
      (∀ request ∈ (run respond deadline [] p.terminal).world.calls,
        request ∈ p.requests) ∧
      (∀ r, (run respond deadline [] p.terminal).result = some (.ok r) →
        (run respond deadline [] p.terminal).world.calls.Perm p.requests) ∧
      ((∀ n, p.terminal.Reaches n → n.inputs.length ≤ narrowLimit) →
        (run respond deadline [] p.terminal).world.calls.Subperm p.requests)) ∧
    ∀ (site : Service.Site) (c : Service.Call), (Service.answer site c).2 ≠ [] →
      ∃ text p, Service.statementOf site c = .ok text ∧
        planText site.combiners site.now text = .ok p ∧
        (Service.answer site c).2 =
          (p.run site.respond site.timeoutMillis).world.calls := by
  refine ⟨fun p hp => ?_, fun site c => answer_planned⟩
  have hplanned := planned_of_plan hp
  refine ⟨?_, ?_, ?_⟩
  · intro request hmem
    obtain ⟨n, hn, hwork⟩ :=
      run_asked hplanned.closed (Node.Reaches.refl p.terminal) request hmem
    have hmem := (mem_inOrder hplanned.numbered).2 hn
    exact (requests_perm hplanned.numbered).subset
      (List.mem_filterMap.2 ⟨n, hmem, by rw [hwork]; rfl⟩)
  · intro r hr
    exact (run_calls_perm hplanned hr).trans (requests_perm hplanned.numbered)
  · intro hnarrow
    exact (narrow_calls_sublist hplanned hnarrow).subperm.trans
      (requests_perm hplanned.numbered).subperm

/-- A request that is repeated in a join and shared by two, with a backend that refuses
it. -/
theorem run_asks_once_repeated :
    ∃ p, Statement.plan .standard ⟨0, 0⟩
        ⟨[⟨some "a", .select ⟨"cpu", none, [], []⟩, ⟨1, 1⟩⟩,
          ⟨some "u", .aggregate ⟨"union", some ["a", "a"], []⟩, ⟨1, 17⟩⟩,
          ⟨none, .aggregate ⟨"union", some ["a", "u"], []⟩, ⟨1, 39⟩⟩]⟩ = .ok p ∧
      (run (fun _ _ => ⟨5, .error .unavailable⟩) none [] p.terminal).world.calls.Subperm
        p.requests := by
  have hrun : ∀ s : Statement, (∃ p, s.plan .standard ⟨0, 0⟩ = .ok p ∧
        p.terminal.inOrder.all (fun n => n.inputs.length ≤ narrowLimit) = true) →
      ∃ p, s.plan .standard ⟨0, 0⟩ = .ok p ∧
        (run (fun _ _ => ⟨5, .error .unavailable⟩) none []
          p.terminal).world.calls.Subperm
          p.requests := by
    rintro s ⟨p, hp, hall⟩
    refine ⟨p, hp,
      ((run_asks_once .standard ⟨0, 0⟩ s _ none).1 p hp).2.2 fun n hn => ?_⟩
    have hmem := (mem_inOrder (planned_of_plan hp).numbered).2 hn
    simpa using List.all_eq_true.1 hall n hmem
  exact hrun _ ⟨_, rfl, rfl⟩

/-- A statement that joins a slow request and one that fails, each as often as the
sources say. -/
def wideStatement (sources : List String) : Statement :=
  ⟨[⟨some "slow", .select ⟨"slow", none, [], []⟩, ⟨1, 1⟩⟩,
    ⟨some "broken", .select ⟨"broken", none, [], []⟩, ⟨1, 21⟩⟩,
    ⟨none, .aggregate ⟨"union", some sources, []⟩, ⟨1, 45⟩⟩]⟩

/-- A backend that answers slowly about one metric and fails at once on the others. -/
def slowOrBroken (_ : Nat) (request : Request) : Reply :=
  if request.metrics.any fun m => m.name == "slow" then ⟨5, .ok ⟨[], []⟩⟩
  else ⟨0, .error .unavailable⟩

/-- A join of thirty-one inputs holds a failure back while its first input waits, and so
asks thirty times for the request that fails. -/
theorem wide_join_asks_again :
    ∃ p,
      (wideStatement ("slow" :: List.replicate 30 "broken")).plan .standard
        ⟨0, 0⟩ = .ok p ∧
      ¬ (run slowOrBroken none [] p.terminal).world.calls.Subperm p.requests := by
  have hcheck : ((wideStatement ("slow" :: List.replicate 30 "broken")).plan .standard
      ⟨0, 0⟩).toOption.any (fun p => p.requests.length == 2 &&
        (proceedFor slowOrBroken none p.terminal 3 .fresh (.start [])).any fun o =>
          o.world.calls.length == 31) = true := by decide +kernel
  cases hp :
    (wideStatement ("slow" :: List.replicate 30 "broken")).plan .standard ⟨0, 0⟩ with
  | error f =>
      rw [hp] at hcheck
      cases hcheck
  | ok p =>
      rw [hp] at hcheck
      cases ho : proceedFor slowOrBroken none p.terminal 3 .fresh (.start []) with
      | none => simp [Except.toOption, ho] at hcheck
      | some o =>
          simp only [Except.toOption, Option.any_some, ho, Bool.and_eq_true,
            beq_iff_eq] at hcheck
          refine ⟨p, rfl, fun h => ?_⟩
          have hle := h.length_le
          rw [run, proceed_eq_of_proceedFor 3 ho] at hle
          omega

end SeriesQuery.Execution
