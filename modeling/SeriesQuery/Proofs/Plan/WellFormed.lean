import SeriesQuery.Backend.Client
import SeriesQuery.Proofs.Plan.Acceptance

/-!
# Plans are well formed

Every stage of a plan reads stages of smaller numbers, so nothing is lost when a plan
under construction is finished and nothing goes round in a circle.  A stage that asks
the backend reads nothing; its request is about one metric, is run through functions
that aggregations of the statement name, and is one that the backend is asked without
ado.  A stage that combines reads something.  Each of these holds of a stage when it is
added, and folding a function into a request keeps it.

## Main results

* `Binds.sound`: a stage that binds keeps all stages of the plan under construction
  sound.
* `Statement.plan_wellFormed`: all that a plan needs is well formed.
-/

namespace SeriesQuery

open SeriesQuery.Backend
open SeriesQuery.Time (Instant)

/-! ## What is well formed -/

/-- A function that an aggregation among some stages names, with settings as its
arguments say. -/
def Backend.Aggregator.WrittenIn (f : Aggregator) (ss : List Stage) : Prop :=
  ∃ s a, s ∈ ss ∧ s.body = .aggregate a ∧ isBackendFunction a.name = true ∧
    f.SettledBy a.name a.arguments

/-- A request about one metric, run through functions that some stages name. -/
def Backend.Request.WrittenIn (r : Request) (ss : List Stage) : Prop :=
  ∃ m, r.metrics = [m] ∧ ∀ f ∈ m.aggregators, f.WrittenIn ss

/-- A stage of a plan for some stages is well formed. -/
structure Node.WellFormed (ss : List Stage) (n : Node) : Prop where
  falling : ∀ m ∈ n.inputs, m.id < n.id
  acyclic : ∀ m ∈ n.inputs, ∀ k, m.Reaches k → k.id < n.id
  leaf : ∀ r, n.work = .ask r → n.inputs = []
  inner : ∀ c, n.work = .combine c → n.inputs ≠ []
  written : ∀ r, n.work = .ask r → r.WrittenIn ss
  valid : ∀ r, n.work = .ask r → r.isValid = true
  accepted : ∀ r, n.work = .ask r → ∀ base send faults,
    Backend.ask base send r ≠ .error (.invalidRequest faults)

namespace Binding

variable {combiners : Combiners} {now : Instant} {b b' : Binding} {s : Stage}
  {ss : List Stage}

/-- When a plan is finished stage by stage, the inputs of each stage are finished before
it. -/
def InRange (b : Binding) : Prop :=
  ∀ before d after, b.nodes = before ++ d :: after →
    ∀ j ∈ d.inputs, j < (before.foldl finishNode []).length

/-- What a stage under construction does goes with what it reads. -/
structure SoundNode (ss : List Stage) (d : DraftNode) : Prop where
  leaf : ∀ r, d.work = .ask r → d.inputs = []
  inner : ∀ c, d.work = .combine c → d.inputs ≠ []
  written : ∀ r, d.work = .ask r → r.WrittenIn ss

/-- All stages under construction are sound. -/
def Sound (ss : List Stage) (b : Binding) : Prop := ∀ d ∈ b.nodes, SoundNode ss d

/-! ## Requests -/

/-- The request of a select stage has no functions. -/
theorem writtenIn_requestOf (x : Select) (range : Range) :
    (requestOf x range).WrittenIn ss :=
  ⟨metricOf x, rfl, fun _ hf => (nomatch hf)⟩

/-- A request goes on to be about one metric with one more function. -/
theorem writtenIn_aggregated {r : Request} {f : Aggregator} (hr : r.WrittenIn ss)
    (hf : f.WrittenIn ss) : (aggregated r f).WrittenIn ss := by
  obtain ⟨m, hm, haggregators⟩ := hr
  refine ⟨{ m with aggregators := m.aggregators ++ [f] }, by
    simp [Binding.aggregated, hm], ?_⟩
  intro g hg
  rcases List.mem_append.1 hg with hg | hg
  · exact haggregators g hg
  · rw [List.mem_singleton] at hg
    exact hg ▸ hf

/-! ## One stage -/

private theorem Sound.grow {work : Work} {inputs : List Nat} (h : Sound ss b)
    (hnew : ∀ position, SoundNode ss ⟨s.binding, inputs, work, position⟩) :
    Sound ss (b.grow s work inputs) := by
  intro d hd
  rcases List.mem_append.1 hd with hd | hd
  · exact h d hd
  · rw [List.mem_singleton] at hd
    exact hd ▸ hnew s.position

private theorem Sound.fold {i : Nat} {r r' : Request} (h : Sound ss b)
    (hwork : b.work? i = some (.ask r)) (hr' : r'.WrittenIn ss) :
    Sound ss (b.fold s i r') := by
  intro d hd
  obtain ⟨j, hj⟩ := List.mem_iff_getElem?.1 hd
  rw [getElem?_fold] at hj
  obtain ⟨e, he, rfl⟩ := Option.map_eq_some_iff.1 hj
  have hsound := h e (List.mem_of_getElem? he)
  by_cases hij : i = j
  · subst hij
    rw [if_pos rfl]
    rw [work?, he, Option.map_some, Option.some.injEq] at hwork
    refine ⟨fun _ _ => hsound.leaf r hwork, ?_, ?_⟩
    · intro c hc
      cases hc
    · intro r'' hr''
      cases hr''
      exact hr'
  · rw [if_neg hij]
    exact hsound

private theorem soundNode_ask {r : Request} (hr : r.WrittenIn ss) (name : Option String)
    (position : Position) : SoundNode ss ⟨name, [], .ask r, position⟩ := by
  refine ⟨fun _ _ => rfl, ?_, ?_⟩
  · intro c hc
    cases hc
  · intro r' hr'
    cases hr'
    exact hr

/-- **Step.**  A stage keeps all stages sound. -/
theorem Binds.sound (h : Binds combiners now b s b') (hs : s ∈ ss) (hb : Sound ss b) :
    Sound ss b' := by
  have hfunction : ∀ {a : Aggregation} {d : Decoded Aggregator} {i : Nat} {r : Request},
      s.body = .aggregate a → isBackendFunction a.name = true →
      b.work? i = some (.ask r) →
      decodeBackend a.name a.arguments = .ok d →
      (aggregated r d.value).WrittenIn ss := by
    intro a d i r ha hname hwork hd
    obtain ⟨e, he, hask⟩ := Option.map_eq_some_iff.1 hwork
    have hr := (hb e (List.mem_of_getElem? he)).written r hask
    exact writtenIn_aggregated hr ⟨s, a, hs, ha, hname, decodeBackend_settled hd⟩
  cases h with
  | request x range hbody hrange =>
      exact Sound.grow (b := { b with range := range }) hb
        (soundNode_ask (writtenIn_requestOf x range) s.binding)
  | folded a d i r hbody hname hsrc hwork hd hread =>
      exact Sound.fold (b := b.warn d.warnings) hb hwork
        (hfunction hbody hname hwork hd)
  | copied a d i r hbody hname hsrc hwork hd hread =>
      exact Sound.grow (b := b.warn d.warnings) hb
        (soundNode_ask (hfunction hbody hname hwork hd) s.binding)
  | combined a d inputs hbody hsrc hnone hd =>
      refine Sound.grow (b := b.warn d.warnings) hb fun position => ?_
      exact ⟨fun _ hr => (nomatch hr), fun _ _ => (sources_eq_ok_iff.1 hsrc).2,
        fun _ hr => (nomatch hr)⟩

private theorem sound_bindStages (h : bindStages combiners now ss = .ok b) :
    Sound ss b :=
  bindMore_preserves_of_mem (P := Sound ss) (fun hs hb _ hstep => hstep.sound hs hb) h
    fun _ hd => (nomatch hd)

/-! ## Finishing -/

private theorem Ordered.inRange (ho : b.Ordered) : b.InRange := by
  intro before d after hsplit j hj
  have hd : b.nodes[before.length]? = some d := by simp [hsplit]
  have hlt := ho.inputs before.length d hd j hj
  exact hlt.trans_eq (length_finishAll before).symm

/-- A finished stage reads stages of smaller numbers. -/
theorem falling_of_finished (ho : b.Ordered) {i : Nat} {n : Node}
    (hn : b.finished[i]? = some n) : ∀ m ∈ n.inputs, m.id < n.id := by
  obtain ⟨d, hd, rfl⟩ := exists_of_finished ho hn
  intro m hm
  obtain ⟨j, hj, hfinished⟩ := List.mem_filterMap.1 hm
  obtain ⟨e, -, rfl⟩ := exists_of_finished ho hfinished
  exact ho.inputs i d hd j hj

/-- The requests of a plan are valid. -/
theorem isValid_of_requestFault?_eq_none (h : b.requestFault? = none) {i : Nat}
    {r : Request} (hwork : b.work? i = some (.ask r)) : r.isValid = true := by
  cases hr : r.isValid with
  | true => rfl
  | false =>
      have hsome := requestFault?_isSome hwork hr
      rw [h] at hsome
      cases hsome

end Binding

/-- Where numbers fall along inputs, they fall along all that a stage needs. -/
theorem Node.id_le_of_reaches {n m : Node} (hm : n.Reaches m)
    (h : ∀ k, n.Reaches k → ∀ l ∈ k.inputs, l.id < k.id) : m.id ≤ n.id := by
  induction hm with
  | refl n => exact Nat.le_refl n.id
  | @input n k m hk hm ih =>
      have hkm := ih fun x hx => h x (.input hk hx)
      exact hkm.trans (h n (.refl n) k hk).le

/-- What comes back from the backend is never that a request has faults. -/
theorem Backend.Exchange.outcome_ne_invalidRequest (e : Exchange)
    (faults : List RequestFault) : e.outcome ≠ .error (.invalidRequest faults) := by
  intro h
  cases e with
  | unreachable => cases h
  | late => cases h
  | replied status body =>
      simp only [outcome] at h
      split at h
      · cases body with
        | none => cases h
        | some text =>
            obtain ⟨problem, -, hproblem⟩ := Fallible.mapError_eq_error.1 h
            cases hproblem
      · cases h

/-- A request that has no faults is never refused for its faults. -/
theorem Backend.ask_ne_invalidRequest {r : Request} (h : r.isValid = true)
    (base : String) (send : (address body : String) → Exchange)
    (faults : List RequestFault) :
    Backend.ask base send r ≠ .error (.invalidRequest faults) := by
  unfold Backend.ask
  simp only [h, Bool.not_true, Bool.false_eq_true, if_false]
  split
  · intro hnotSent
    cases hnotSent
  · exact Exchange.outcome_ne_invalidRequest _ faults

namespace Statement

open Binding

variable {combiners : Combiners} {now : Instant} {s : Statement} {p : Plan}

/-- **Plans are well formed.**  What a plan is finished from has its inputs in range,
and every stage that the plan needs is well formed. -/
theorem plan_wellFormed (h : s.plan combiners now = .ok p) :
    (∃ b i, bindStages combiners now s.stages = .ok b ∧ b.previous = some i ∧
      b.finished[i]? = some p.terminal ∧ b.InRange) ∧
      ∀ n, p.terminal.Reaches n → n.WellFormed s.stages := by
  obtain ⟨b, i, hb, hprevious, hterminal, hfault, -⟩ := plan_eq_ok h
  have hordered := ordered_bindStages hb
  have hsound := sound_bindStages hb
  refine ⟨⟨b, i, hb, hprevious, hterminal, hordered.inRange⟩, fun n hn => ?_⟩
  have hfalling : ∀ k, n.Reaches k → ∀ l ∈ k.inputs, l.id < k.id := fun k hk =>
    falling_of_finished hordered (finished_of_reaches hordered (hn.trans hk) hterminal)
  obtain ⟨d, hd, heq⟩ :=
    exists_of_finished hordered (finished_of_reaches hordered hn hterminal)
  have hwork : n.work = d.work := by rw [heq]; rfl
  have hinputs : n.inputs = d.inputs.filterMap fun j => b.finished[j]? := by
    rw [heq]; rfl
  have hnode := hsound d (List.mem_of_getElem? hd)
  have hask : ∀ r, n.work = .ask r → b.work? n.id = some (.ask r) := by
    intro r hr
    rw [work?, hd, Option.map_some, ← hwork, hr]
  have hvalid : ∀ r, n.work = .ask r → r.isValid = true := fun r hr =>
    isValid_of_requestFault?_eq_none hfault (hask r hr)
  exact
    { falling := hfalling n (.refl n)
      acyclic := by
        intro m hm k hk
        have hle := Node.id_le_of_reaches hk fun x hx => hfalling x (.input hm hx)
        exact hle.trans_lt (hfalling n (.refl n) m hm)
      leaf := by
        intro r hr
        rw [hinputs, hnode.leaf r (hwork ▸ hr)]
        rfl
      inner := by
        intro c hc hnil
        obtain ⟨j, hj⟩ := List.exists_mem_of_ne_nil _ (hnode.inner c (hwork ▸ hc))
        have hlt : j < b.finished.length := by
          have hi := (List.getElem?_eq_some_iff.1 hd).1
          rw [length_finished]
          exact (hordered.inputs n.id d hd j hj).trans hi
        rw [hinputs, List.filterMap_eq_nil_iff] at hnil
        have hnone := hnil j hj
        rw [List.getElem?_eq_getElem hlt] at hnone
        cases hnone
      written := fun r hr => hnode.written r (hwork ▸ hr)
      valid := hvalid
      accepted := fun r hr base send faults =>
        Backend.ask_ne_invalidRequest (hvalid r hr) base send faults }

/-- `select cpu; max(); union()`. -/
def unionOfMax : List Stage :=
  [⟨none, .select ⟨"cpu", none, [], []⟩, ⟨1, 1⟩⟩,
    ⟨none, .aggregate ⟨"max", none, []⟩, ⟨1, 13⟩⟩,
    ⟨none, .aggregate ⟨"union", none, []⟩, ⟨1, 20⟩⟩]

/-- Its plan has two stages, and both are well formed. -/
theorem plan_wellFormed_union :
    ∃ p, Statement.plan .standard ⟨0, 0⟩ ⟨unionOfMax⟩ = .ok p ∧
      p.terminal.inputs.length = 1 ∧
      ∀ n, p.terminal.Reaches n → n.WellFormed unionOfMax := by
  refine ⟨_, rfl, rfl, ?_⟩
  exact (plan_wellFormed (show Statement.plan .standard ⟨0, 0⟩ ⟨unionOfMax⟩ =
    .ok _ from rfl)).2

end Statement

end SeriesQuery
