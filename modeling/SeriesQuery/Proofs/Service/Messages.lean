import SeriesQuery.Proofs.Plan.Acceptance
import SeriesQuery.Proofs.Plan.Readers
import SeriesQuery.Service.Basic

/-!
# Failures have messages

A statement that fails for the faults of its arguments has one message for each of them,
and there is at least one, since no reader of arguments refuses them without a fault.
Every other failure has messages by its form.  These messages are what the service lists
in its refusal.

## Main results

* `Statement.messages_of_plan`, `messages_of_planText`: a statement without a plan has
  messages.
* `Plan.messages_of_outcome`: a plan that gives no result has a message.
* `nothing_silent`: whatever goes wrong, from a getter to the service, is told.
-/

namespace SeriesQuery

open SeriesQuery.Backend (Request)
open SeriesQuery.Time (Instant)
open SeriesQuery.Execution (Respond)

/-! ## Decoders -/

namespace Combiners

private theorem frank_of_find? {combiners : Combiners} {name : String}
    {g : Getter Combination} (h : ∀ e ∈ combiners.entries, Frank e.2)
    (hfind : combiners.find? name = some g) :
    Frank g := by
  obtain ⟨e, he, rfl⟩ := Option.map_eq_some_iff.1 hfind
  exact h e (List.mem_of_find?_eq_some he)

/-- The aggregators that are always there never refuse arguments without a fault. -/
theorem frank_standard : ∀ e ∈ standard.entries, Frank e.2 := by
  have hentries :
      standard.entries = [("threshold", thresholdGetter), ("union", unionGetter)] := rfl
  rw [hentries]
  intro e he
  simp only [List.mem_cons, List.not_mem_nil, or_false] at he
  rcases he with rfl | rfl
  · exact thresholdReader_getter ▸ earnest_threshold.frank
  · exact unionReader_getter ▸ (Reader.earnest_done _).frank

end Combiners

/-! ## Plans -/

namespace Statement

open Binding Stages

variable {combiners : Combiners} {now : Instant} {s : Statement} {name : String}
  {faults : List ArgumentFault} {fault : PlanFault}

/-- Faults of arguments come from reading them. -/
theorem decoded_of_invalidArguments
    (h : s.plan combiners now = .error (.invalidArguments name faults)) :
    ∃ given, decodeBackend name given = .error faults ∨
      combiners.decode? name given = some (.error faults) := by
  rcases plan_eq_error_iff.1 h with hbind | ⟨b, -, ⟨-, hempty⟩ | ⟨-, hrequest⟩⟩
  · rw [← s.stages.take_length] at hbind
    obtain ⟨k, stage, -, -, -, hbreaks⟩ := (bindStages_eq_error (Nat.le_refl _)).1 hbind
    cases hbreaks with
    | aggregation _ _ hfault =>
        cases hfault with
        | function _ _ hdecode => exact ⟨_, Or.inl hdecode⟩
        | combination _ _ _ hdecode => exact ⟨_, Or.inr hdecode⟩
  · cases hempty
  · rw [requestFault?_eq] at hrequest
    obtain ⟨d, -, hd⟩ := List.exists_of_findSome?_eq_some hrequest
    obtain ⟨r, -, hr⟩ := Option.bind_eq_some_iff.1 hd
    unfold faultOf? at hr
    split at hr <;> cases hr

/-- A statement without a plan has messages. -/
theorem messages_of_plan (hfrank : ∀ e ∈ combiners.entries, Frank e.2)
    (h : s.plan combiners now = .error fault) : fault.messages ≠ [] := by
  cases fault with
  | invalidArguments name faults =>
      obtain ⟨given, hbackend | hcombiner⟩ := decoded_of_invalidArguments h
      · have hfaults :=
          (backendReader_getter name ▸ (earnest_backend name).frank) _ _ _ hbackend
        simpa [PlanFault.messages] using hfaults
      · obtain ⟨g, hg, hdecode⟩ := Option.map_eq_some_iff.1 hcombiner
        have hfaults := Combiners.frank_of_find? hfrank hg _ _ _ hdecode
        simpa [PlanFault.messages] using hfaults
  | _ => exact List.cons_ne_nil _ _

end Statement

/-! ## Statements -/

variable {combiners : Combiners} {now : Instant} {text : String} {f : StatementFailure}

theorem messages_of_planText (hfrank : ∀ e ∈ combiners.entries, Frank e.2)
    (h : planText combiners now text = .error f) : f.messages ≠ [] := by
  rcases Fallible.bind_eq_error.1 h with hparse | ⟨s, -, hplan⟩
  · obtain ⟨problem, -, rfl⟩ := Fallible.mapError_eq_error.1 hparse
    exact List.cons_ne_nil _ _
  · obtain ⟨fault, hfault, rfl⟩ := Fallible.mapError_eq_error.1 hplan
    exact Statement.messages_of_plan hfrank hfault

theorem Plan.messages_of_outcome {p : Plan} {timeout : Nat} {o : Execution.Outcome}
    (h : p.outcome timeout o = .error f) : f.messages ≠ [] := by
  unfold Plan.outcome at h
  split at h
  · cases h
  · cases h
    exact List.cons_ne_nil _ _
  · cases h
    exact List.cons_ne_nil _ _

/-! ## The service -/

namespace Service

/-- A refusal lists messages, of which there are some. -/
structure Lists (site : Site) (a : Answer) (messages : List String) : Prop where
  some : messages ≠ []
  body : a.body = (RefusalBody.toJson ⟨messages, site.requestId⟩).compact

/-- A call that gets no result is told why. -/
structure Tells (site : Site) (call : Call) : Prop where
  unplanned : ∀ f, planOf site call = .error f →
    Lists site (runCall site call).1 f.messages ∧
    Lists site (explainCall site call) f.messages
  failed : ∀ p f, planOf site call = .ok p →
    p.outcome site.timeoutMillis (p.run site.respond site.timeoutMillis) = .error f →
    Lists site (runCall site call).1 f.messages

variable {site : Site} {call : Call}

private theorem messages_of_statementOf {f : CallFailure}
    (h : statementOf site call = .error f) : f.messages ≠ [] := by
  unfold statementOf at h
  split at h
  · cases h
    exact List.cons_ne_nil _ _
  · split at h
    · cases h
      exact List.cons_ne_nil _ _
    · obtain ⟨problem, -, rfl⟩ := Fallible.mapError_eq_error.1 h
      exact List.cons_ne_nil _ _

private theorem messages_of_planOf {f : CallFailure}
    (hfrank : ∀ e ∈ site.combiners.entries, Frank e.2)
    (h : planOf site call = .error f) : f.messages ≠ [] := by
  rcases Fallible.bind_eq_error.1 h with hstatement | ⟨text, -, hplan⟩
  · exact messages_of_statementOf hstatement
  · obtain ⟨failure, hfailure, rfl⟩ := Fallible.mapError_eq_error.1 hplan
    exact messages_of_planText hfrank hfailure

private theorem tells (hfrank : ∀ e ∈ site.combiners.entries, Frank e.2) :
    Tells site call where
  unplanned := by
    intro f hplan
    have hsome := messages_of_planOf hfrank hplan
    unfold runCall explainCall
    rw [hplan]
    exact ⟨⟨hsome, rfl⟩, ⟨hsome, rfl⟩⟩
  failed := by
    intro p f hplan hfails
    have hsome := Plan.messages_of_outcome hfails
    unfold runCall
    rw [hplan]
    dsimp only
    rw [hfails]
    exact ⟨hsome, rfl⟩

end Service

/-! ## All failures -/

/-- Whatever goes wrong is told, from the getters to the service. -/
structure NothingSilent : Prop where
  /-- No call of a getter takes a fault back, and one that gives nothing has recorded a
  fault. -/
  call : ∀ {α : Type} (c : ArgumentCall α) (s : Arguments),
    s.faults <+: (c.getter.run s).2.faults ∧
      ((c.getter.run s).1 = none → s.faults.length < (c.getter.run s).2.faults.length)
  /-- The same holds of all calls of a reader together. -/
  reader : ∀ {α : Type} (r : Reader α) (s : Arguments),
    s.faults <+: (r.getter.run s).2.faults ∧
      (r.Refused s → s.faults.length < (r.getter.run s).2.faults.length)
  /-- A reader that gives nothing only after some call gave nothing refuses with a
  fault. -/
  refusal : ∀ {α : Type} (r : Reader α), r.Earnest → Frank r.getter
  /-- The aggregators are read by such readers. -/
  union : unionReader.Earnest ∧ unionReader.getter = unionGetter
  threshold : thresholdReader.Earnest ∧ thresholdReader.getter = thresholdGetter
  backend : ∀ name,
    (backendReader name).Earnest ∧ (backendReader name).getter = backendGetter name
  /-- A statement without a plan has messages. -/
  plan : ∀ (text : String) (now : Instant) (f : StatementFailure),
    planText .standard now text = .error f → f.messages ≠ []
  /-- A plan without a result has messages. -/
  outcome : ∀ (p : Plan) (respond : Respond) (timeout : Nat) (f : StatementFailure),
    p.outcome timeout (p.run respond timeout) = .error f → f.messages ≠ []
  /-- The service lists these messages. -/
  service : ∀ (site : Service.Site) (call : Service.Call),
    site.combiners = .standard → Service.Tells site call

/-- **No failure is silent.** -/
theorem nothing_silent : NothingSilent where
  call := fun c s => ⟨c.kept s, c.told s⟩
  reader := fun r s => ⟨r.kept s, r.told s⟩
  refusal := fun _ h => h.frank
  union := ⟨Reader.earnest_done _, unionReader_getter⟩
  threshold := ⟨earnest_threshold, thresholdReader_getter⟩
  backend := fun name => ⟨earnest_backend name, backendReader_getter name⟩
  plan := fun _ _ _ h => messages_of_planText Combiners.frank_standard h
  outcome := fun _ _ _ _ h => Plan.messages_of_outcome h
  service := fun _ _ h => Service.tells (h ▸ Combiners.frank_standard)

end SeriesQuery
