import SeriesQuery.Proofs.Backend.Requests
import SeriesQuery.Proofs.Plan.WellFormed
import SeriesQuery.Proofs.Statement.Parsing
import SeriesQuery.Proofs.Time.Proper

/-!
# Requests of plans

Every request of a plan goes from a proper instant to another one, its metrics come back
from their texts, and it can be sent.  Ranges are proper because the present and all
written times are; a function that is added to a request changes nothing of this.

## Main results

* `Statement.proper_of_parse`: whatever date-times a text writes, the instants are
  proper.
* `Binds.asksPlanned`: a stage that binds keeps all requests under construction as plans
  make them.
* `Statement.request_of_plan`: what the requests of a plan have in common.
-/

namespace SeriesQuery

open SeriesQuery.Backend Fallible
open SeriesQuery.Time (Instant)

/-! ## Proper statements -/

/-- All instants in a written span are proper. -/
structure Span.Proper (s : Span) : Prop where
  start : s.start.Proper
  stop : ∀ m ∈ s.stop, m.Proper

/-- All instants in a statement are proper. -/
def Statement.Proper (s : Statement) : Prop :=
  ∀ st ∈ s.stages, ∀ span ∈ st.span?, span.Proper

namespace Rendering

open SeriesQuery.Reading

private theorem MomentForm.proper {m : Moment} {ts : List Lexeme}
    (h : MomentForm m ts) : m.Proper := by
  cases h with
  | now => trivial
  | ago => trivial
  | fixed _ hread =>
      unfold readDateTime at hread
      split at hread
      · rename_i t ht
        cases hread
        exact Instant.proper_readAbsolute? ht
      · cases hread

private theorem SpanForm.proper {s : Span} {ts : List Lexeme} (h : SpanForm s ts) :
    s.Proper := by
  cases h with
  | since hstart => exact ⟨hstart.proper, by simp⟩
  | between hstart _ hstop => exact ⟨hstart.proper, by simpa using hstop.proper⟩

private theorem exists_of_mem_each {α : Type} {form : α → List Lexeme → Prop}
    {as : List α} {ts : List Lexeme} (h : Each form as ts) {a : α} (ha : a ∈ as) :
    ∃ us, form a us := by
  induction h with
  | nil => cases ha
  | cons hhead _ ih =>
      rcases List.mem_cons.1 ha with rfl | ha
      · exact ⟨_, hhead⟩
      · exact ih ha

private theorem SelectForm.proper {x : Select} {ts : List Lexeme}
    (h : SelectForm x ts) : ∀ span ∈ x.span, span.Proper := by
  intro span hspan
  obtain ⟨-, -, hperm, hclauses⟩ := h
  have hgiven : Given.range span ∈ given x := by simp [given, Option.mem_def.1 hspan]
  obtain ⟨us, hclause⟩ := exists_of_mem_each hclauses (hperm.mem_iff.2 hgiven)
  cases hclause with
  | range _ hform => exact hform.proper

private theorem BodyForm.proper {body : StageBody} {ts : List Lexeme}
    (h : BodyForm body ts) {x : Select} (hx : body = .select x) :
    ∀ span ∈ x.span, span.Proper := by
  subst hx
  cases h with
  | select hform => exact hform.proper

private theorem StageForm.proper {bound : Option String} {body : StageBody}
    {ts : List Lexeme} (h : StageForm bound body ts) {x : Select}
    (hx : body = .select x) :
    ∀ span ∈ x.span, span.Proper := by
  cases h with
  | unbound hform => exact hform.proper hx
  | bound _ hform => exact hform.proper hx

private theorem StagesForm.proper {source s : List Char} {sts : List Stage}
    (h : StagesForm source sts s) : ∀ st ∈ sts, ∀ span ∈ st.span?, span.Proper := by
  have hone : ∀ {st : Stage} {ts : List Lexeme}, StageForm st.binding st.body ts →
      ∀ span ∈ st.span?, span.Proper := by
    intro st ts hform span hspan
    unfold Stage.span? at hspan
    split at hspan
    · rename_i x hx
      exact hform.proper hx span hspan
    · cases hspan
  induction h with
  | last hform => exact List.forall_mem_singleton.2 (hone hform)
  | more hform _ _ _ _ ih => exact List.forall_mem_cons.2 ⟨hone hform, ih⟩

end Rendering

/-- A parsed statement is proper, whatever date-times its text writes. -/
theorem Statement.proper_of_parse {text : String} {s : Statement}
    (h : Statement.parse text = .ok s) : s.Proper := by
  obtain ⟨r, hread⟩ := Rendering.parse_eq_ok_iff.1 h
  exact (Reading.stages_sound hread).2.proper

/-! ## Ranges -/

/-- Both ends of a range are proper. -/
structure Range.Proper (range : Range) : Prop where
  start : range.start.Proper
  stop : range.stop.Proper

/-- The present, and two hours before it, are proper. -/
def Time.Instant.Present (now : Instant) : Prop := (Binding.defaultRange now).Proper

/-- A request as plans make it: over a proper range, with metrics that come back from
their texts. -/
structure Backend.Request.Planned (r : Request) : Prop where
  start : r.start.Proper
  stop : r.stop.Proper
  metrics : ∀ m ∈ r.metrics, ∀ depth, m.Sound (depth + 1)

namespace Binding

variable {combiners : Combiners} {now : Instant} {b b' : Binding} {s : Stage}
  {ss : List Stage}

private theorem proper_rangeAfter {last range : Range} {x : Select} {p : Position}
    (hnow : now.Present) (hlast : last.Proper) (hspan : ∀ span ∈ x.span, span.Proper)
    (h : rangeAfter now last x p = .ok range) : range.Proper := by
  unfold rangeAfter at h
  split at h
  · rename_i span hx
    obtain ⟨start, hstart, h⟩ := bind_eq_ok_iff.1 h
    obtain ⟨stop, hstop, h⟩ := bind_eq_ok_iff.1 h
    cases h
    have hproper := hspan span hx
    refine ⟨Moment.proper_resolve hproper.start hnow.stop (mapError_eq_ok hstart),
      Moment.proper_resolve ?_ hnow.stop (mapError_eq_ok hstop)⟩
    cases hwritten : span.stop with
    | none => trivial
    | some m => exact hproper.stop m hwritten
  · cases h
    exact hlast

/-! ## Requests -/

/-- All requests under construction are as plans make them, and so is the range of the
next one. -/
structure AsksPlanned (b : Binding) : Prop where
  range : b.range.Proper
  requests : ∀ d ∈ b.nodes, ∀ r, d.work = .ask r → r.Planned

private theorem planned_requestOf (x : Select) {range : Range} (h : range.Proper) :
    (requestOf x range).Planned where
  start := h.start
  stop := h.stop
  metrics := by
    refine List.forall_mem_singleton.2 fun depth => ⟨Tags.distinct_ofList _, ?_⟩
    show ∀ g ∈ (if x.groupBy.isEmpty then [] else [Grouping.byTags x.groupBy]),
        g.Sound (depth + 1)
    split
    · simp
    · exact List.forall_mem_singleton.2 (Grouping.sound_byTags x.groupBy)

/-- A function that is added to a request changes nothing of its range and its metrics
but that. -/
theorem planned_aggregated {r : Request} (h : r.Planned) (f : Aggregator) :
    (aggregated r f).Planned where
  start := h.start
  stop := h.stop
  metrics := List.forall_mem_map.2 fun m hm depth =>
    ⟨(h.metrics m hm depth).tags, (h.metrics m hm depth).groupings⟩

private theorem AsksPlanned.grow {work : Work} {inputs : List Nat} (h : b.AsksPlanned)
    (hwork : ∀ r, work = .ask r → r.Planned) : (b.grow s work inputs).AsksPlanned where
  range := h.range
  requests := by
    intro d hd
    rcases List.mem_append.1 hd with hd | hd
    · exact h.requests d hd
    · rw [List.mem_singleton.1 hd]
      exact hwork

private theorem AsksPlanned.fold {i : Nat} {r : Request} (h : b.AsksPlanned)
    (hr : r.Planned) :
    (b.fold s i r).AsksPlanned where
  range := h.range
  requests := by
    intro d hd r' hr'
    obtain ⟨j, hj⟩ := List.mem_iff_getElem?.1 hd
    rw [getElem?_fold] at hj
    obtain ⟨e, he, rfl⟩ := Option.map_eq_some_iff.1 hj
    by_cases hij : i = j
    · rw [if_pos hij] at hr'
      cases hr'
      exact hr
    · rw [if_neg hij] at hr'
      exact h.requests e (List.mem_of_getElem? he) r' hr'

/-- **Step.**  A proper stage keeps all requests as plans make them. -/
theorem Binds.asksPlanned (h : Binds combiners now b s b') (hnow : now.Present)
    (hs : ∀ span ∈ s.span?, span.Proper) (hb : b.AsksPlanned) : b'.AsksPlanned := by
  have hfunction : ∀ {i : Nat} {r : Request} (f : Aggregator),
      b.work? i = some (.ask r) → (aggregated r f).Planned := by
    intro i r f hwork
    obtain ⟨e, he, hask⟩ := Option.map_eq_some_iff.1 hwork
    exact planned_aggregated (hb.requests e (List.mem_of_getElem? he) r hask) f
  have hask : ∀ {r : Request}, r.Planned → ∀ r', Work.ask r = .ask r' → r'.Planned := by
    rintro r hr r' ⟨⟩
    exact hr
  cases h with
  | request x range hbody hrange =>
      have hspan : ∀ span ∈ x.span, span.Proper := by
        simpa [Stage.span?, hbody] using hs
      have hproper := proper_rangeAfter hnow hb.range hspan hrange
      have hnext : ({ b with range := range } : Binding).AsksPlanned :=
        ⟨hproper, hb.requests⟩
      exact hnext.grow (hask (planned_requestOf x hproper))
  | folded a d i r hbody hname hsrc hwork hd hread =>
      have hnext : (b.warn d.warnings).AsksPlanned := ⟨hb.range, hb.requests⟩
      exact hnext.fold (hfunction d.value hwork)
  | copied a d i r hbody hname hsrc hwork hd hread =>
      have hnext : (b.warn d.warnings).AsksPlanned := ⟨hb.range, hb.requests⟩
      exact hnext.grow (hask (hfunction d.value hwork))
  | combined a d inputs hbody hsrc hnone hd =>
      have hnext : (b.warn d.warnings).AsksPlanned := ⟨hb.range, hb.requests⟩
      refine hnext.grow ?_
      intro r hr
      cases hr

private theorem asksPlanned_bindStages (h : bindStages combiners now ss = .ok b)
    (hnow : now.Present) (hss : ∀ s ∈ ss, ∀ span ∈ s.span?, span.Proper) :
    b.AsksPlanned :=
  bindMore_preserves_of_mem (P := AsksPlanned)
    (fun hs hb _ hstep => hstep.asksPlanned hnow (hss _ hs) hb) h ⟨hnow,
      fun _ hd => (nomatch hd)⟩

end Binding

/-- The requests of a plan are as plans make them, and they can be sent. -/
theorem Statement.request_of_plan {combiners : Combiners} {now : Instant}
    {s : Statement} {p : Plan} (hnow : now.Present) (hs : s.Proper)
    (h : s.plan combiners now = .ok p) {n : Node} (hn : p.terminal.Reaches n)
    {r : Request} (hr : n.work = .ask r) :
    r.Planned ∧ r.isValid = true := by
  obtain ⟨b, i, hb, -, hterminal, hfault, -⟩ := Binding.plan_eq_ok h
  have hordered := Binding.ordered_bindStages hb
  obtain ⟨d, hd, heq⟩ := Binding.exists_of_finished hordered
    (Binding.finished_of_reaches hordered hn hterminal)
  have hwork : d.work = .ask r := by
    rw [heq] at hr
    exact hr
  have hask : b.work? n.id = some (.ask r) := by
    rw [Binding.work?, hd, Option.map_some, hwork]
  exact ⟨(Binding.asksPlanned_bindStages hb hnow hs).requests d
    (List.mem_of_getElem? hd) r hwork,
    Binding.isValid_of_requestFault?_eq_none hfault hask⟩

end SeriesQuery
