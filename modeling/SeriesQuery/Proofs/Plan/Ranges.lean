import SeriesQuery.Proofs.Plan.Acceptance

/-!
# Ranges of requests

A select that writes no range gets the one written last before it.  What is made of its
request later keeps that range: folding a function into the request and copying the
request change neither end, and the range that later selects write is not looked at.  So
every request of a plan has the range of one select, the one that its stage comes from,
and all times of a statement count back from one present.

## Main results

* `Binds.request_kept`, `Binds.request_new`: a stage adds functions to earlier requests
  at most, and what it stands for is the request of a select or such a request with
  functions added.
* `Carried.step`: one more stage keeps every request that of the select that it comes
  from.
* `Statement.ranges_carry`: the same of the requests of a plan.
-/

namespace SeriesQuery

open SeriesQuery.Backend
open SeriesQuery.Time (Instant)

/-- The range of a request. -/
def Backend.Request.range (r : Request) : Range := ⟨r.start, r.stop⟩

namespace Stages

variable {now : Instant} {ss : List Stage} {range : Range}

/-- The select that a stage comes from when it means a request: a select comes from
itself, a function of the backend over a single stage from what that stage comes
from. -/
inductive ComesFrom (ss : List Stage) : Nat → Nat → Prop
  | select {k : Nat} {s : Stage} {x : Select} :
      ss[k]? = some s → s.body = .select x → ComesFrom ss k k
  | function {k j o : Nat} {s : Stage} {a : Aggregation} :
      ss[k]? = some s → s.body = .aggregate a → isBackendFunction a.name = true →
      reads ss k = [j] → ComesFrom ss j o → ComesFrom ss k o

/-- The range that the stage at `k` writes. -/
def spanAt? (ss : List Stage) (k : Nat) : Option Span := ss[k]?.bind Stage.span?

/-- The range in force at the stage `o`: that of the last stage, up to `o`, that writes
one, from its start to its end or to the present; or else the last two hours. -/
inductive RangeAt (now : Instant) (ss : List Stage) (o : Nat) : Range → Prop
  | written {k : Nat} {span : Span} {range : Range} :
      k ≤ o → spanAt? ss k = some span → (∀ l, k < l → l ≤ o → spanAt? ss l = none) →
      span.start.resolve now = .ok range.start →
      (∀ stop, span.stop = some stop → stop.resolve now = .ok range.stop) →
      (span.stop = none → range.stop = now) → RangeAt now ss o range
  | unwritten : (∀ l, l ≤ o → spanAt? ss l = none) →
      RangeAt now ss o ⟨now.minusSeconds 7200, now⟩

/-! ## The select that a stage comes from -/

private theorem ComesFrom.isRequest {k o : Nat} (h : ComesFrom ss k o) :
    IsRequest ss k := by
  induction h with
  | select hs hx => exact .select hs hx
  | function hs ha hname hreads _ ih => exact .function hs ha hname hreads ih

/-- A stage comes from one select only. -/
theorem ComesFrom.unique {k o o' : Nat} (h : ComesFrom ss k o)
    (h' : ComesFrom ss k o') : o = o' := by
  induction h with
  | select hs hx =>
      cases h' with
      | select => rfl
      | function hs' ha =>
          rw [hs, Option.some.injEq] at hs'
          rw [← hs', hx] at ha
          cases ha
  | function hs ha hname hreads _ ih =>
      cases h' with
      | select hs' hx =>
          rw [hs, Option.some.injEq] at hs'
          rw [← hs', ha] at hx
          cases hx
      | function hs' ha' hname' hreads' hj =>
          rw [hreads, List.cons.injEq] at hreads'
          exact ih (hreads'.1 ▸ hj)

/-! ## The range in force -/

/-- A stage that writes no range leaves the range in force as it was. -/
theorem RangeAt.succ {o : Nat} (h : RangeAt now ss o range)
    (hnone : spanAt? ss (o + 1) = none) : RangeAt now ss (o + 1) range := by
  cases h with
  | written hk hspan hlast hstart hstop hpresent =>
      refine .written (Nat.le_succ_of_le hk) hspan (fun l hl hlo => ?_) hstart
        hstop hpresent
      rcases Nat.le_succ_iff.1 hlo with hlo | rfl
      · exact hlast l hl hlo
      · exact hnone
  | unwritten hall =>
      refine .unwritten fun l hlo => ?_
      rcases Nat.le_succ_iff.1 hlo with hlo | rfl
      · exact hall l hlo
      · exact hnone

/-- A stage that writes a range puts it in force. -/
theorem RangeAt.here {o : Nat} {span : Span} (hspan : spanAt? ss o = some span)
    (hrange : span.range? now = some range) : RangeAt now ss o range := by
  unfold Span.range? at hrange
  split at hrange
  · rename_i start stop hstart hstop
    cases hrange
    refine .written (Nat.le_refl o) hspan (fun l hl hlo => ?_) hstart (fun m hm => ?_)
      fun hnone => ?_
    · exact absurd hlo (Nat.not_le.2 hl)
    · rwa [hm] at hstop
    · rw [hnone] at hstop
      exact (Except.ok.inj hstop).symm
  · cases hrange

/-- One range is in force at a stage. -/
theorem RangeAt.unique {o : Nat} {range' : Range} (h : RangeAt now ss o range)
    (h' : RangeAt now ss o range') : range = range' := by
  cases h with
  | @written k span _ hk hspan hlast hstart hstop hpresent =>
      cases h' with
      | @written k' span' _ hk' hspan' hlast' hstart' hstop' hpresent' =>
          have hkk : k = k' := by
            rcases Nat.lt_trichotomy k k' with hlt | heq | hlt
            · rw [hlast k' hlt hk'] at hspan'
              cases hspan'
            · exact heq
            · rw [hlast' k hlt hk] at hspan
              cases hspan
          subst hkk
          rw [hspan, Option.some.injEq] at hspan'
          subst hspan'
          have hstarts : range.start = range'.start :=
            Except.ok.inj (hstart.symm.trans hstart')
          have hstops : range.stop = range'.stop := by
            cases hm : span.stop with
            | none => rw [hpresent hm, hpresent' hm]
            | some m => exact Except.ok.inj ((hstop m hm).symm.trans (hstop' m hm))
          cases range
          cases range'
          rw [Range.mk.injEq]
          exact ⟨hstarts, hstops⟩
      | unwritten hall =>
          rw [hall k hk] at hspan
          cases hspan
  | unwritten hall =>
      cases h' with
      | written hk hspan =>
          rw [hall _ hk] at hspan
          cases hspan
      | unwritten => rfl

/-- The range that is found by going back from a stage is in force there. -/
theorem rangeAt_of_rangeAfter? {o : Nat} (ho : o < ss.length) :
    ∀ {range : Range}, rangeAfter? now (ss.take (o + 1)) = some range →
      RangeAt now ss o range := by
  induction o with
  | zero =>
      intro range h
      have hs := List.getElem?_eq_getElem ho
      have hspan : spanAt? ss 0 = ss[0].span? := by rw [spanAt?, hs, Option.bind_some]
      rw [rangeAfter?_succ hs] at h
      cases hwritten : ss[0].span? with
      | some span =>
          rw [hwritten] at h hspan
          exact .here hspan h
      | none =>
          rw [hwritten] at h hspan
          cases h
          refine .unwritten fun l hl => ?_
          rw [Nat.le_zero.1 hl, hspan]
  | succ o ih =>
      intro range h
      have hs := List.getElem?_eq_getElem ho
      have hspan : spanAt? ss (o + 1) = ss[o + 1].span? := by
        rw [spanAt?, hs, Option.bind_some]
      rw [rangeAfter?_succ hs] at h
      cases hwritten : ss[o + 1].span? with
      | some span =>
          rw [hwritten] at h hspan
          exact .here hspan h
      | none =>
          rw [hwritten] at h hspan
          exact (ih (Nat.lt_of_succ_lt ho) h).succ hspan

end Stages

namespace Binding

open Stages

variable {combiners : Combiners} {now : Instant} {b b' : Binding} {s : Stage}
  {ss : List Stage} {n : Nat} {places : List Nat}

/-! ## Functions put over a request -/

/-- A request with functions of the backend added to it, one after the other. -/
def Adds (r₀ r : Request) : Prop := ∃ fs : List Aggregator, r = fs.foldl aggregated r₀

private theorem Adds.refl (r : Request) : Adds r r := ⟨[], rfl⟩

private theorem Adds.one (r : Request) (f : Aggregator) :
    Adds r (aggregated r f) := ⟨[f], rfl⟩

private theorem Adds.trans {r₀ r₁ r₂ : Request} (h : Adds r₀ r₁) (h' : Adds r₁ r₂) :
    Adds r₀ r₂ := by
  obtain ⟨fs, rfl⟩ := h
  obtain ⟨gs, rfl⟩ := h'
  exact ⟨fs ++ gs, (List.foldl_append ..).symm⟩

/-- What no function changes is as it was. -/
theorem Adds.eq_of {α : Type} {f : Request → α} (hf : ∀ r a, f (aggregated r a) = f r)
    {r₀ r : Request} (h : Adds r₀ r) : f r = f r₀ := by
  obtain ⟨fs, rfl⟩ := h
  induction fs generalizing r₀ with
  | nil => rfl
  | cons a fs ih => exact ih.trans (hf r₀ a)

private theorem Adds.range_eq {r₀ r : Request} (h : Adds r₀ r) : r.range = r₀.range :=
  h.eq_of fun _ _ => rfl

/-! ## One stage -/

/-- Where an earlier place holds a request, it held one before to which functions may
have been added. -/
theorem Binds.request_kept (h : Binds combiners now b s b') {i : Nat} {r : Request}
    (hi : i < b.nodes.length) (hr : b'.work? i = some (.ask r)) :
    ∃ r₀, b.work? i = some (.ask r₀) ∧ Adds r₀ r := by
  obtain ⟨d', hd', hask'⟩ := Option.map_eq_some_iff.1 hr
  have hd := List.getElem?_eq_getElem hi
  have hwork : b.work? i = some b.nodes[i].work := by rw [work?, hd, Option.map_some]
  rcases h.node_kept hd with hkept | ⟨r₀, f, hask, -, -, hfolded⟩
  · rw [hkept, Option.some.injEq] at hd'
    subst hd'
    exact ⟨r, by rw [hwork, hask'], .refl r⟩
  · rw [hfolded, Option.some.injEq] at hd'
    subst hd'
    cases hask'
    exact ⟨r₀, by rw [hwork, hask], .one r₀ f⟩

/-- Where a stage stands for a request, it is a select over the range now in force, or a
function over a single request. -/
theorem Binds.request_new (h : Binds combiners now b s b') {i : Nat} {r : Request}
    (hi : b'.previous = some i) (hr : b'.work? i = some (.ask r)) :
    (∃ x, s.body = .select x ∧ r = requestOf x b'.range) ∨
      ∃ a j r₀, s.body = .aggregate a ∧ isBackendFunction a.name = true ∧
        b.sources a s.position = .ok [j] ∧ b.work? j = some (.ask r₀) ∧ Adds r₀ r := by
  cases h with
  | request x range hbody hrange =>
      cases hi
      have hnew := (work?_grow_last (b := { b with range := range })).symm.trans hr
      cases hnew
      exact Or.inl ⟨x, hbody, rfl⟩
  | folded a d j r₀ hbody hname hsrc hwork hd hread =>
      cases hi
      have hlt : i < (b.warn d.warnings).nodes.length := lt_of_work? hwork
      rw [work?_fold_self hlt] at hr
      cases hr
      exact Or.inr ⟨a, i, r₀, hbody, hname, hsrc, hwork, .one r₀ d.value⟩
  | copied a d j r₀ hbody hname hsrc hwork hd hread =>
      cases hi
      have hnew := (work?_grow_last (b := b.warn d.warnings)).symm.trans hr
      cases hnew
      exact Or.inr ⟨a, j, r₀, hbody, hname, hsrc, hwork, .one r₀ d.value⟩
  | combined a d inputs hbody hsrc hnone hd =>
      cases hi
      have hnew := (work?_grow_last (b := b.warn d.warnings)).symm.trans hr
      cases hnew

/-- A place is an earlier one, or it is that of the stage. -/
theorem Binds.place_cases (h : Binds combiners now b s b') {i : Nat}
    (hi : i < b'.nodes.length) : i < b.nodes.length ∨ b'.previous = some i := by
  have hgrow : ∀ {c : Binding} {work : Work} {inputs : List Nat},
      i < (c.grow s work inputs).nodes.length →
      i < c.nodes.length ∨ (c.grow s work inputs).previous = some i := by
    intro c work inputs hlt
    rw [length_grow] at hlt
    rcases Nat.lt_succ_iff_lt_or_eq.1 hlt with hlt | rfl
    · exact Or.inl hlt
    · exact Or.inr rfl
  cases h with
  | request x range hbody hrange => exact hgrow (c := { b with range := range }) hi
  | folded a d j r hbody hname hsrc hwork hd hread =>
      rw [length_fold] at hi
      exact Or.inl hi
  | copied a d j r hbody hname hsrc hwork hd hread =>
      exact hgrow (c := b.warn d.warnings) hi
  | combined a d inputs hbody hsrc hnone hd => exact hgrow (c := b.warn d.warnings) hi

/-! ## All stages -/

/-- Where the stage at `k` stands when it has been bound. -/
def standsAt? (combiners : Combiners) (now : Instant) (ss : List Stage)
    (k : Nat) : Option Nat :=
  match bindStages combiners now (ss.take (k + 1)) with
  | .ok b => b.previous
  | .error _ => none

/-- The select of the stage at `o`. -/
def selectAt? (ss : List Stage) (o : Nat) : Option Select :=
  match ss[o]?.map Stage.body with
  | some (.select x) => some x
  | _ => none

/-- The request of a select over the range in force there, with functions added to
it. -/
def Written (now : Instant) (ss : List Stage) (o : Nat) (r : Request) : Prop :=
  ∃ x range,
    selectAt? ss o = some x ∧ RangeAt now ss o range ∧ Adds (requestOf x range) r

/-- Every place is that of some stage, and every request is that of the select that its
stage comes from, over the range that was in force there. -/
structure Carried (now : Instant) (ss : List Stage) (n : Nat) (b : Binding)
    (places : List Nat) :
    Prop extends Placed ss n b places where
  range : rangeAfter? now (ss.take n) = some b.range
  written :
    ∀ (j i : Nat) (r : Request), places[j]? = some i → b.work? i = some (.ask r) →
    ∃ o, ComesFrom ss j o ∧ Written now ss o r
  filled : ∀ i : Nat, i < b.nodes.length → ∃ j : Nat, places[j]? = some i

private theorem Written.rangeAt {o : Nat} {r : Request} (h : Written now ss o r) :
    RangeAt now ss o r.range := by
  obtain ⟨x, range, -, hat, hadds⟩ := h
  rw [hadds.range_eq]
  exact hat

private theorem carried_start (ss : List Stage) (now : Instant) :
    Carried now ss 0 (start now) [] where
  toPlaced := placed_start ss now
  range := rfl
  written := by simp
  filled := by simp [start]

/-- A request to which more functions are added. -/
theorem Written.add {o : Nat} {r₀ r : Request} (h : Written now ss o r₀)
    (hadds : Adds r₀ r) : Written now ss o r := by
  obtain ⟨x, range, hx, hat, hadds₀⟩ := h
  exact ⟨x, range, hx, hat, hadds₀.trans hadds⟩

/-- **Step.**  One more stage gets a place, and all requests stay those of the selects
that they come from. -/
theorem Carried.step (h : Carried now ss n b places) (hs : ss[n]? = some s)
    (hnew : ∀ m, s.binding = some m → b.find? m = none)
    (hb : Binds combiners now b s b') :
    ∃ i, b'.previous = some i ∧ Carried now ss (n + 1) b' (places ++ [i]) := by
  obtain ⟨i, hi, hplaced⟩ := h.toPlaced.step hs hnew hb
  have hrange := hb.rangeAfter? hs h.range
  refine ⟨i, hi, hplaced, hrange, ?_, ?_⟩
  · intro j k r hj hr
    rcases getElem?_concat_cases hj with ⟨-, hj⟩ | ⟨rfl, rfl⟩
    · obtain ⟨r₀, hr₀, hadds⟩ := hb.request_kept (h.below j k hj) hr
      obtain ⟨o, ho, hwritten⟩ := h.written j k r₀ hj hr₀
      exact ⟨o, ho, hwritten.add hadds⟩
    · rw [h.placed]
      rcases hb.request_new hi hr with ⟨x, hbody, rfl⟩ |
        ⟨a, m, r₀, ha, hname, hsrc, hr₀, hadds⟩
      · have hlt := (List.getElem?_eq_some_iff.1 hs).1
        have hx : selectAt? ss n = some x := by
          simp only [selectAt?, hs, Option.map_some, hbody]
        exact ⟨n, .select hs hbody, x, _, hx,
          rangeAt_of_rangeAfter? hlt hrange, .refl _⟩
      · obtain ⟨l, hreads, hplace⟩ := h.single_source hs ha hsrc
        obtain ⟨o, ho, hwritten⟩ := h.written l m r₀ hplace hr₀
        exact ⟨o, .function hs ha hname hreads ho, hwritten.add hadds⟩
  · intro k hk
    rcases hb.place_cases hk with hk | hk
    · obtain ⟨j, hj⟩ := h.filled k hk
      have hlt := (List.getElem?_eq_some_iff.1 hj).1
      exact ⟨j, by rw [List.getElem?_append_left hlt, hj]⟩
    · rw [hi, Option.some.injEq] at hk
      exact ⟨places.length, by rw [List.getElem?_concat_length, hk]⟩

/-- **Run.**  The stages that are bound stand where they stood at first, and all
requests are those of the selects that they come from. -/
theorem carried_bindStages (hn : n ≤ ss.length) :
    ∀ {b : Binding}, bindStages combiners now (ss.take n) = .ok b →
      ∃ places, Carried now ss n b places ∧
        ∀ k, k < n → places[k]? = standsAt? combiners now ss k := by
  induction n with
  | zero =>
      intro b hb
      cases hb
      exact ⟨[], carried_start ss now, fun k hk => absurd hk (Nat.not_lt_zero k)⟩
  | succ n ih =>
      intro b' hb'
      have hs : ss[n]? = some ss[n] := List.getElem?_eq_getElem hn
      have hprefix := hb'
      rw [bindStages_take_succ hs] at hb'
      obtain ⟨b, hb, hstage⟩ := Fallible.bind_eq_ok_iff.1 hb'
      obtain ⟨hnew, hbinds⟩ := bindStage_binds hstage
      obtain ⟨places, hcarried, hstands⟩ := ih (Nat.le_of_succ_le hn) hb
      obtain ⟨i, hi, hnext⟩ := hcarried.step hs hnew hbinds
      refine ⟨places ++ [i], hnext, fun k hk => ?_⟩
      rcases Nat.lt_succ_iff_lt_or_eq.1 hk with hk | rfl
      · rw [List.getElem?_append_left (by rwa [hcarried.placed]), hstands k hk]
      · have hlast : standsAt? combiners now ss k = some i := by
          simp only [standsAt?, hprefix, hi]
        rw [hlast, ← hcarried.placed, List.getElem?_concat_length]

/-- Stages that are bound were bound one by one. -/
theorem exists_bindStages_take (h : bindStages combiners now ss = .ok b) (n : Nat) :
    ∃ c, bindStages combiners now (ss.take n) = .ok c := by
  rw [← List.take_append_drop n ss] at h
  obtain ⟨c, hc, -⟩ := bindStages_append_ok h
  exact ⟨c, hc⟩

/-- A stage that comes from a select stands for its request, with functions added, at
any time after it has been bound. -/
theorem written_of_comesFrom {k o : Nat} (hn : n ≤ ss.length) (hk : k < n)
    (hb : bindStages combiners now (ss.take n) = .ok b) (hfrom : ComesFrom ss k o) :
    ∃ i r, standsAt? combiners now ss k = some i ∧ b.work? i = some (.ask r) ∧
      Written now ss o r := by
  obtain ⟨places, hcarried, hstands⟩ := carried_bindStages hn hb
  have hlt : k < places.length := by rwa [hcarried.placed]
  have hi : places[k]? = some places[k] := List.getElem?_eq_getElem hlt
  obtain ⟨r, hr⟩ := (hcarried.request k _ hi).1 hfrom.isRequest
  obtain ⟨o', hfrom', hwritten⟩ := hcarried.written k _ r hi hr
  rw [hfrom'.unique hfrom] at hwritten
  exact ⟨_, r, by rw [← hstands k hk, hi], hr, hwritten⟩

/-- A stage that comes from a select stands for a request over the range in force there,
at any time after it has been bound. -/
theorem request_of_comesFrom {k o : Nat} (hn : n ≤ ss.length) (hk : k < n)
    (hb : bindStages combiners now (ss.take n) = .ok b) (hfrom : ComesFrom ss k o) :
    ∃ i r, standsAt? combiners now ss k = some i ∧ b.work? i = some (.ask r) ∧
      RangeAt now ss o r.range := by
  obtain ⟨i, r, hi, hr, hwritten⟩ := written_of_comesFrom hn hk hb hfrom
  exact ⟨i, r, hi, hr, hwritten.rangeAt⟩

/-- Every request of a plan is that of a stage that comes from a select. -/
theorem written_of_plan {s : Statement} {p : Plan} {m : Node} {r : Request}
    (h : s.plan combiners now = .ok p) (hm : p.terminal.Reaches m)
    (hr : m.work = .ask r) :
    ∃ k o, standsAt? combiners now s.stages k = some m.id ∧ ComesFrom s.stages k o ∧
      Written now s.stages o r := by
  obtain ⟨b, l, hb, -, hterminal, -, -⟩ := plan_eq_ok h
  have hordered := ordered_bindStages hb
  obtain ⟨d, hd, heq⟩ :=
    exists_of_finished hordered (finished_of_reaches hordered hm hterminal)
  have hwork : b.work? m.id = some (.ask r) := by
    rw [work?, hd, Option.map_some, ← hr, heq, Node.work]
  rw [← s.stages.take_length] at hb
  obtain ⟨places, hcarried, hstands⟩ := carried_bindStages (Nat.le_refl _) hb
  obtain ⟨k, hk⟩ := hcarried.filled m.id (lt_of_work? hwork)
  obtain ⟨o, hfrom, hwritten⟩ := hcarried.written k m.id r hk hwork
  have hlt := (List.getElem?_eq_some_iff.1 hk).1
  rw [hcarried.placed] at hlt
  exact ⟨k, o, by rw [← hstands k hlt, hk], hfrom, hwritten⟩

end Binding

open Binding Stages

/-- **Ranges carry forward.**  In a statement that has a plan, a stage that comes from a
select, as the select itself or through any functions over it, stands for a request over
the range in force at that select, from when it is bound until all stages are bound.
And every request of the plan is that of such a stage. -/
theorem Statement.ranges_carry {combiners : Combiners} {now : Instant} {s : Statement}
    {p : Plan} (h : s.plan combiners now = .ok p) :
    (∀ k o, ComesFrom s.stages k o → ∃ i range,
      standsAt? combiners now s.stages k = some i ∧
      RangeAt now s.stages o range ∧ ∀ n, k < n → n ≤ s.stages.length → ∃ b r,
        bindStages combiners now (s.stages.take n) = .ok b ∧ b.work? i = some (.ask r) ∧
          r.range = range) ∧
      ∀ n r, p.terminal.Reaches n → n.work = .ask r → ∃ k o,
        standsAt? combiners now s.stages k = some n.id ∧ ComesFrom s.stages k o ∧
          RangeAt now s.stages o r.range := by
  obtain ⟨b, l, hb, -, hterminal, -, -⟩ := plan_eq_ok h
  constructor
  · intro k o hfrom
    have hk : k < s.stages.length := by
      cases hfrom with
      | select hs => exact (List.getElem?_eq_some_iff.1 hs).1
      | function hs => exact (List.getElem?_eq_some_iff.1 hs).1
    obtain ⟨c, hc⟩ := exists_bindStages_take hb (k + 1)
    obtain ⟨i, r, hstands, -, hat⟩ :=
      request_of_comesFrom hk (Nat.lt_succ_self k) hc hfrom
    refine ⟨i, r.range, hstands, hat, fun n hkn hn => ?_⟩
    obtain ⟨c', hc'⟩ := exists_bindStages_take hb n
    obtain ⟨i', r', hstands', hr', hat'⟩ := request_of_comesFrom hn hkn hc' hfrom
    rw [hstands, Option.some.injEq] at hstands'
    exact ⟨c', r', hc', by rw [hstands', hr'], hat'.unique hat⟩
  · intro n r hn hr
    obtain ⟨k, o, hstands, hfrom, hwritten⟩ := written_of_plan h hn hr
    exact ⟨k, o, hstands, hfrom, hwritten.rangeAt⟩

/-- `a = select cpu from 2 h ago to 1 h ago; u = union(of a); select mem from 30 m ago;
m = max(of a); n = min(of m); union(of (u, n))`. -/
def minOfCopy : List Stage :=
  [⟨some "a", .select ⟨"cpu", some ⟨.ago 2 .hour, some (.ago 1 .hour)⟩, [], []⟩,
    ⟨1, 1⟩⟩, ⟨some "u", .aggregate ⟨"union", some ["a"], []⟩, ⟨1, 41⟩⟩,
    ⟨none, .select ⟨"mem", some ⟨.ago 30 .minute, none⟩, [], []⟩, ⟨1, 58⟩⟩,
    ⟨some "m", .aggregate ⟨"max", some ["a"], []⟩, ⟨1, 84⟩⟩,
    ⟨some "n", .aggregate ⟨"min", some ["m"], []⟩, ⟨1, 99⟩⟩,
    ⟨none, .aggregate ⟨"union", some ["u", "n"], []⟩, ⟨1, 114⟩⟩]

/-- The function put over a copy of the first request keeps that request's range,
although another range has been written since. -/
theorem Statement.ranges_carry_copied :
    ∃ p b r, Statement.plan .standard ⟨10000, 0⟩ ⟨minOfCopy⟩ = .ok p ∧
      standsAt? .standard ⟨10000, 0⟩ minOfCopy 4 = some 3 ∧
      bindStages .standard ⟨10000, 0⟩ minOfCopy = .ok b ∧ b.work? 3 = some (.ask r) ∧
      r.range = ⟨⟨2800, 0⟩, ⟨6400, 0⟩⟩ := by
  have hplan : Statement.plan .standard ⟨10000, 0⟩ ⟨minOfCopy⟩ = .ok _ := rfl
  have hselect : ComesFrom minOfCopy 0 0 := .select rfl rfl
  have hmax : ComesFrom minOfCopy 3 0 := .function rfl rfl rfl rfl hselect
  have hmin : ComesFrom minOfCopy 4 0 := .function rfl rfl rfl rfl hmax
  have hrange : RangeAt ⟨10000, 0⟩ minOfCopy 0 ⟨⟨2800, 0⟩, ⟨6400, 0⟩⟩ := .here rfl rfl
  have hstands : standsAt? .standard ⟨10000, 0⟩ minOfCopy 4 = some 3 := rfl
  obtain ⟨i, range, hi, hat, hkept⟩ := (Statement.ranges_carry hplan).1 4 0 hmin
  obtain ⟨b, r, hb, hr, hsame⟩ := hkept 6 (by decide) (Nat.le_refl _)
  rw [hstands, Option.some.injEq] at hi
  subst hi
  exact ⟨_, b, r, hplan, hstands, hb, hr, hsame.trans (hat.unique hrange)⟩

end SeriesQuery
