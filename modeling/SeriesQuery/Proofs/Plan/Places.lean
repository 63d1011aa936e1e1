import SeriesQuery.Plan.Rules
import SeriesQuery.Proofs.Plan.Step

/-!
# Where stages stand

Binding gives every stage of a statement a place in the plan under construction, and
several stages may get the same one.  What the statement says of a stage, the names of
the stages before it and the places of those it reads, is what the plan knows of these
places.  Whether a place holds a request does not change any more, since folding puts a
request in the place of a request; so it is decided by what is written.

## Main results

* `Located.names_next`, `Located.reads_places`: names and sources lead to the places of
  stages.
* `Placed.step`: one more stage gets a place, which holds a request just if the stage
  means one.
* `placed_bindStages`: the stages that are bound have their places.
-/

namespace SeriesQuery

open SeriesQuery.Backend
open SeriesQuery.Time (Instant)

namespace Stages

variable {ss : List Stage}

/-! ## What a statement says -/

theorem take_succ {n : Nat} {s : Stage} (hs : ss[n]? = some s) :
    ss.take (n + 1) = ss.take n ++ [s] := by
  rw [List.take_add_one, hs]
  rfl

theorem place?_lt {earlier : List Stage} {name : String} {j : Nat}
    (h : place? earlier name = some j) : j < earlier.length := by
  obtain ⟨hj, -⟩ := List.findIdx?_eq_some_iff_getElem.1 h
  exact hj

private theorem place?_concat (earlier : List Stage) (s : Stage) (name : String) :
    place? (earlier ++ [s]) name =
      (place? earlier name).or
      (if s.binding = some name then some earlier.length else none) := by
  unfold place?
  rw [List.findIdx?_append]
  by_cases h : s.binding = some name <;> simp [List.findIdx?_cons, h]

theorem place?_eq_none {earlier : List Stage} {name : String} :
    place? earlier name = none ↔ name ∉ bound earlier := by
  unfold place? bound
  rw [List.findIdx?_eq_none_iff, List.mem_filterMap]
  simp

private theorem reads_named {n : Nat} {s : Stage} {a : Aggregation}
    {names : List String} (hs : ss[n]? = some s) (ha : s.body = .aggregate a)
    (hnames : a.sources = some names) :
    reads ss n = names.filterMap (place? (ss.take n)) := by
  simp only [reads, hs, Option.map_some, ha, hnames]

private theorem reads_last {n : Nat} {s : Stage} {a : Aggregation}
    (hs : ss[n]? = some s) (ha : s.body = .aggregate a) (hnames : a.sources = none)
    (hn : n ≠ 0) :
    reads ss n = [n - 1] := by
  simp only [reads, hs, Option.map_some, ha, hnames, if_neg hn]

/-- A stage reads earlier stages. -/
theorem lt_of_mem_reads {n j : Nat} (h : j ∈ reads ss n) : j < n := by
  unfold reads at h
  split at h
  · split at h
    · obtain ⟨name, -, hj⟩ := List.mem_filterMap.1 h
      have hlt := place?_lt hj
      rw [List.length_take] at hlt
      omega
    · split at h
      · cases h
      · rw [List.mem_singleton] at h
        omega
  · cases h

/-- An aggregation is folded when it is a function of the backend over a single stage
that means a request. -/
theorem folds_iff {n : Nat} {s : Stage} {a : Aggregation} (hs : ss[n]? = some s)
    (ha : s.body = .aggregate a) :
    Folds ss n ↔
      isBackendFunction a.name = true ∧ ∃ j, reads ss n = [j] ∧ IsRequest ss j := by
  constructor
  · rintro ⟨j, s', a', hs', ha', hname, hreads, hj⟩
    rw [hs, Option.some.injEq] at hs'
    subst hs'
    rw [ha, StageBody.aggregate.injEq] at ha'
    subst ha'
    exact ⟨hname, j, hreads, hj⟩
  · rintro ⟨hname, j, hreads, hj⟩
    exact ⟨j, s, a, hs, ha, hname, hreads, hj⟩

end Stages

namespace Binding

open Stages

variable {combiners : Combiners} {now : Instant} {b b' : Binding} {s : Stage}

/-! ## Requests as they are written -/

/-- A select stage is bound to what it asks. -/
theorem requestOf_eq (x : Select) (range : Range) :
    requestOf x range = x.asks range := by
  rw [requestOf, metricOf, Select.asks]

/-- A function that is folded into a request comes last for each of its metrics. -/
theorem aggregated_eq (r : Request) (a : Aggregator) :
    aggregated r a = r.followedBy a := by
  rw [aggregated, Backend.Request.followedBy]

theorem resolveSpan_eq_ok {p : Position} {span : Span} {range : Range} :
    resolveSpan now p span = .ok range ↔ span.range? now = some range := by
  unfold resolveSpan resolve Span.range?
  cases hstart : span.start.resolve now with
  | error e => exact ⟨fun h => (nomatch h), fun h => (nomatch h)⟩
  | ok start =>
      cases hstop : (span.stop.getD .now).resolve now with
      | error e => exact ⟨fun h => (nomatch h), fun h => (nomatch h)⟩
      | ok stop =>
          show Except.ok ⟨start, stop⟩ = Except.ok range ↔
              some ⟨start, stop⟩ = some range
          rw [Except.ok.injEq, Option.some.injEq]

/-- The range that a select stage is bound to is the one that it means. -/
theorem rangeAfter_eq_ok {p : Position} {x : Select} {last range : Range} :
    rangeAfter now last x p = .ok range ↔ x.range? now last = some range := by
  unfold rangeAfter Select.range?
  cases x.span with
  | none =>
      show Except.ok last = Except.ok range ↔ some last = some range
      rw [Except.ok.injEq, Option.some.injEq]
  | some span => exact resolveSpan_eq_ok

/-! ## Names and sources -/

/-- From the first `n` stages of a statement: where they stand, told by their names and
by which of them is the last. -/
structure Located (ss : List Stage) (n : Nat) (b : Binding)
    (places : List Nat) : Prop where
  placed : places.length = n
  names : ∀ name, b.find? name = (place? (ss.take n) name).bind fun j => places[j]?
  previous : b.previous = places.getLast?

variable {ss : List Stage} {n : Nat} {places : List Nat}

private theorem find?_namesWith_eq (i : Nat) (name : String) :
    ((b.namesWith s i).find? fun e => e.1 == name).map (·.2) =
      if s.binding = some name then some i else b.find? name := by
  cases hs : s.binding with
  | none => simp [namesWith, hs, find?]
  | some m =>
      by_cases hm : m = name <;> simp [namesWith, hs, find?, hm]

/-- Names go on to agree with the places of stages. -/
theorem Located.names_next (h : Located ss n b places) (hs : ss[n]? = some s)
    (hnew : ∀ m, s.binding = some m → b.find? m = none) (i : Nat) (name : String) :
    ((b.namesWith s i).find? fun e => e.1 == name).map (·.2) =
      (place? (ss.take (n + 1)) name).bind fun j => (places ++ [i])[j]? := by
  have hn : n < ss.length := (List.getElem?_eq_some_iff.1 hs).1
  have hlen : (ss.take n).length = n := by
    rw [List.length_take]
    omega
  have hold :
      ∀ j, place? (ss.take n) name = some j → (places ++ [i])[j]? = places[j]? := by
    intro j hj
    have hlt := place?_lt hj
    rw [List.getElem?_append_left (by rw [h.placed]; omega)]
  rw [find?_namesWith_eq, take_succ hs, place?_concat, hlen, h.names]
  cases hp : place? (ss.take n) name with
  | none =>
      by_cases hname : s.binding = some name
      · simp [hname, ← h.placed]
      · simp [hname]
  | some j =>
      have hj := hold j hp
      have hne : s.binding ≠ some name := by
        intro hname
        have hnone := hnew name hname
        have hlt := place?_lt hp
        rw [h.names, hp, Option.bind_some, List.getElem?_eq_none_iff, h.placed] at hnone
        omega
      simp [hne, hj]

private theorem map_filterMap_eq {α β γ : Type} {f : α → Option β} {k : β → Option γ} :
    ∀ {xs : List α} {ys : List γ}, (xs.map fun x => (f x).bind k) = ys.map some →
      (xs.filterMap f).map k = ys.map some := by
  intro xs
  induction xs with
  | nil =>
      intro ys h
      simpa using h
  | cons x xs ih =>
      intro ys h
      cases ys with
      | nil => simp at h
      | cons y ys =>
          simp only [List.map_cons, List.cons.injEq] at h
          obtain ⟨hx, hxs⟩ := h
          obtain ⟨z, hz, hy⟩ := Option.bind_eq_some_iff.1 hx
          rw [List.filterMap_cons, hz, List.map_cons, hy, ih hxs, List.map_cons]

/-- The stages that an aggregation reads stand in the places that it is bound to. -/
theorem Located.named_places (h : Located ss n b places) (hs : ss[n]? = some s)
    {a : Aggregation} (ha : s.body = .aggregate a) {p : Position} {found : List Nat}
    (hfound : b.named a p = .ok found) :
    ((reads ss n).map fun j => places[j]?) = found.map some := by
  obtain ⟨hnamed, hlast⟩ := named_eq_ok hfound
  cases hsources : a.sources with
  | some names =>
      rw [reads_named hs ha hsources]
      apply map_filterMap_eq
      rw [← hnamed names hsources]
      exact List.map_congr_left fun name _ => (h.names name).symm
  | none =>
      rw [hlast hsources, h.previous, List.getLast?_eq_getElem?, h.placed]
      by_cases hn : n = 0
      · have hnil : places = [] := List.eq_nil_of_length_eq_zero (by rw [h.placed, hn])
        have hreads : reads ss n = [] := by
          simp only [reads, hs, Option.map_some, ha, hsources, if_pos hn]
        rw [hreads, hnil]
        rfl
      · have hlt : n - 1 < places.length := by
          rw [h.placed]
          omega
        rw [reads_last hs ha hsources hn, List.getElem?_eq_getElem hlt]
        simp

/-- The same for an aggregation that reads some stage. -/
theorem Located.reads_places (h : Located ss n b places) (hs : ss[n]? = some s)
    {a : Aggregation} (ha : s.body = .aggregate a) {p : Position} {inputs : List Nat}
    (hsrc : b.sources a p = .ok inputs) :
    ((reads ss n).map fun j => places[j]?) = inputs.map some :=
  h.named_places hs ha (sources_eq_ok_iff.1 hsrc).1

/-- A single source stands in the single place that an aggregation is bound to. -/
theorem Located.single_source (h : Located ss n b places) (hs : ss[n]? = some s)
    {a : Aggregation} (ha : s.body = .aggregate a) {p : Position} {i : Nat}
    (hsrc : b.sources a p = .ok [i]) : ∃ j, reads ss n = [j] ∧ places[j]? = some i := by
  have hreads := h.reads_places hs ha hsrc
  cases hr : reads ss n with
  | nil =>
      rw [hr] at hreads
      cases hreads
  | cons j js =>
      rw [hr, List.map_cons, List.map_singleton, List.cons.injEq,
        List.map_eq_nil_iff] at hreads
      obtain ⟨hj, rfl⟩ := hreads
      exact ⟨j, rfl, hj⟩

/-! ## Places of requests -/

/-- Stages that are bound have places in the plan under construction, and such a place
holds a request just if the stage means one. -/
structure Placed (ss : List Stage) (n : Nat) (b : Binding) (places : List Nat) : Prop
    extends Located ss n b places where
  below : ∀ (j i : Nat), places[j]? = some i → i < b.nodes.length
  request : ∀ (j i : Nat), places[j]? = some i →
    (IsRequest ss j ↔ ∃ r, b.work? i = some (.ask r))

theorem getElem?_concat_cases {α : Type} {xs : List α} {x y : α} {j : Nat}
    (h : (xs ++ [x])[j]? = some y) :
    (j < xs.length ∧ xs[j]? = some y) ∨ (j = xs.length ∧ y = x) := by
  rcases Nat.lt_trichotomy j xs.length with hj | hj | hj
  · rw [List.getElem?_append_left hj] at h
    exact Or.inl ⟨hj, h⟩
  · subst hj
    rw [List.getElem?_concat_length] at h
    exact Or.inr ⟨rfl, (Option.some.inj h).symm⟩
  · rw [List.getElem?_eq_none
      (by rw [List.length_append, List.length_singleton]; omega)] at h
    cases h

theorem placed_start (ss : List Stage) (now : Instant) :
    Placed ss 0 (start now) [] where
  placed := rfl
  names := by
    intro name
    simp [start, find?, place?]
  previous := rfl
  below := by simp
  request := by simp

private theorem Placed.warn (h : Placed ss n b places) (ws : List String) :
    Placed ss n (b.warn ws) places :=
  ⟨⟨h.placed, h.names, h.previous⟩, h.below, h.request⟩

private theorem Placed.setRange (h : Placed ss n b places) (range : Range) :
    Placed ss n { b with range := range } places :=
  ⟨⟨h.placed, h.names, h.previous⟩, h.below, h.request⟩

/-- A stage that is added stands in the last place. -/
theorem Placed.grow (h : Placed ss n b places) (hs : ss[n]? = some s)
    (hnew : ∀ m, s.binding = some m → b.find? m = none) {work : Work}
    {inputs : List Nat} (hwork : IsRequest ss n ↔ ∃ r, work = .ask r) :
    Placed ss (n + 1) (b.grow s work inputs) (places ++ [b.nodes.length]) where
  placed := by simp [h.placed]
  names := fun name => h.names_next hs hnew b.nodes.length name
  previous := by simp [Binding.grow]
  below := by
    intro j i hj
    rw [length_grow]
    rcases getElem?_concat_cases hj with ⟨-, hj⟩ | ⟨-, rfl⟩
    · have := h.below j i hj
      omega
    · omega
  request := by
    intro j i hj
    rcases getElem?_concat_cases hj with ⟨-, hj⟩ | ⟨hend, rfl⟩
    · rw [work?_grow (h.below j i hj)]
      exact h.request j i hj
    · rw [work?_grow_last, hend, h.placed]
      simpa using hwork

/-- A stage that is folded into a request stands in the place of the request. -/
theorem Placed.fold (h : Placed ss n b places) (hs : ss[n]? = some s)
    (hnew : ∀ m, s.binding = some m → b.find? m = none) {i : Nat} {r r' : Request}
    (hwork : b.work? i = some (.ask r)) (hreq : IsRequest ss n) :
    Placed ss (n + 1) (b.fold s i r') (places ++ [i]) where
  placed := by simp [h.placed]
  names := fun name => h.names_next hs hnew i name
  previous := by simp [Binding.fold]
  below := by
    intro j k hj
    rw [length_fold]
    rcases getElem?_concat_cases hj with ⟨-, hj⟩ | ⟨-, rfl⟩
    · exact h.below j k hj
    · exact lt_of_work? hwork
  request := by
    have hfold : (b.fold s i r').work? i = some (.ask r') :=
      work?_fold_self (lt_of_work? hwork)
    intro j k hj
    rcases getElem?_concat_cases hj with ⟨-, hj⟩ | ⟨hend, rfl⟩
    · rw [h.request j k hj]
      by_cases hk : k = i
      · subst hk
        exact ⟨fun _ => ⟨r', hfold⟩, fun _ => ⟨r, hwork⟩⟩
      · rw [work?_fold_of_ne hk]
    · rw [hend, h.placed]
      exact ⟨fun _ => ⟨r', hfold⟩, fun _ => hreq⟩

/-- An aggregation is bound to a single request just if it reads a single stage that
means one. -/
theorem Placed.requestAmong? (h : Placed ss n b places) (hs : ss[n]? = some s)
    {a : Aggregation} (ha : s.body = .aggregate a) {p : Position} {inputs : List Nat}
    (hsrc : b.sources a p = .ok inputs) :
    (∃ e, b.requestAmong? inputs = some e) ↔
      ∃ j, reads ss n = [j] ∧ IsRequest ss j := by
  constructor
  · intro he
    obtain ⟨⟨i, r⟩, he⟩ := he
    obtain ⟨rfl, hwork⟩ := requestAmong?_eq_some he
    obtain ⟨j, hreads, hplace⟩ := h.single_source hs ha hsrc
    exact ⟨j, hreads, (h.request j i hplace).2 ⟨r, hwork⟩⟩
  · intro hj
    obtain ⟨j, hreads, hreq⟩ := hj
    have hplaces := h.reads_places hs ha hsrc
    rw [hreads, List.map_singleton] at hplaces
    obtain ⟨i, rfl, hi⟩ := List.map_eq_singleton_iff.1 hplaces.symm
    obtain ⟨r, hwork⟩ := (h.request j i hi.symm).1 hreq
    exact ⟨(i, r), by simp [Binding.requestAmong?, hwork, Work.request?]⟩

/-- **Step.**  One more stage gets a place. -/
theorem Placed.step (h : Placed ss n b places) (hs : ss[n]? = some s)
    (hnew : ∀ m, s.binding = some m → b.find? m = none)
    (hb : Binds combiners now b s b') :
    ∃ i, b'.previous = some i ∧ Placed ss (n + 1) b' (places ++ [i]) := by
  cases hb with
  | request x range hbody hrange =>
      refine ⟨_, rfl, (h.setRange range).grow hs hnew ?_⟩
      exact ⟨fun _ => ⟨_, rfl⟩, fun _ => .select hs hbody⟩
  | folded a d i r hbody hname hsrc hwork hd hread =>
      obtain ⟨j, hreads, hplace⟩ := h.single_source hs hbody hsrc
      have hreq := (h.request j i hplace).2 ⟨r, hwork⟩
      exact ⟨_, rfl,
        (h.warn d.warnings).fold hs hnew hwork (.function hs hbody hname hreads hreq)⟩
  | copied a d i r hbody hname hsrc hwork hd hread =>
      obtain ⟨j, hreads, hplace⟩ := h.single_source hs hbody hsrc
      have hreq := (h.request j i hplace).2 ⟨r, hwork⟩
      refine ⟨_, rfl, (h.warn d.warnings).grow hs hnew ?_⟩
      exact ⟨fun _ => ⟨_, rfl⟩, fun _ => .function hs hbody hname hreads hreq⟩
  | combined a d inputs hbody hsrc hnone hd =>
      refine ⟨_, rfl, (h.warn d.warnings).grow hs hnew ⟨fun hreq => ?_, fun hask => ?_⟩⟩
      · -- A function over a single request would have been folded.
        cases hreq with
        | select hs' hx =>
            rw [hs, Option.some.injEq] at hs'
            subst hs'
            rw [hbody] at hx
            cases hx
        | function hs' ha hname hreads hj =>
            rw [hs, Option.some.injEq] at hs'
            subst hs'
            rw [hbody] at ha
            cases ha
            obtain ⟨e, he⟩ := (h.requestAmong? hs hbody hsrc).2 ⟨_, hreads, hj⟩
            rw [hnone hname] at he
            cases he
      · obtain ⟨r, hr⟩ := hask
        cases hr

/-- **Run.**  Stages that are bound have places. -/
theorem placed_bindStages (hn : n ≤ ss.length) :
    ∀ {b : Binding}, bindStages combiners now (ss.take n) = .ok b →
      ∃ places, Placed ss n b places := by
  induction n with
  | zero =>
      intro b hb
      cases hb
      exact ⟨[], placed_start ss now⟩
  | succ n ih =>
      intro b hb
      have hs : ss[n]? = some ss[n] := List.getElem?_eq_getElem hn
      rw [take_succ hs] at hb
      obtain ⟨c, hc, hmore⟩ := bindStages_append_ok hb
      obtain ⟨c', hstage, hnil⟩ := bindMore_cons_ok hmore
      cases hnil
      obtain ⟨places, hplaced⟩ := ih (Nat.le_of_succ_le hn) hc
      obtain ⟨hnew, hbinds⟩ := bindStage_binds hstage
      obtain ⟨i, -, hnext⟩ := hplaced.step hs hnew hbinds
      exact ⟨_, hnext⟩

end Binding

end SeriesQuery
