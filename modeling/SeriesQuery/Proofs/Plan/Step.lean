import SeriesQuery.Plan.Binding
import SeriesQuery.Proofs.Fallible

/-!
# What binding one stage does

A stage that binds does one of four things: a select adds its request, an aggregation of
the backend is folded into the request it reads or, when a stage reads that request
already, into a new copy, and any other aggregation adds a combination.  `Binds` lists
the four with all that was checked on the way, and everything that holds of plans under
construction follows from it.

## Main results

* `bindStage_binds`: a stage that binds does one of the four things, and its name is
  new.
* `Binds.node_kept`: a stage bound earlier stays as it was, except that an unread
  request may be folded into.
* `Binds.ordered`: inputs come before the stages that read them, and names stand for
  stages that exist.
* `bindStages_append`: binding a statement is binding its parts one after another.
-/

namespace SeriesQuery.Binding

open SeriesQuery.Backend Fallible
open SeriesQuery.Time (Instant)

/-! ## The two ways in which a plan under construction changes -/

/-- The names after a stage has been bound to some place. -/
def namesWith (b : Binding) (s : Stage) (i : Nat) : List (String × Nat) :=
  (s.binding.map fun n => (n, i)).toList ++ b.names

/-- Adds what a stage does as a stage of its own. -/
def grow (b : Binding) (s : Stage) (work : Work) (inputs : List Nat) : Binding :=
  { b with
    nodes := b.nodes ++ [⟨s.binding, inputs, work, s.position⟩]
    names := b.namesWith s b.nodes.length
    previous := some b.nodes.length }

/-- Puts a request in the place of the one at `i`, which then is what a stage stands
for. -/
def fold (b : Binding) (s : Stage) (i : Nat) (r : Request) : Binding :=
  { b with
    nodes :=
      b.nodes.modify i fun d => { d with name := d.name.or s.binding, work := .ask r }
    names := b.namesWith s i
    previous := some i }

/-- What binding a stage did, with all that was checked. -/
inductive Binds (combiners : Combiners) (now : Instant) (b : Binding) (s : Stage) :
    Binding → Prop
  | request (x : Select) (range : Range) :
      s.body = .select x → rangeAfter now b.range x s.position = .ok range →
      Binds combiners now b s
        ({ b with range := range }.grow s (.ask (requestOf x range)) [])
  | folded (a : Aggregation) (d : Decoded Aggregator) (i : Nat) (r : Request) :
      s.body = .aggregate a → isBackendFunction a.name = true →
      b.sources a s.position = .ok [i] → b.work? i = some (.ask r) →
      decodeBackend a.name a.arguments = .ok d → b.isRead i = false →
      Binds combiners now b s ((b.warn d.warnings).fold s i (aggregated r d.value))
  | copied (a : Aggregation) (d : Decoded Aggregator) (i : Nat) (r : Request) :
      s.body = .aggregate a → isBackendFunction a.name = true →
      b.sources a s.position = .ok [i] → b.work? i = some (.ask r) →
      decodeBackend a.name a.arguments = .ok d → b.isRead i = true →
      Binds combiners now b s
        ((b.warn d.warnings).grow s (.ask (aggregated r d.value)) [])
  | combined (a : Aggregation) (d : Decoded Combination) (inputs : List Nat) :
      s.body = .aggregate a → b.sources a s.position = .ok inputs →
      (isBackendFunction a.name = true → b.requestAmong? inputs = none) →
      combiners.decode? a.name a.arguments = some (.ok d) →
      Binds combiners now b s ((b.warn d.warnings).grow s (.combine d.value) inputs)

variable {combiners : Combiners} {now : Instant} {b b' : Binding} {s : Stage}

/-! ## Naming -/

/-- Adding a stage and then naming it is adding it under its name. -/
theorem stand_add (b : Binding) (s : Stage) (work : Work) (inputs : List Nat) :
    (b.add work inputs s.position).1.stand s (b.add work inputs s.position).2 =
      b.grow s work inputs := by
  cases hs : s.binding with
  | none => simp [add, stand, bindName, grow, namesWith, hs]
  | some n =>
      simp only [add, stand, bindName, grow, namesWith, hs, Option.map_some,
        Option.toList_some, List.cons_append, List.nil_append, Binding.mk.injEq,
        and_true, true_and]
      apply List.ext_getElem?
      intro j
      rw [List.getElem?_modify]
      rcases Nat.lt_trichotomy j b.nodes.length with hj | hj | hj
      · simp [List.getElem?_append_left hj, Nat.ne_of_gt hj]
      · subst hj
        simp
      · obtain ⟨k, hk⟩ := Nat.exists_eq_add_of_lt hj
        subst hk
        simp [Nat.add_assoc]

/-- Changing what a stage does and then naming it is folding into it. -/
theorem stand_modify (b : Binding) (s : Stage) (i : Nat) (r : Request) :
    Binding.stand
        { b with nodes := b.nodes.modify i fun d => { d with work := .ask r } } s i =
      b.fold s i r := by
  cases hs : s.binding with
  | none => simp [stand, bindName, fold, namesWith, hs]
  | some n =>
      simp only [stand, bindName, fold, namesWith, hs, Option.map_some,
        Option.toList_some, List.cons_append, List.nil_append, List.modify_modify_eq]
      rfl

/-! ## Inversion -/

/-- Only a single stage that asks the backend can be folded into. -/
theorem requestAmong?_eq_some {inputs : List Nat} {i : Nat} {r : Request}
    (h : b.requestAmong? inputs = some (i, r)) :
    inputs = [i] ∧ b.work? i = some (.ask r) := by
  match inputs, h with
  | [j], h =>
      simp only [requestAmong?, Option.map_eq_some_iff, Option.bind_eq_some_iff,
        Prod.mk.injEq] at h
      obtain ⟨r', ⟨w, hw, hr⟩, rfl, rfl⟩ := h
      cases w with
      | ask r'' =>
          simp only [Work.request?, Option.some.injEq] at hr
          exact ⟨rfl, hr ▸ hw⟩
      | combine c => simp [Work.request?] at hr

/-- Folding a function of the backend puts it into the request, or into a copy of a
request that a stage reads already. -/
theorem stand_lift (b : Binding) (s : Stage) (i : Nat) (r : Request) (a : Aggregator) :
    (b.lift i r a s.position).1.stand s (b.lift i r a s.position).2 =
      if b.isRead i then b.grow s (.ask (aggregated r a)) []
      else b.fold s i (aggregated r a) := by
  unfold lift
  split
  · exact stand_add b s (.ask (aggregated r a)) []
  · exact stand_modify b s i (aggregated r a)

/-- An aggregation that binds is folded into a request or combines what it reads. -/
theorem bindAggregation_binds {a : Aggregation} {c : Binding} {i : Nat}
    (hs : s.body = .aggregate a)
    (h : bindAggregation combiners b a s.position = .ok (c, i)) :
    Binds combiners now b s (c.stand s i) := by
  obtain ⟨inputs, hinputs, h⟩ := bind_eq_ok_iff.1 h
  split at h
  · rename_i target r htarget
    have hname : isBackendFunction a.name = true := by
      by_cases hname : isBackendFunction a.name = true
      · exact hname
      · simp [hname] at htarget
    rw [if_pos hname] at htarget
    obtain ⟨rfl, hwork⟩ := requestAmong?_eq_some htarget
    obtain ⟨d, hd, hlift⟩ := bind_eq_ok_iff.1 h
    have hd := mapError_eq_ok hd
    have hstand := stand_lift (b.warn d.warnings) s target r d.value
    have hread : (b.warn d.warnings).isRead target = b.isRead target := rfl
    have hc : (b.warn d.warnings).lift target r d.value s.position = (c, i) :=
      Except.ok.inj hlift
    rw [hc, hread] at hstand
    rw [hstand]
    by_cases hr : b.isRead target = true
    · rw [if_pos hr]
      exact .copied a d target r hs hname hinputs hwork hd hr
    · rw [if_neg hr]
      exact .folded a d target r hs hname hinputs hwork hd (by simpa using hr)
  · rename_i htarget
    split at h
    · cases h
    · rename_i decoded hdecoded
      obtain ⟨d, hd, hadd⟩ := bind_eq_ok_iff.1 h
      have hd := mapError_eq_ok hd
      subst hd
      have hc : (b.warn d.warnings).add (.combine d.value) inputs s.position = (c, i) :=
        Except.ok.inj hadd
      have hstand := stand_add (b.warn d.warnings) s (.combine d.value) inputs
      rw [hc] at hstand
      rw [hstand]
      refine .combined a d inputs hs hinputs (fun hname => ?_) hdecoded
      rwa [if_pos hname] at htarget

/-- **Inversion.**  A stage that binds has a new name and does one of four things. -/
theorem bindStage_binds (h : bindStage combiners now b s = .ok b') :
    (∀ n, s.binding = some n → b.find? n = none) ∧ Binds combiners now b s b' := by
  unfold bindStage at h
  split at h
  · cases h
  · rename_i hfree
    obtain ⟨⟨c, i⟩, hbody, hc⟩ := bind_eq_ok_iff.1 h
    have hc : b' = c.stand s i := (Except.ok.inj hc).symm
    refine ⟨fun n hn => by simpa [hn] using hfree, ?_⟩
    unfold bindBody at hbody
    rw [hc]
    cases hs : s.body with
    | select x =>
        rw [hs] at hbody
        obtain ⟨range, hrange, hadd⟩ := bind_eq_ok_iff.1 hbody
        have hadd := Except.ok.inj hadd
        have hstand :=
          stand_add { b with range := range } s (.ask (requestOf x range)) []
        rw [hadd] at hstand
        rw [hstand]
        exact .request x range hs hrange
    | aggregate a =>
        rw [hs] at hbody
        exact bindAggregation_binds hs hbody

/-! ## What an aggregation reads -/

/-- Looking names up one by one succeeds when every name stands for something. -/
theorem mapM_find?_eq_ok {fault : String → PlanFault} :
    ∀ {names : List String} {inputs : List Nat},
      (names.mapM fun n => match b.find? n with
        | some i => Except.ok i
        | none => .error (fault n)) = .ok inputs →
      names.map b.find? = inputs.map some := by
  intro names
  induction names with
  | nil =>
      intro inputs h
      cases h
      rfl
  | cons n names ih =>
      intro inputs h
      rw [List.mapM_cons] at h
      obtain ⟨i, hi, h⟩ := bind_eq_ok_iff.1 h
      obtain ⟨is, his, h⟩ := bind_eq_ok_iff.1 h
      cases h
      cases hn : b.find? n with
      | none =>
          rw [hn] at hi
          cases hi
      | some j =>
          rw [hn] at hi
          cases hi
          rw [List.map_cons, List.map_cons, hn, ih his]

/-- The stages an aggregation names are those its names stand for, or else the one bound
last. -/
theorem named_eq_ok {a : Aggregation} {p : Position} {found : List Nat}
    (h : b.named a p = .ok found) :
    (∀ names, a.sources = some names → names.map b.find? = found.map some) ∧
      (a.sources = none → found = b.previous.toList) := by
  unfold named at h
  constructor
  · intro names hnames
    rw [hnames] at h
    exact mapM_find?_eq_ok h
  · intro hnone
    rw [hnone] at h
    cases h
    rfl

/-- An aggregation reads the stages it names, and there is at least one. -/
theorem sources_eq_ok_iff {a : Aggregation} {p : Position} {inputs : List Nat} :
    b.sources a p = .ok inputs ↔ b.named a p = .ok inputs ∧ inputs ≠ [] := by
  unfold sources
  cases b.named a p with
  | error e =>
      constructor
      · intro h
        cases h
      · intro h
        cases h.1
  | ok found =>
      cases found with
      | nil =>
          constructor
          · intro h
            cases h
          · rintro ⟨h, hne⟩
            cases h
            exact absurd rfl hne
      | cons i is =>
          constructor
          · intro h
            cases h
            exact ⟨rfl, List.cons_ne_nil i is⟩
          · exact fun h => h.1

/-- The stages an aggregation reads are those its names stand for, or else the one bound
last, and there is at least one. -/
theorem sources_eq_ok {a : Aggregation} {p : Position} {inputs : List Nat}
    (h : b.sources a p = .ok inputs) :
    inputs ≠ [] ∧
      (∀ names, a.sources = some names → names.map b.find? = inputs.map some) ∧
      (a.sources = none → inputs = b.previous.toList) := by
  obtain ⟨hnamed, hne⟩ := sources_eq_ok_iff.1 h
  exact ⟨hne, named_eq_ok hnamed⟩

/-! ## Order -/

/-- Inputs come before the stages that read them. -/
def Forward (ds : List DraftNode) : Prop :=
  ∀ i (d : DraftNode), ds[i]? = some d → ∀ j ∈ d.inputs, j < i

/-- Inputs come before the stages that read them, and names and the last stage stand for
stages that exist. -/
structure Ordered (b : Binding) : Prop where
  inputs : Forward b.nodes
  names : ∀ e ∈ b.names, e.2 < b.nodes.length
  previous : ∀ i, b.previous = some i → i < b.nodes.length

private theorem find?_mem {n : String} {i : Nat} (h : b.find? n = some i) :
    ∃ m, (m, i) ∈ b.names := by
  obtain ⟨e, he, rfl⟩ := Option.map_eq_some_iff.1 h
  exact ⟨e.1, List.mem_of_find?_eq_some he⟩

/-- An aggregation reads stages that exist. -/
theorem Ordered.sources (ho : b.Ordered) {a : Aggregation} {p : Position}
    {inputs : List Nat} (h : b.sources a p = .ok inputs) :
    ∀ j ∈ inputs, j < b.nodes.length := by
  obtain ⟨-, hnamed, hlast⟩ := sources_eq_ok h
  intro j hj
  cases ha : a.sources with
  | none =>
      rw [hlast ha] at hj
      exact ho.previous j (by simpa using hj)
  | some names =>
      have hmem : some j ∈ names.map b.find? := by
        rw [hnamed names ha]
        exact List.mem_map_of_mem hj
      obtain ⟨n, -, hn⟩ := List.mem_map.1 hmem
      obtain ⟨m, hm⟩ := find?_mem hn
      exact ho.names _ hm

private theorem mem_namesWith {i : Nat} {e : String × Nat} (h : e ∈ b.namesWith s i) :
    e.2 = i ∨ e ∈ b.names := by
  unfold namesWith at h
  rcases List.mem_append.1 h with h | h
  · left
    obtain ⟨n, -, rfl⟩ := Option.map_eq_some_iff.1 (Option.mem_toList.1 h)
    rfl
  · exact Or.inr h

theorem length_grow {work : Work} {inputs : List Nat} :
    (b.grow s work inputs).nodes.length = b.nodes.length + 1 := by
  rw [grow, List.length_append, List.length_singleton]

/-- What a stage adds stands last. -/
theorem getElem?_grow_last {work : Work} {inputs : List Nat} :
    (b.grow s work inputs).nodes[b.nodes.length]? =
      some ⟨s.binding, inputs, work, s.position⟩ := by
  rw [grow, List.getElem?_concat_length]

theorem getElem?_grow {work : Work} {inputs : List Nat} {i : Nat} {d : DraftNode}
    (h : b.nodes[i]? = some d) : (b.grow s work inputs).nodes[i]? = some d := by
  simp only [grow]
  rw [List.getElem?_append_left (List.getElem?_eq_some_iff.1 h).1, h]

theorem work?_grow_last {work : Work} {inputs : List Nat} :
    (b.grow s work inputs).work? b.nodes.length = some work := by
  rw [work?, getElem?_grow_last, Option.map_some]

theorem work?_grow {work : Work} {inputs : List Nat} {i : Nat}
    (h : i < b.nodes.length) : (b.grow s work inputs).work? i = b.work? i := by
  have hi := List.getElem?_eq_getElem h
  rw [work?, getElem?_grow hi, work?, hi]

theorem Ordered.grow (ho : b.Ordered) {work : Work} {inputs : List Nat}
    (h : ∀ j ∈ inputs, j < b.nodes.length) : (b.grow s work inputs).Ordered where
  inputs := by
    intro i d hd j hj
    rcases Nat.lt_trichotomy i b.nodes.length with hi | hi | hi
    · rw [getElem?_grow (List.getElem?_eq_getElem hi)] at hd
      exact ho.inputs i d (by rw [List.getElem?_eq_getElem hi, hd]) j hj
    · subst hi
      rw [getElem?_grow_last, Option.some.injEq] at hd
      subst hd
      exact h j hj
    · rw [List.getElem?_eq_none (by rw [length_grow]; omega)] at hd
      cases hd
  names := by
    intro e he
    rw [length_grow]
    rcases mem_namesWith he with he | he
    · omega
    · have := ho.names e he
      omega
  previous := by
    intro i hi
    cases hi
    rw [length_grow]
    omega

/-- What a stage is after something has been folded into `i`. -/
theorem getElem?_fold {i j : Nat} {r : Request} :
    (b.fold s i r).nodes[j]? = b.nodes[j]?.map fun d =>
      if i = j then { d with name := d.name.or s.binding, work := .ask r } else d := by
  simp only [fold, List.getElem?_modify]
  rfl

theorem length_fold {i : Nat} {r : Request} :
    (b.fold s i r).nodes.length = b.nodes.length := by
  rw [fold, List.length_modify]

theorem work?_fold_self {i : Nat} {r : Request} (h : i < b.nodes.length) :
    (b.fold s i r).work? i = some (.ask r) := by
  rw [work?, getElem?_fold, List.getElem?_eq_getElem h, Option.map_some, if_pos rfl,
    Option.map_some]

theorem work?_fold_of_ne {i j : Nat} {r : Request} (h : j ≠ i) :
    (b.fold s i r).work? j = b.work? j := by
  rw [work?, getElem?_fold, Option.map_map, work?]
  congr 1
  funext d
  simp [Ne.symm h]

theorem Ordered.fold (ho : b.Ordered) {i : Nat} {r : Request} (h : i < b.nodes.length) :
    (b.fold s i r).Ordered where
  inputs := by
    intro k d hd j hj
    rw [getElem?_fold] at hd
    obtain ⟨d', hd', rfl⟩ := Option.map_eq_some_iff.1 hd
    refine ho.inputs k d' hd' j ?_
    split at hj <;> exact hj
  names := by
    intro e he
    rw [length_fold]
    rcases mem_namesWith he with he | he
    · omega
    · exact ho.names e he
  previous := by
    intro k hk
    cases hk
    rwa [length_fold]

theorem lt_of_work? {i : Nat} {w : Work} (h : b.work? i = some w) :
    i < b.nodes.length := by
  obtain ⟨d, hd, -⟩ := Option.map_eq_some_iff.1 h
  exact (List.getElem?_eq_some_iff.1 hd).1

theorem Ordered.warn (ho : b.Ordered) (ws : List String) : (b.warn ws).Ordered :=
  ⟨ho.inputs, ho.names, ho.previous⟩

theorem Ordered.range (ho : b.Ordered) (range : Range) :
    ({ b with range := range }).Ordered :=
  ⟨ho.inputs, ho.names, ho.previous⟩

/-- A stage keeps the order. -/
theorem Binds.ordered (h : Binds combiners now b s b') (ho : b.Ordered) :
    b'.Ordered := by
  cases h with
  | request x range hs hrange =>
      apply (ho.range range).grow
      intro j hj
      cases hj
  | folded a d i r hs hname hsrc hwork hd hread =>
      exact (ho.warn d.warnings).fold (lt_of_work? hwork)
  | copied a d i r hs hname hsrc hwork hd hread =>
      apply (ho.warn d.warnings).grow
      intro j hj
      cases hj
  | combined a d inputs hs hsrc hnone hd =>
      exact (ho.warn d.warnings).grow (ho.sources hsrc)

theorem ordered_start (now : Instant) : (start now).Ordered := by
  refine ⟨?_, ?_, ?_⟩ <;> simp [start, Forward]

/-! ## What stays as it was -/

/-- The function that a stage folds into the request at `i` in place, when it does. -/
def FoldsInto (b : Binding) (s : Stage) (i : Nat) (f : Aggregator) : Prop :=
  ∃ a d, s.body = .aggregate a ∧ isBackendFunction a.name = true ∧
    b.sources a s.position = .ok [i] ∧ decodeBackend a.name a.arguments = .ok d ∧
    b.isRead i = false ∧ d.value = f

/-- **Frame.**  A stage leaves an earlier one as it was, unless it folds a function into
its request, which no stage reads. -/
theorem Binds.node_kept (h : Binds combiners now b s b') {i : Nat} {d : DraftNode}
    (hi : b.nodes[i]? = some d) :
    b'.nodes[i]? = some d ∨
      ∃ r f, d.work = .ask r ∧ b.FoldsInto s i f ∧ b.isRead i = false ∧
        b'.nodes[i]? = some { d with
          name := d.name.or s.binding, work := .ask (aggregated r f) } := by
  cases h with
  | request x range hs hrange => exact Or.inl (getElem?_grow hi)
  | folded a d' j r hs hname hsrc hwork hd hread =>
      by_cases hj : j = i
      · subst hj
        right
        have hask : d.work = .ask r := by
          simpa [work?, hi] using hwork
        refine ⟨r, d'.value, hask, ⟨a, d', hs, hname, hsrc, hd, hread, rfl⟩, hread, ?_⟩
        rw [getElem?_fold, warn, hi, Option.map_some, if_pos rfl]
      · left
        rw [getElem?_fold, warn, hi, Option.map_some, if_neg hj]
  | copied a d' j r hs hname hsrc hwork hd hread => exact Or.inl (getElem?_grow hi)
  | combined a d' inputs hs hsrc hnone hd => exact Or.inl (getElem?_grow hi)

/-- What a stage reads stays read. -/
theorem Binds.isRead_mono (h : Binds combiners now b s b') {i : Nat}
    (hi : b.isRead i = true) : b'.isRead i = true := by
  simp only [isRead, List.any_eq_true] at hi ⊢
  obtain ⟨d, hd, hin⟩ := hi
  obtain ⟨k, hk⟩ := List.mem_iff_getElem?.1 hd
  rcases h.node_kept hk with hk' | ⟨r, f, -, -, -, hk'⟩
  · exact ⟨d, List.mem_of_getElem? hk', hin⟩
  · exact ⟨_, List.mem_of_getElem? hk', hin⟩

/-- A name that stands for a stage goes on to stand for it. -/
theorem find?_namesWith {n : String} {i j : Nat}
    (hnew : ∀ m, s.binding = some m → b.find? m = none) (h : b.find? n = some j) :
    ((b.namesWith s i).find? fun e => e.1 == n).map (·.2) = some j := by
  cases hs : s.binding with
  | none => simpa [namesWith, hs, find?] using h
  | some m =>
      have hne : m ≠ n := by
        rintro rfl
        rw [hnew m hs] at h
        cases h
      simpa [namesWith, hs, find?, hne] using h

theorem Binds.find?_kept (h : Binds combiners now b s b')
    (hnew : ∀ m, s.binding = some m → b.find? m = none) {n : String} {j : Nat}
    (hn : b.find? n = some j) : b'.find? n = some j := by
  cases h <;> exact find?_namesWith hnew hn

/-! ## Statements -/

/-- Binds more stages. -/
def bindMore (combiners : Combiners) (now : Instant) (b : Binding) (ss : List Stage) :
    Except PlanFault Binding :=
  ss.foldlM (bindStage combiners now) b

theorem bindMore_cons_ok {ss : List Stage}
    (h : bindMore combiners now b (s :: ss) = .ok b') :
    ∃ c,
      bindStage combiners now b s = .ok c ∧ bindMore combiners now c ss = .ok b' := by
  unfold bindMore at h
  rw [List.foldlM_cons] at h
  exact bind_eq_ok_iff.1 h

/-- Binding a statement is binding its parts one after another. -/
theorem bindMore_append_ok {ss ts : List Stage}
    (h : bindMore combiners now b (ss ++ ts) = .ok b') :
    ∃ c,
      bindMore combiners now b ss = .ok c ∧ bindMore combiners now c ts = .ok b' := by
  unfold bindMore at h
  rw [List.foldlM_append] at h
  exact bind_eq_ok_iff.1 h

theorem bindStages_append_ok {ss ts : List Stage}
    (h : bindStages combiners now (ss ++ ts) = .ok b') :
    ∃ c, bindStages combiners now ss = .ok c ∧ bindMore combiners now c ts = .ok b' :=
  bindMore_append_ok h

/-- **Run principle.**  What every stage that binds preserves holds after any number of
stages. -/
theorem bindMore_preserves_of_mem {P : Binding → Prop} {ss : List Stage}
    (step : ∀ {b b' s}, s ∈ ss → P b → (∀ n, s.binding = some n → b.find? n = none) →
      Binds combiners now b s b' → P b')
    (h : bindMore combiners now b ss = .ok b') (hb : P b) : P b' := by
  induction ss generalizing b with
  | nil =>
      cases h
      exact hb
  | cons s ss ih =>
      obtain ⟨c, hc, h⟩ := bindMore_cons_ok h
      obtain ⟨hnew, hbinds⟩ := bindStage_binds hc
      have hnext : P c := step List.mem_cons_self hb hnew hbinds
      exact ih (fun hs => step (List.mem_cons_of_mem s hs)) h hnext

theorem bindMore_preserves {P : Binding → Prop} {ss : List Stage}
    (step : ∀ {b b' s}, P b → (∀ n, s.binding = some n → b.find? n = none) →
      Binds combiners now b s b' → P b')
    (h : bindMore combiners now b ss = .ok b') (hb : P b) : P b' :=
  bindMore_preserves_of_mem (fun _ => step) h hb

theorem ordered_bindMore {ss : List Stage} (h : bindMore combiners now b ss = .ok b')
    (hb : b.Ordered) : b'.Ordered :=
  bindMore_preserves (fun hb _ h => h.ordered hb) h hb

theorem ordered_bindStages {ss : List Stage} (h : bindStages combiners now ss = .ok b) :
    b.Ordered :=
  ordered_bindMore h (ordered_start now)

end SeriesQuery.Binding
