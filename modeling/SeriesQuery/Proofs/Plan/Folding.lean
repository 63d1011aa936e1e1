import SeriesQuery.Proofs.Plan.Step

/-!
# What a folded aggregation stands for

An aggregation that is folded into a request stands for that request from then on.  It
shares the request with every other name of it, and the next function may be folded into
the same place: what keeps it from changing is only that some stage reads it.  So the
request that a name stands for in the end is the one it stood for at first with the
functions of all later stages that fold into it in place, and it is the same exactly
when there are none.

## Main results

* `request_of_bindMore`: what becomes of a request while more stages are bound.
* `folded_request_kept_iff`: when a name stands for the same request in the end.
* `folded_request_changed`: two functions over one select change what the first one
  stands for.
-/

namespace SeriesQuery.Binding

open SeriesQuery.Backend
open SeriesQuery.Time (Instant)

variable {combiners : Combiners} {now : Instant} {b b' : Binding} {s : Stage}

/-! ## One stage -/

private theorem work?_eq_some {i : Nat} {w : Work} :
    b.work? i = some w ↔ ∃ d, b.nodes[i]? = some d ∧ d.work = w := by
  simp [work?]

/-- A stage that meets the conditions of folding is folded. -/
theorem Binds.work?_of_foldsInto (h : Binds combiners now b s b') {i : Nat}
    {r : Request} {f : Aggregator} (hr : b.work? i = some (.ask r))
    (hf : b.FoldsInto s i f) :
    b'.work? i = some (.ask (aggregated r f)) := by
  obtain ⟨a, d, hs, hname, hsrc, hd, hread, rfl⟩ := hf
  cases h with
  | request x range hs' hrange =>
      rw [hs] at hs'
      cases hs'
  | folded a' d' j r' hs' hname' hsrc' hwork hd' hread' =>
      rw [hs] at hs'
      cases hs'
      rw [hsrc] at hsrc'
      cases hsrc'
      rw [hd] at hd'
      cases hd'
      rw [hr] at hwork
      cases hwork
      exact work?_fold_self (lt_of_work? hr)
  | copied a' d' j r' hs' hname' hsrc' hwork hd' hread' =>
      rw [hs] at hs'
      cases hs'
      rw [hsrc] at hsrc'
      cases hsrc'
      rw [hread] at hread'
      cases hread'
  | combined a' d' inputs hs' hsrc' hnone hd' =>
      rw [hs] at hs'
      cases hs'
      rw [hsrc] at hsrc'
      cases hsrc'
      have hone := hnone hname
      simp [requestAmong?, hr, Work.request?] at hone

/-- A stage that is not folded into a request leaves it as it was. -/
theorem Binds.work?_of_not_foldsInto (h : Binds combiners now b s b') {i : Nat}
    {r : Request} (hr : b.work? i = some (.ask r)) (hf : ∀ f, ¬ b.FoldsInto s i f) :
    b'.work? i = some (.ask r) := by
  obtain ⟨d, hd, hask⟩ := work?_eq_some.1 hr
  rcases h.node_kept hd with hd' | ⟨r', f, -, hfold, -, -⟩
  · exact work?_eq_some.2 ⟨d, hd', hask⟩
  · exact absurd hfold (hf f)

/-! ## More stages -/

/-- What stages fold into the request at `i`, in their order. -/
inductive FoldedAlong (combiners : Combiners) (now : Instant) (i : Nat) :
    Binding → List Stage → List Aggregator → Prop
  | nil (b : Binding) : FoldedAlong combiners now i b [] []
  | fold {b c : Binding} {s : Stage} {ss : List Stage} {f : Aggregator}
      {fs : List Aggregator} :
      bindStage combiners now b s = .ok c → b.FoldsInto s i f →
      FoldedAlong combiners now i c ss fs →
      FoldedAlong combiners now i b (s :: ss) (f :: fs)
  | keep {b c : Binding} {s : Stage} {ss : List Stage} {fs : List Aggregator} :
      bindStage combiners now b s = .ok c → (∀ f, ¬ b.FoldsInto s i f) →
      FoldedAlong combiners now i c ss fs → FoldedAlong combiners now i b (s :: ss) fs

/-- **Run.**  The request at `i` after more stages is the one before with all that was
folded in. -/
theorem request_of_bindMore {i : Nat} {ss : List Stage} :
    ∀ {b : Binding} {r : Request}, bindMore combiners now b ss = .ok b' →
      b.work? i = some (.ask r) →
      ∃ fs, FoldedAlong combiners now i b ss fs ∧
        b'.work? i = some (.ask (fs.foldl aggregated r)) := by
  induction ss with
  | nil =>
      intro b r h hr
      cases h
      exact ⟨[], .nil _, hr⟩
  | cons s ss ih =>
      intro b r h hr
      obtain ⟨c, hc, h⟩ := bindMore_cons_ok h
      have hbinds := (bindStage_binds hc).2
      by_cases hfold : ∃ f, b.FoldsInto s i f
      · obtain ⟨f, hf⟩ := hfold
        obtain ⟨fs, hfs, hr'⟩ := ih h (hbinds.work?_of_foldsInto hr hf)
        exact ⟨f :: fs, .fold hc hf hfs, hr'⟩
      · have hnone : ∀ f, ¬ b.FoldsInto s i f := fun f hf => hfold ⟨f, hf⟩
        obtain ⟨fs, hfs, hr'⟩ := ih h (hbinds.work?_of_not_foldsInto hr hnone)
        exact ⟨fs, .keep hc hnone hfs, hr'⟩

/-- Nothing is folded in along a run in which no stage meets the conditions. -/
theorem FoldedAlong.eq_nil_iff {i : Nat} {ss : List Stage} {fs : List Aggregator}
    (h : FoldedAlong combiners now i b ss fs) :
    fs = [] ↔ ∀ u t v m f, ss = u ++ t :: v → bindMore combiners now b u = .ok m →
      ¬ m.FoldsInto t i f := by
  induction h with
  | nil b => simp
  | @fold b c s ss f fs hc hf _ _ =>
      constructor
      · intro h
        cases h
      · intro h
        exact absurd hf (h [] s ss b f rfl rfl)
  | @keep b c s ss fs hc hf _ ih =>
      rw [ih]
      constructor
      · intro h u t v m f hss hm
        cases u with
        | nil =>
            cases hss
            cases hm
            exact hf f
        | cons t' u =>
            cases hss
            obtain ⟨c', hc', hm⟩ := bindMore_cons_ok hm
            rw [hc] at hc'
            cases hc'
            exact h u t v m f rfl hm
      · intro h u t v m f hss hm
        refine h (s :: u) t v m f (by rw [hss, List.cons_append]) ?_
        simp [bindMore, hc, bind, Except.bind] at hm ⊢
        exact hm

/-! ## A function that is folded in shows -/

/-- The number of functions in a request. -/
def weight (r : Request) : Nat := (r.metrics.flatMap fun m => m.aggregators).length

private theorem weight_aggregated (r : Request) (f : Aggregator) :
    weight (aggregated r f) = weight r + r.metrics.length := by
  unfold weight aggregated
  induction r.metrics with
  | nil => rfl
  | cons m ms ih =>
      simp only [List.map_cons, List.flatMap_cons, List.length_append, List.length_cons,
        List.length_nil] at ih ⊢
      omega

private theorem weight_foldl_aggregated (fs : List Aggregator) (r : Request) :
    weight (fs.foldl aggregated r) = weight r + fs.length * r.metrics.length := by
  induction fs generalizing r with
  | nil => simp
  | cons f fs ih =>
      rw [List.foldl_cons, ih, weight_aggregated, List.length_cons, Nat.succ_mul]
      have hlen : (aggregated r f).metrics.length = r.metrics.length := by
        simp [aggregated]
      rw [hlen]
      omega

/-- Functions change a request that asks for some metric. -/
theorem foldl_aggregated_eq_self_iff {r : Request} (hr : r.metrics ≠ [])
    (fs : List Aggregator) : fs.foldl aggregated r = r ↔ fs = [] := by
  constructor
  · intro h
    have hweight := weight_foldl_aggregated fs r
    rw [h] at hweight
    have hpos : 0 < r.metrics.length := List.length_pos_iff.2 hr
    have hzero : fs.length * r.metrics.length = 0 := by omega
    rcases Nat.mul_eq_zero.1 hzero with hfs | hms
    · exact List.eq_nil_of_length_eq_zero hfs
    · omega
  · intro h
    rw [h]
    rfl

/-- Every request asks for some metric. -/
def Asking (b : Binding) : Prop := ∀ i r, b.work? i = some (.ask r) → r.metrics ≠ []

private theorem Asking.grow (hb : b.Asking) {work : Work} {inputs : List Nat}
    (hw : ∀ r, work = .ask r → r.metrics ≠ []) : (b.grow s work inputs).Asking := by
  intro i r hr
  obtain ⟨d, hd, hask⟩ := work?_eq_some.1 hr
  simp only [Binding.grow, List.getElem?_append] at hd
  split at hd
  · exact hb i r (work?_eq_some.2 ⟨d, hd, hask⟩)
  · have hlast := List.mem_singleton.1 (List.mem_of_getElem? hd)
    rw [hlast] at hask
    exact hw r hask

private theorem Binds.asking (h : Binds combiners now b s b') (hb : b.Asking) :
    b'.Asking := by
  cases h with
  | request x range hs hrange =>
      apply Asking.grow (b := { b with range := range }) hb
      intro r hr
      cases hr
      simp [requestOf]
  | folded a d j r hs hname hsrc hwork hd hread =>
      intro i r' hr'
      obtain ⟨e, he, hask⟩ := work?_eq_some.1 hr'
      rw [getElem?_fold, warn] at he
      obtain ⟨e', he', rfl⟩ := Option.map_eq_some_iff.1 he
      split at hask
      · cases hask
        have hne := hb j r hwork
        simpa [aggregated] using hne
      · exact hb i r' (work?_eq_some.2 ⟨e', he', hask⟩)
  | copied a d j r hs hname hsrc hwork hd hread =>
      apply Asking.grow (b := b.warn d.warnings) hb
      intro r' hr'
      cases hr'
      have hne := hb j r hwork
      simpa [aggregated] using hne
  | combined a d inputs hs hsrc hnone hd =>
      apply Asking.grow (b := b.warn d.warnings) hb
      intro r hr
      cases hr

private theorem asking_bindStages {ss : List Stage}
    (h : bindStages combiners now ss = .ok b) : b.Asking :=
  bindMore_preserves (P := Asking) (fun hb _ hstep => hstep.asking hb) h
    (by intro i r hr; simp [start, work?] at hr)

/-! ## Names of requests -/

private theorem find?_bindMore {ss : List Stage} {n : String} {i : Nat}
    (h : bindMore combiners now b ss = .ok b') (hn : b.find? n = some i) :
    b'.find? n = some i :=
  bindMore_preserves (P := fun c => c.find? n = some i)
    (fun hb hnew hstep => hstep.find?_kept hnew hb) h hn

/-- **Exactness.**  A name that stands for a request, such as the name of an aggregation
that has just been folded into it, stands in the end for that request with all that
later stages fold into it in place.  So it stands for the same request exactly when no
later stage meets the conditions of folding into it: being an aggregation of the backend
whose single source stands for the request, at a moment when no stage reads it. -/
theorem folded_request_kept_iff (combiners : Combiners) (now : Instant)
    (p q : List Stage) (name : String) (i : Nat) (r : Request) (b c : Binding)
    (hb : bindStages combiners now p = .ok b)
    (hc : bindStages combiners now (p ++ q) = .ok c) (hi : b.find? name = some i)
    (hr : b.work? i = some (.ask r)) :
    c.find? name = some i ∧
      (∃ fs, FoldedAlong combiners now i b q fs ∧
        c.work? i = some (.ask (fs.foldl aggregated r))) ∧
      (c.work? i = some (.ask r) ↔
        ∀ u t v m f, q = u ++ t :: v → bindStages combiners now (p ++ u) = .ok m →
          ¬ m.FoldsInto t i f) := by
  obtain ⟨b', hb', hmore⟩ := bindStages_append_ok hc
  rw [hb] at hb'
  cases hb'
  obtain ⟨fs, hfs, hwork⟩ := request_of_bindMore hmore hr
  refine ⟨find?_bindMore hmore hi, ⟨fs, hfs, hwork⟩, ?_⟩
  have hu : ∀ u m, bindStages combiners now (p ++ u) = .ok m ↔
      bindMore combiners now b u = .ok m := by
    intro u m
    have happ : bindStages combiners now (p ++ u) =
        bindStages combiners now p >>= fun b => bindMore combiners now b u := by
      simp only [bindStages, bindMore, List.foldlM_append]
    rw [happ, hb]
    rfl
  have hne := asking_bindStages hb i r hr
  rw [hwork, Option.some.injEq, Work.ask.injEq, foldl_aggregated_eq_self_iff hne,
    hfs.eq_nil_iff]
  constructor
  · intro h u t v m f hq hm
    exact h u t v m f hq ((hu u m).1 hm)
  · intro h u t v m f hq hm
    exact h u t v m f hq ((hu u m).2 hm)

/-- `b` goes on to stand for the same request when a stage reads it before the next
function. -/
theorem folded_request_kept_when_read :
    ∃ b c r, bindStages .standard ⟨0, 0⟩
        [⟨some "a", .select ⟨"cpu", none, [], []⟩, ⟨1, 1⟩⟩,
          ⟨some "b", .aggregate ⟨"max", some ["a"], []⟩, ⟨1, 17⟩⟩] = .ok b ∧
      bindStages .standard ⟨0, 0⟩
        ([⟨some "a", .select ⟨"cpu", none, [], []⟩, ⟨1, 1⟩⟩,
          ⟨some "b", .aggregate ⟨"max", some ["a"], []⟩, ⟨1, 17⟩⟩] ++
          [⟨some "u", .aggregate ⟨"union", some ["b"], []⟩, ⟨1, 32⟩⟩,
          ⟨some "c", .aggregate ⟨"min", some ["a"], []⟩, ⟨1, 49⟩⟩]) = .ok c ∧
      b.find? "b" = some 0 ∧ b.work? 0 = some (.ask r) ∧ c.find? "b" = some 0 ∧
      (c.work? 0 = some (.ask r) ↔
        ∀ u t v m f, [⟨some "u", .aggregate ⟨"union", some ["b"], []⟩, ⟨1, 32⟩⟩,
          ⟨some "c", .aggregate ⟨"min", some ["a"], []⟩, ⟨1, 49⟩⟩] = u ++ t :: v →
          bindStages .standard ⟨0,
            0⟩ ([⟨some "a", .select ⟨"cpu", none, [], []⟩, ⟨1, 1⟩⟩,
          ⟨some "b", .aggregate ⟨"max", some ["a"], []⟩, ⟨1, 17⟩⟩] ++ u) = .ok m →
          ¬ m.FoldsInto t 0 f) := by
  refine ⟨_, _, _, rfl, rfl, rfl, rfl, rfl, ?_⟩
  exact (folded_request_kept_iff .standard ⟨0, 0⟩ _ _ "b" 0 _ _ _ rfl rfl rfl rfl).2.2

/-- After `a = select cpu; b = max(of a)`, `b` stands for one function over the request,
and in the end of `a = select cpu; b = max(of a); c = min(of a); union(of b)` for
two. -/
theorem folded_request_changed :
    ∃ b c p, bindStages .standard ⟨0, 0⟩
        [⟨some "a", .select ⟨"cpu", none, [], []⟩, ⟨1, 1⟩⟩,
          ⟨some "b", .aggregate ⟨"max", some ["a"], []⟩, ⟨1, 17⟩⟩] = .ok b ∧
      bindStages .standard ⟨0, 0⟩
        [⟨some "a", .select ⟨"cpu", none, [], []⟩, ⟨1, 1⟩⟩,
          ⟨some "b", .aggregate ⟨"max", some ["a"], []⟩, ⟨1, 17⟩⟩,
          ⟨some "c", .aggregate ⟨"min", some ["a"], []⟩, ⟨1, 32⟩⟩,
          ⟨none, .aggregate ⟨"union", some ["b"], []⟩, ⟨1, 47⟩⟩] = .ok c ∧
      Statement.plan .standard ⟨0, 0⟩
        ⟨[⟨some "a", .select ⟨"cpu", none, [], []⟩, ⟨1, 1⟩⟩,
          ⟨some "b", .aggregate ⟨"max", some ["a"], []⟩, ⟨1, 17⟩⟩,
          ⟨some "c", .aggregate ⟨"min", some ["a"], []⟩, ⟨1, 32⟩⟩,
          ⟨none, .aggregate ⟨"union", some ["b"], []⟩, ⟨1, 47⟩⟩]⟩ = .ok p ∧
      b.find? "b" = some 0 ∧ c.find? "b" = some 0 ∧
      ((b.work? 0).bind Work.request?).map weight = some 1 ∧
      ((c.work? 0).bind Work.request?).map weight = some 2 ∧ b.work? 0 ≠ c.work? 0 := by
  refine ⟨_, _, _, rfl, rfl, rfl, rfl, rfl, rfl, rfl, ?_⟩
  intro h
  have hw := congrArg (fun w => (w.bind Work.request?).map weight) h
  exact absurd hw (by decide +kernel)

end SeriesQuery.Binding
