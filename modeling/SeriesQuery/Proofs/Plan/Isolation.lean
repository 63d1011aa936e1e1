import SeriesQuery.Proofs.Plan.Sharing

/-!
# Stages that are read stay as they were

A function of the backend is folded only into a request that no stage reads.  So a stage
that some stage reads is final, and so is a stage that combines: nothing folds into it
and no name is given to it later.  The inputs of a final stage are final, hence all that
is finished from it.

## Main results

* `Fixed.kept`: later stages leave a final stage as it was.
* `requestFault?_of_bindMore`: the requests of a statement can be sent when those of a
  longer one can.
* `Statement.read_stages_isolated`: what a combining stage reads is the same in every
  longer statement.
-/

namespace SeriesQuery

open SeriesQuery.Backend
open SeriesQuery.Time (Instant)

/-! ## Validity of a request with fewer functions -/

private theorem Backend.Metric.faults_of_aggregators {m : Metric} {f : Aggregator}
    {i : Nat}
    (h : ({ m with aggregators := m.aggregators ++ [f] } : Metric).faults i = []) :
    m.faults i = [] := by
  simp only [Metric.faults, List.filter_append, List.map_append,
    List.append_eq_nil_iff] at h ⊢
  exact ⟨⟨h.1.1, h.1.2.1⟩, h.2⟩

/-- A function of the backend takes no fault away. -/
theorem Binding.isValid_of_aggregated {r : Request} {f : Aggregator}
    (h : (aggregated r f).isValid = true) : r.isValid = true := by
  simp only [Request.isValid, Request.faults, aggregated, List.isEmpty_iff,
    List.append_eq_nil_iff, List.flatMap_eq_nil_iff, List.isEmpty_map,
    List.zipIdx_map] at h ⊢
  refine ⟨h.1, fun e he => ?_⟩
  exact Metric.faults_of_aggregators (h.2 _ (List.mem_map_of_mem he))

namespace Binding

variable {combiners : Combiners} {now : Instant} {b b' : Binding} {s : Stage}

/-! ## Final stages -/

/-- Whether nothing changes a stage any more: some stage reads it, or it combines what
it reads. -/
def Fixed (b : Binding) (i : Nat) : Prop :=
  b.isRead i = true ∨ ∃ c, b.work? i = some (.combine c)

private theorem Fixed.of_input {i j : Nat} {d : DraftNode} (hd : b.nodes[i]? = some d)
    (hj : j ∈ d.inputs) : b.Fixed j := by
  left
  simp only [isRead, List.any_eq_true]
  exact ⟨d, List.mem_of_getElem? hd, by simpa using hj⟩

/-- One more stage leaves a final stage as it was, and final. -/
theorem Fixed.step {i : Nat} {d : DraftNode} (hf : b.Fixed i)
    (hd : b.nodes[i]? = some d) (h : Binds combiners now b s b') :
    b'.Fixed i ∧ b'.nodes[i]? = some d := by
  have hkept : b'.nodes[i]? = some d := by
    rcases h.node_kept hd with hd' | ⟨r, f, hask, -, hunread, -⟩
    · exact hd'
    · rcases hf with hread | ⟨c, hc⟩
      · rw [hread] at hunread
        cases hunread
      · rw [work?, hd, Option.map_some, hask] at hc
        cases hc
  refine ⟨?_, hkept⟩
  rcases hf with hread | ⟨c, hc⟩
  · exact Or.inl (h.isRead_mono hread)
  · right
    refine ⟨c, ?_⟩
    rw [work?, hkept, ← hc, work?, hd]

/-- Any number of stages leaves a final stage as it was. -/
theorem Fixed.kept {i : Nat} {d : DraftNode} {ss : List Stage} (hf : b.Fixed i)
    (hd : b.nodes[i]? = some d) (h : bindMore combiners now b ss = .ok b') :
    b'.nodes[i]? = some d := by
  have hboth : b'.Fixed i ∧ b'.nodes[i]? = some d :=
    bindMore_preserves (P := fun c => c.Fixed i ∧ c.nodes[i]? = some d)
      (fun hb _ hstep => hb.1.step hb.2 hstep) h ⟨hf, hd⟩
  exact hboth.2

/-- A stage that is read exists. -/
theorem Ordered.lt_of_isRead (ho : b.Ordered) {i : Nat} (h : b.isRead i = true) :
    i < b.nodes.length := by
  simp only [isRead, List.any_eq_true] at h
  obtain ⟨d, hd, hin⟩ := h
  obtain ⟨k, hk⟩ := List.mem_iff_getElem?.1 hd
  have hik := ho.inputs k d hk i (by simpa using hin)
  exact Nat.lt_trans hik (List.getElem?_eq_some_iff.1 hk).1

/-- All that is finished from a final stage stays the same. -/
theorem Fixed.finished_eq (ho : b.Ordered) {ss : List Stage}
    (h : bindMore combiners now b ss = .ok b') {i : Nat} (hf : b.Fixed i)
    (hi : i < b.nodes.length) : b'.finished[i]? = b.finished[i]? :=
  finished_agree ho (ordered_bindMore h ho) (S := b.Fixed)
    (fun _ _ _ hd _ hj => Fixed.of_input hd hj) (fun _ _ hS hd => hS.kept hd h) i hf hi

/-! ## Requests that cannot be sent -/

private theorem requestFault?_eq_none :
    b.requestFault? = none ↔
      ∀ (i : Nat) (d : DraftNode) (r : Request), b.nodes[i]? = some d →
        d.work = .ask r → r.isValid = true := by
  simp only [requestFault?, List.findSome?_eq_none_iff]
  constructor
  · intro h i d r hd hr
    have hd' := h d (List.mem_of_getElem? hd)
    rw [hr] at hd'
    by_cases hv : r.isValid = true
    · exact hv
    · simp [Work.request?, hv] at hd'
  · intro h d hd
    obtain ⟨i, hi⟩ := List.mem_iff_getElem?.1 hd
    cases hw : d.work with
    | ask r => simp [Work.request?, h i d r hi hw]
    | combine c => rfl

/-- A fault of an earlier stage's request stays one. -/
theorem Binds.requestFault?_back (h : Binds combiners now b s b')
    (hb : b'.requestFault? = none) : b.requestFault? = none := by
  rw [requestFault?_eq_none] at hb ⊢
  intro i d r hd hr
  rcases h.node_kept hd with hd' | ⟨r', f, hask, -, -, hd'⟩
  · exact hb i d r hd' hr
  · rw [hr] at hask
    cases hask
    exact isValid_of_aggregated (hb i _ (aggregated r f) hd' rfl)

theorem requestFault?_of_bindMore {ss : List Stage}
    (h : bindMore combiners now b ss = .ok b') (hb : b'.requestFault? = none) :
    b.requestFault? = none := by
  induction ss generalizing b with
  | nil =>
      cases h
      exact hb
  | cons s ss ih =>
      obtain ⟨c, hc, h⟩ := bindMore_cons_ok h
      exact (bindStage_binds hc).2.requestFault?_back (ih h)

end Binding

/-! ## Longer statements -/

/-- A statement that binds to valid requests has the plan that ends in its last
stage. -/
theorem Statement.plan_of_bindStages {combiners : Combiners} {now : Instant}
    {s : Statement} {b : Binding} {i : Nat} {n : Node}
    (hb : Binding.bindStages combiners now s.stages = .ok b) (hi : b.previous = some i)
    (hn : b.finished[i]? = some n) (hfault : b.requestFault? = none) :
    s.plan combiners now = .ok ⟨n, b.warnings⟩ := by
  simp [Statement.plan, hb, hi, hn, hfault, bind, Except.bind]

/-- **Isolation.**  Whatever stages follow, a stage that is read already stays as it is.
So when the last stage of a statement combines and a longer statement has a plan, the
shorter has a plan too, and wherever the longer plan mentions that stage it is the
shorter plan's last stage with all below it. -/
theorem Statement.read_stages_isolated (combiners : Combiners) (now : Instant)
    (p q : List Stage) :
    (∀ b c, Binding.bindStages combiners now p = .ok b →
      Binding.bindStages combiners now (p ++ q) = .ok c →
      ∀ i, b.isRead i = true → c.nodes[i]? = b.nodes[i]?) ∧
    (∀ longer, Statement.plan combiners now ⟨p ++ q⟩ = .ok longer →
      (∀ b, Binding.bindStages combiners now p = .ok b →
        ∃ c, b.previous.bind b.work? = some (.combine c)) →
      ∃ shorter, Statement.plan combiners now ⟨p⟩ = .ok shorter ∧
        ∀ n, longer.terminal.Reaches n → n.id = shorter.terminal.id →
          n = shorter.terminal) := by
  constructor
  · intro b c hb hc i hread
    obtain ⟨b', hb', hmore⟩ := Binding.bindStages_append_ok hc
    rw [hb] at hb'
    cases hb'
    have hi := (Binding.ordered_bindStages hb).lt_of_isRead hread
    have hd := List.getElem?_eq_getElem hi
    rw [hd]
    exact Binding.Fixed.kept (Or.inl hread) hd hmore
  · intro longer hlonger hlast
    obtain ⟨c, k, hc, -, hk, hfault, -⟩ := Binding.plan_eq_ok hlonger
    obtain ⟨b, hb, hmore⟩ := Binding.bindStages_append_ok hc
    obtain ⟨comb, hcomb⟩ := hlast b hb
    obtain ⟨i, hi, hwork⟩ := Option.bind_eq_some_iff.1 hcomb
    have ho := Binding.ordered_bindStages hb
    have hlt := ho.previous i hi
    obtain ⟨n, hn⟩ : ∃ n, b.finished[i]? = some n :=
      ⟨_, List.getElem?_eq_getElem (by rwa [Binding.length_finished])⟩
    refine ⟨⟨n, b.warnings⟩, plan_of_bindStages hb hi hn
      (Binding.requestFault?_of_bindMore hmore hfault), ?_⟩
    intro m hm hid
    have hm' := Binding.finished_of_reaches (Binding.ordered_bindStages hc) hm hk
    have hsame := Binding.Fixed.finished_eq ho hmore (Or.inr ⟨comb, hwork⟩) hlt
    obtain ⟨d, -, rfl⟩ := Binding.exists_of_finished ho hn
    rw [hid] at hm'
    rw [Node.id, hsame, hn] at hm'
    exact (Option.some.inj hm').symm

/-- The input of the union is still the plain request when the same request is
aggregated later. -/
theorem Statement.read_stages_isolated_union :
    ∃ longer shorter,
      Statement.plan .standard ⟨0, 0⟩
        ⟨[⟨some "a", .select ⟨"cpu", none, [], []⟩, ⟨1, 1⟩⟩,
          ⟨some "u", .aggregate ⟨"union", some ["a"], []⟩, ⟨1, 17⟩⟩] ++
          [⟨some "m", .aggregate ⟨"max", some ["a"], []⟩, ⟨1, 34⟩⟩,
          ⟨none, .aggregate ⟨"union", some ["u", "m"], []⟩, ⟨1, 49⟩⟩]⟩ = .ok longer ∧
      Statement.plan .standard ⟨0, 0⟩
        ⟨[⟨some "a", .select ⟨"cpu", none, [], []⟩, ⟨1, 1⟩⟩,
          ⟨some "u", .aggregate ⟨"union", some ["a"], []⟩, ⟨1, 17⟩⟩]⟩ = .ok shorter ∧
      ∀ n, longer.terminal.Reaches n → n.id = shorter.terminal.id →
        n = shorter.terminal := by
  have hlonger : ∃ longer, Statement.plan .standard ⟨0, 0⟩
        ⟨[⟨some "a", .select ⟨"cpu", none, [], []⟩, ⟨1, 1⟩⟩,
          ⟨some "u", .aggregate ⟨"union", some ["a"], []⟩, ⟨1, 17⟩⟩] ++
          [⟨some "m", .aggregate ⟨"max", some ["a"], []⟩, ⟨1, 34⟩⟩,
          ⟨none, .aggregate ⟨"union", some ["u", "m"], []⟩, ⟨1, 49⟩⟩]⟩ =
          .ok longer := ⟨_, rfl⟩
  obtain ⟨longer, hlonger⟩ := hlonger
  obtain ⟨shorter, hshorter, hsame⟩ :=
    (Statement.read_stages_isolated _ _ _ _).2 longer hlonger (by
      intro b hb
      obtain ⟨b', hb', hlast⟩ : ∃ b', Binding.bindStages .standard ⟨0, 0⟩
          [⟨some "a", .select ⟨"cpu", none, [], []⟩, ⟨1, 1⟩⟩,
            ⟨some "u", .aggregate ⟨"union", some ["a"], []⟩, ⟨1, 17⟩⟩] = .ok b' ∧
          b'.previous.bind b'.work? = some (.combine .union) := ⟨_, rfl, rfl⟩
      rw [hb] at hb'
      cases hb'
      exact ⟨_, hlast⟩)
  exact ⟨longer, shorter, hlonger, hshorter, hsame⟩

end SeriesQuery
