import SeriesQuery.Plan.Walk
import SeriesQuery.Proofs.Plan.Lifting
import SeriesQuery.Proofs.Execution.Agreement

/-!
# Walks through a plan

A walk finds every stage that a plan needs and finds it once.  So does the description
of the plan, which lists the stages by their numbers: both have the same stages, and the
same requests up to their order.

## Main results

* `mem_inOrder`, `nodup_inOrder`: the walk finds what a stage needs, each number once.
* `requests_perm`: the description lists the requests of the walk.
* `plan_leaf`: in a plan, a stage that asks the backend has no inputs.
-/

namespace SeriesQuery

open SeriesQuery.Backend (Request)
open SeriesQuery.Time (Instant)

/-! ## Stages that ask the backend -/

namespace Binding

variable {combiners : Combiners} {now : Instant} {b b' : Binding} {s : Stage}

private theorem Binds.leaf (h : Binds combiners now b s b') (hb : b.Leaf) :
    b'.Leaf := by
  cases h with
  | request x range hs hrange =>
      exact Leaf.grow (b := { b with range := range }) hb (fun _ _ => rfl)
  | folded a d i r hs hname hsrc hwork hd hread =>
      exact Leaf.fold (b := b.warn _) hb hwork
  | copied a d i r hs hname hsrc hwork hd hread =>
      exact Leaf.grow (b := b.warn _) hb fun _ _ => rfl
  | combined a d inputs hs hsrc hnone hd =>
      exact Leaf.grow (b := b.warn _) hb fun r hr => by cases hr

private theorem leaf_bindStages {ss : List Stage}
    (h : bindStages combiners now ss = .ok b) : b.Leaf :=
  bindMore_preserves (P := Leaf) (fun hb _ hstep => hstep.leaf hb) h
    (fun i d r hd => by cases hd)

end Binding

/-- In a plan, a stage that asks the backend reads no other. -/
theorem Statement.plan_leaf {combiners : Combiners} {now : Instant} {s : Statement}
    {p : Plan} (h : s.plan combiners now = .ok p) {n : Node} (hn : p.terminal.Reaches n)
    {r : Request} (hr : n.work = .ask r) : n.inputs = [] := by
  obtain ⟨b, i, hb, -, hterminal, -, -⟩ := Binding.plan_eq_ok h
  have hordered := Binding.ordered_bindStages hb
  have hfinished := Binding.finished_of_reaches hordered hn hterminal
  obtain ⟨d, hd, heq⟩ := Binding.exists_of_finished hordered hfinished
  have hleaf : d.work = .ask r → d.inputs = [] := Binding.leaf_bindStages hb _ d r hd
  rw [heq] at hr ⊢
  rw [Node.inputs, hleaf hr]
  rfl

namespace Execution

variable {graph : Node → Prop} {done seen : List Node} {root n m k : Node}
  {ns : List Node}

/-! ## Walks -/

private theorem walk_eq : n.walk done =
    if done.any fun m => m.id == n.id then done
    else Node.walkAll done n.inputs ++ [n] := by
  cases n with
  | mk i name work inputs => rw [Node.walk, Node.id, Node.inputs]

mutual

/-- A walk goes on from where it is. -/
theorem prefix_walk (done : List Node) : (n : Node) → done <+: n.walk done
  | .mk i name work inputs => by
      rw [Node.walk]
      split
      · exact List.prefix_refl done
      · exact (prefix_walkAll done inputs).trans (List.prefix_append _ _)

/-- The same of several stages. -/
theorem prefix_walkAll (done : List Node) : (ns : List Node) →
    done <+: Node.walkAll done ns
  | [] => by rw [Node.walkAll]
  | n :: ns => by
      rw [Node.walkAll]
      exact (prefix_walk done n).trans (prefix_walkAll (n.walk done) ns)

end

/-- Stages of a graph with all they need, each once. -/
structure Complete (graph : Node → Prop) (done : List Node) : Prop where
  within : ∀ m ∈ done, graph m
  inputs : ∀ m ∈ done, ∀ k ∈ m.inputs, k ∈ done
  distinct : (done.map Node.id).Nodup

theorem Complete.nil : Complete graph [] := ⟨by simp, by simp, by simp⟩

theorem Complete.reaches (h : Complete graph done) (hm : m ∈ done) (hk : m.Reaches k) :
    k ∈ done := by
  induction hk with
  | refl m => exact hm
  | input hinput _ ih => exact ih (h.inputs _ hm _ hinput)

/-- A walk knows a stage by its number. -/
theorem any_id_iff (hnumbered : Numbered graph) (h : ∀ m ∈ done, graph m)
    (hn : graph n) : (done.any fun m => m.id == n.id) = true ↔ n ∈ done := by
  rw [List.any_eq_true]
  constructor
  · rintro ⟨m, hm, hid⟩
    have hsame : m = n := hnumbered m n (h m hm) hn (by simpa using hid)
    exact hsame ▸ hm
  · intro hmem
    exact ⟨n, hmem, by simp⟩

theorem walk_of_mem (hnumbered : Numbered graph) (h : ∀ m ∈ done, graph m)
    (hn : graph n) (hmem : n ∈ done) : n.walk done = done := by
  rw [walk_eq, if_pos ((any_id_iff hnumbered h hn).2 hmem)]

theorem walk_of_not_mem (hnumbered : Numbered graph) (h : ∀ m ∈ done, graph m)
    (hn : graph n) (hmem : n ∉ done) :
    n.walk done = Node.walkAll done n.inputs ++ [n] := by
  rw [walk_eq, if_neg fun hany => hmem ((any_id_iff hnumbered h hn).1 hany)]

theorem reaches_iff : n.Reaches k ↔ k = n ∨ ∃ m ∈ n.inputs, m.Reaches k := by
  constructor
  · intro h
    cases h with
    | refl => exact Or.inl rfl
    | input hm hk => exact Or.inr ⟨_, hm, hk⟩
  · rintro (rfl | ⟨m, hm, hk⟩)
    · exact .refl k
    · exact .input hm hk

theorem graph_of_reaches (hclosed : Closed graph) (hn : graph n) (h : n.Reaches k) :
    graph k := by
  induction h with
  | refl n => exact hn
  | input hm _ ih => exact ih (hclosed _ hn _ hm)

/-- What a stage needs costs less than the stage. -/
theorem cost_le_of_reaches (h : n.Reaches k) : cost k ≤ cost n := by
  induction h with
  | refl n => exact Nat.le_refl _
  | input hm _ ih => exact Nat.le_of_lt (Nat.lt_of_le_of_lt ih (cost_lt_of_mem hm))

/-- No stage needs a stage that needs it. -/
theorem not_reaches_of_mem (hm : m ∈ n.inputs) : ¬ m.Reaches n := by
  intro h
  have hle := cost_le_of_reaches h
  have hlt := cost_lt_of_mem hm
  omega

mutual

/-- A walk is done with what it was done with and with all that the stage needs. -/
theorem walk_complete (hclosed : Closed graph) (hnumbered : Numbered graph) :
    (n : Node) → ∀ {done : List Node}, graph n → Complete graph done →
      Complete graph (n.walk done) ∧ ∀ k, k ∈ n.walk done ↔ k ∈ done ∨ n.Reaches k
  | .mk i name work inputs, done, hn, h => by
      by_cases hmem : Node.mk i name work inputs ∈ done
      · rw [walk_of_mem hnumbered h.within hn hmem]
        refine ⟨h, fun k => ⟨Or.inl, ?_⟩⟩
        rintro (hk | hk)
        · exact hk
        · exact h.reaches hmem hk
      · rw [walk_of_not_mem hnumbered h.within hn hmem]
        obtain ⟨hcomplete, hiff⟩ :=
          walkAll_complete hclosed hnumbered inputs (fun m hm => hclosed _ hn m hm) h
        have hnot : Node.mk i name work inputs ∉ Node.walkAll done inputs := by
          rw [hiff]
          rintro (hk | ⟨m, hm, hk⟩)
          · exact hmem hk
          · exact not_reaches_of_mem (n := .mk i name work inputs) hm hk
        refine ⟨⟨?_, ?_, ?_⟩, ?_⟩
        · intro m hm
          rcases List.mem_append.1 hm with hm | hm
          · exact hcomplete.within m hm
          · exact (List.mem_singleton.1 hm) ▸ hn
        · intro m hm k hk
          rcases List.mem_append.1 hm with hm | hm
          · exact List.mem_append_left _ (hcomplete.inputs m hm k hk)
          · rw [List.mem_singleton.1 hm] at hk
            exact List.mem_append_left _ ((hiff k).2 (Or.inr ⟨k, hk, .refl k⟩))
        · rw [List.map_append, List.nodup_append]
          refine ⟨hcomplete.distinct, by simp, ?_⟩
          intro a ha b hb hab
          obtain ⟨m, hm, rfl⟩ := List.mem_map.1 ha
          rw [List.map_singleton, List.mem_singleton] at hb
          have hsame := hnumbered m _ (hcomplete.within m hm) hn (hab.trans hb)
          exact hnot (hsame ▸ hm)
        · intro k
          rw [List.mem_append, List.mem_singleton,
            reaches_iff (n := .mk i name work inputs)]
          simp only [Node.inputs, hiff]
          rw [or_assoc]
          exact or_congr_right or_comm

/-- The same of several stages. -/
theorem walkAll_complete (hclosed : Closed graph) (hnumbered : Numbered graph) :
    (ns : List Node) → ∀ {done : List Node}, (∀ n ∈ ns, graph n) → Complete graph done →
      Complete graph (Node.walkAll done ns) ∧
        ∀ k, k ∈ Node.walkAll done ns ↔ k ∈ done ∨ ∃ n ∈ ns, n.Reaches k
  | [], done, _, h => by
      rw [Node.walkAll]
      exact ⟨h, by simp⟩
  | n :: ns, done, hns, h => by
      rw [Node.walkAll]
      obtain ⟨hcomplete, hiff⟩ :=
        walk_complete hclosed hnumbered n (hns n List.mem_cons_self) h
      obtain ⟨hcomplete', hiff'⟩ := walkAll_complete hclosed hnumbered ns
        (fun m hm => hns m (List.mem_cons_of_mem _ hm)) hcomplete
      refine ⟨hcomplete', fun k => ?_⟩
      rw [hiff', hiff]
      simp only [List.mem_cons, exists_eq_or_imp]
      exact or_assoc

end

/-- **The walk finds what a stage needs.** -/
theorem mem_inOrder (hroot : root.Distinct) : m ∈ root.inOrder ↔ root.Reaches m := by
  have h := (walk_complete (closed_reaches root) hroot root (.refl root) .nil).2 m
  simpa [Node.inOrder] using h

/-- The walk finds every number once. -/
theorem nodup_inOrder (hroot : root.Distinct) : (root.inOrder.map Node.id).Nodup :=
  (walk_complete (closed_reaches root) hroot root (.refl root) .nil).1.distinct

/-! ## Descriptions -/

theorem mem_place : m ∈ n.place ns ↔ m = n ∨ m ∈ ns := by
  induction ns with
  | nil => simp [Node.place]
  | cons k ns ih =>
      rw [Node.place]
      split
      · simp
      · simp only [List.mem_cons, ih]
        tauto

private theorem perm_place : (n.place ns).Perm (n :: ns) := by
  induction ns with
  | nil => exact .refl _
  | cons k ns ih =>
      rw [Node.place]
      split
      · exact .refl _
      · exact (ih.cons k).trans (.swap n k ns)

theorem gather_eq : n.gather seen =
    if seen.any fun m => m.id == n.id then seen
    else Node.gatherAll (n.place seen) n.inputs := by
  cases n with
  | mk i name work inputs => rw [Node.gather, Node.id, Node.inputs]

/-- Stages that have been gathered, each once; those in `pending` may still lack
inputs. -/
structure Gathered (graph : Node → Prop) (pending : Node → Prop)
    (seen : List Node) : Prop where
  within : ∀ m ∈ seen, graph m
  inputs : ∀ m ∈ seen, pending m ∨ ∀ k ∈ m.inputs, k ∈ seen
  distinct : (seen.map Node.id).Nodup

mutual

/-- Gathering a stage adds what it needs and nothing else. -/
theorem gather_gathered (hclosed : Closed graph) (hnumbered : Numbered graph) :
    (n : Node) → ∀ {pending : Node → Prop} {seen : List Node}, graph n →
      Gathered graph pending seen →
      Gathered graph pending (n.gather seen) ∧ n ∈ n.gather seen ∧
        (∀ m ∈ seen, m ∈ n.gather seen) ∧ ∀ m ∈ n.gather seen, m ∈ seen ∨ n.Reaches m
  | .mk i name work inputs, pending, seen, hn, h => by
      rw [gather_eq]
      by_cases hmem : Node.mk i name work inputs ∈ seen
      · rw [if_pos ((any_id_iff hnumbered h.within hn).2 hmem)]
        exact ⟨h, hmem, fun m hm => hm, fun m hm => Or.inl hm⟩
      · rw [if_neg fun hany => hmem ((any_id_iff hnumbered h.within hn).1 hany)]
        have hplaced : Gathered graph (fun m => pending m ∨ m = .mk i name work inputs)
            ((Node.mk i name work inputs).place seen) := by
          refine ⟨?_, ?_, ?_⟩
          · intro m hm
            rcases mem_place.1 hm with rfl | hm
            · exact hn
            · exact h.within m hm
          · intro m hm
            rcases mem_place.1 hm with rfl | hm
            · exact Or.inl (Or.inr rfl)
            · rcases h.inputs m hm with hpending | hall
              · exact Or.inl (Or.inl hpending)
              · exact Or.inr fun k hk => mem_place.2 (Or.inr (hall k hk))
          · rw [(perm_place.map Node.id).nodup_iff, List.map_cons, List.nodup_cons]
            refine ⟨?_, h.distinct⟩
            intro hid
            obtain ⟨m, hm, hid⟩ := List.mem_map.1 hid
            exact hmem (hnumbered m _ (h.within m hm) hn hid ▸ hm)
        obtain ⟨hall, hinputs, hkept, hnew⟩ :=
          gatherAll_gathered hclosed hnumbered inputs
            (fun m hm => hclosed _ hn m hm) hplaced
        refine ⟨⟨hall.within, ?_, hall.distinct⟩, hkept _ (mem_place.2 (Or.inl rfl)),
          fun m hm => hkept m (mem_place.2 (Or.inr hm)), ?_⟩
        · intro m hm
          rcases hall.inputs m hm with (hpending | rfl) | hin
          · exact Or.inl hpending
          · exact Or.inr hinputs
          · exact Or.inr hin
        · intro m hm
          rcases hnew m hm with hold | ⟨k, hk, hreach⟩
          · rcases mem_place.1 hold with rfl | hold
            · exact Or.inr (.refl _)
            · exact Or.inl hold
          · exact Or.inr (.input (n := .mk i name work inputs) hk hreach)

/-- The same of several stages. -/
theorem gatherAll_gathered (hclosed : Closed graph) (hnumbered : Numbered graph) :
    (ns : List Node) →
      ∀ {pending : Node → Prop} {seen : List Node}, (∀ n ∈ ns, graph n) →
      Gathered graph pending seen →
      Gathered graph pending (Node.gatherAll seen ns) ∧
        (∀ n ∈ ns, n ∈ Node.gatherAll seen ns) ∧
        (∀ m ∈ seen, m ∈ Node.gatherAll seen ns) ∧
        ∀ m ∈ Node.gatherAll seen ns, m ∈ seen ∨ ∃ n ∈ ns, n.Reaches m
  | [], pending, seen, _, h => by
      rw [Node.gatherAll]
      exact ⟨h, by simp, fun m hm => hm, fun m hm => Or.inl hm⟩
  | n :: ns, pending, seen, hns, h => by
      rw [Node.gatherAll]
      obtain ⟨hfirst, hmem, hkept, hnew⟩ :=
        gather_gathered hclosed hnumbered n (hns n List.mem_cons_self) h
      obtain ⟨hall, hmems, hkept', hnew'⟩ := gatherAll_gathered hclosed hnumbered ns
        (fun m hm => hns m (List.mem_cons_of_mem _ hm)) hfirst
      refine ⟨hall, ?_, fun m hm => hkept' m (hkept m hm), ?_⟩
      · intro m hm
        rcases List.mem_cons.1 hm with rfl | hm
        · exact hkept' m hmem
        · exact hmems m hm
      · intro m hm
        rcases hnew' m hm with hold | ⟨k, hk, hreach⟩
        · rcases hnew m hold with hold | hreach
          · exact Or.inl hold
          · exact Or.inr ⟨n, List.mem_cons_self, hreach⟩
        · exact Or.inr ⟨k, List.mem_cons_of_mem _ hk, hreach⟩

end

private theorem gathered_reachable (hroot : root.Distinct) :
    Gathered root.Reaches (fun _ => False) root.reachable ∧ root ∈ root.reachable := by
  have hnone : Gathered root.Reaches (fun _ => False) [] := ⟨by simp, by simp, by simp⟩
  obtain ⟨h, hmem, -, -⟩ :=
    gather_gathered (closed_reaches root) hroot root (.refl root) hnone
  exact ⟨h, hmem⟩

/-- **A description finds what a stage needs.** -/
theorem mem_reachable (hroot : root.Distinct) : m ∈ root.reachable ↔
    root.Reaches m := by
  obtain ⟨h, hmem⟩ := gathered_reachable hroot
  constructor
  · exact h.within m
  · intro hreach
    have hall : ∀ n k, n.Reaches k → n ∈ root.reachable → k ∈ root.reachable := by
      intro n k hnk
      induction hnk with
      | refl n => exact fun hn => hn
      | input hm _ ih =>
          intro hn
          rcases h.inputs _ hn with hpending | hinputs
          · exact hpending.elim
          · exact ih (hinputs _ hm)
    exact hall root m hreach hmem

/-- A walk and a description find the same stages. -/
theorem inOrder_perm (hroot : root.Distinct) : root.inOrder.Perm root.reachable := by
  refine (List.perm_ext_iff_of_nodup ?_ ?_).2 fun m => ?_
  · exact (nodup_inOrder hroot).of_map
  · exact (gathered_reachable hroot).1.distinct.of_map
  · rw [mem_inOrder hroot, mem_reachable hroot]

private theorem requests_eq (p : Plan) :
    p.requests = requestsOf p.terminal.reachable := by
  rw [Plan.requests, Plan.describe, List.filterMap_map]
  rfl

/-- **A description lists the requests of the walk.** -/
theorem requests_perm {p : Plan} (hroot : p.terminal.Distinct) :
    (requestsOf p.terminal.inOrder).Perm p.requests := by
  rw [requests_eq]
  exact (inOrder_perm hroot).filterMap _

end Execution

end SeriesQuery
