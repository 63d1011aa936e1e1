import Mathlib.Data.List.Basic
import Mathlib.Data.List.Induction
import SeriesQuery.Proofs.Plan.Step

/-!
# Finished plans as shared graphs

A plan under construction is a list of stages whose inputs are numbers; a finished plan
is a tree in which a stage stands wherever it is read.  The two are the same graph: the
stage of number `i` is finished from the `i`-th entry of the list and the finished
stages of its inputs.  So stages of one number are equal wherever a plan mentions them,
and what is finished from entries that stay the same stays the same.

## Main results

* `getElem?_finished`: one equation for every finished stage.
* `Statement.plan_distinct`: in a plan, stages of one number are the same stage.
* `finished_agree`: equal entries below a stage give equal finished stages.
-/

namespace SeriesQuery

open Fallible
open SeriesQuery.Time (Instant)

/-! ## Stages within a stage -/

/-- Whether a stage needs a stage: it is the stage itself, or one of its inputs needs
it. -/
inductive Node.Reaches : Node → Node → Prop
  | refl (n : Node) : Reaches n n
  | input {n m k : Node} : m ∈ n.inputs → Reaches m k → Reaches n k

theorem Node.Reaches.trans {n m k : Node} (h : n.Reaches m) (h' : m.Reaches k) :
    n.Reaches k := by
  induction h with
  | refl n => exact h'
  | input hm _ ih => exact .input hm (ih h')

/-- Stages of one number are the same stage. -/
def Node.Distinct (root : Node) : Prop :=
  ∀ a b, root.Reaches a → root.Reaches b → a.id = b.id → a = b

namespace Binding

/-! ## Finishing -/

/-- The stages finished from some entries. -/
def finishAll (ds : List DraftNode) : List Node := ds.foldl finishNode []

private theorem finishAll_concat (ds : List DraftNode) (d : DraftNode) :
    finishAll (ds ++ [d]) = finishNode (finishAll ds) d := by
  simp [finishAll]

theorem length_finishAll (ds : List DraftNode) : (finishAll ds).length = ds.length := by
  induction ds using List.reverseRecOn with
  | nil => rfl
  | append_singleton ds d ih => simp [finishAll_concat, finishNode, ih]

private theorem Forward.of_concat {ds : List DraftNode} {d : DraftNode}
    (h : Forward (ds ++ [d])) : Forward ds := by
  intro i e he
  apply h i e
  rw [List.getElem?_append_left (List.getElem?_eq_some_iff.1 he).1, he]

private theorem getElem?_finishAll {ds : List DraftNode} (h : Forward ds) {i : Nat}
    {d : DraftNode} (hd : ds[i]? = some d) :
    (finishAll ds)[i]? =
      some (.mk i d.name d.work (d.inputs.filterMap fun j => (finishAll ds)[j]?)) := by
  induction ds using List.reverseRecOn with
  | nil => cases hd
  | append_singleton ds e ih =>
      have hearlier :
          ∀ j, j < ds.length → (finishAll (ds ++ [e]))[j]? = (finishAll ds)[j]? := by
        intro j hj
        rw [finishAll_concat, finishNode,
          List.getElem?_append_left (by rwa [length_finishAll])]
      have hi : i < (ds ++ [e]).length := (List.getElem?_eq_some_iff.1 hd).1
      have hle : i ≤ ds.length := by
        rw [List.length_append, List.length_singleton] at hi
        omega
      have hinputs : (d.inputs.filterMap fun j => (finishAll (ds ++ [e]))[j]?) =
          d.inputs.filterMap fun j => (finishAll ds)[j]? := by
        apply List.filterMap_congr
        intro j hj
        exact hearlier j (Nat.lt_of_lt_of_le (h i d hd j hj) hle)
      rw [hinputs]
      rcases Nat.lt_or_eq_of_le hle with hlt | rfl
      · rw [List.getElem?_append_left hlt] at hd
        rw [hearlier i hlt]
        exact ih h.of_concat hd
      · rw [List.getElem?_concat_length] at hd
        cases hd
        rw [finishAll_concat, finishNode, ← length_finishAll ds,
          List.getElem?_concat_length]

variable {combiners : Combiners} {now : Instant} {b b' : Binding}

/-- **The equation of a finished stage.** -/
theorem getElem?_finished (h : b.Ordered) {i : Nat} {d : DraftNode}
    (hd : b.nodes[i]? = some d) :
    b.finished[i]? =
      some (.mk i d.name d.work (d.inputs.filterMap fun j => b.finished[j]?)) :=
  getElem?_finishAll h.inputs hd

theorem length_finished (b : Binding) : b.finished.length = b.nodes.length :=
  length_finishAll b.nodes

/-- Every finished stage comes from an entry. -/
theorem exists_of_finished (h : b.Ordered) {i : Nat} {n : Node}
    (hn : b.finished[i]? = some n) :
    ∃ d, b.nodes[i]? = some d ∧
      n = .mk i d.name d.work (d.inputs.filterMap fun j => b.finished[j]?) := by
  have hi := (List.getElem?_eq_some_iff.1 hn).1
  rw [length_finished] at hi
  have hd := List.getElem?_eq_getElem hi
  rw [getElem?_finished h hd] at hn
  exact ⟨_, hd, (Option.some.inj hn).symm⟩

/-- A stage that a finished stage needs is the finished stage of its number. -/
theorem finished_of_reaches (h : b.Ordered) {n m : Node} (hm : n.Reaches m) :
    ∀ {i : Nat}, b.finished[i]? = some n → b.finished[m.id]? = some m := by
  induction hm with
  | refl n =>
      intro i hn
      obtain ⟨d, -, rfl⟩ := exists_of_finished h hn
      exact hn
  | @input n k m hk _ ih =>
      intro i hn
      obtain ⟨d, -, rfl⟩ := exists_of_finished h hn
      obtain ⟨j, -, hj⟩ := List.mem_filterMap.1 hk
      exact ih hj

private theorem finished_distinct (h : b.Ordered) {i : Nat} {n : Node}
    (hn : b.finished[i]? = some n) : n.Distinct := by
  intro x y hx hy hid
  have hx := finished_of_reaches h hx hn
  have hy := finished_of_reaches h hy hn
  rw [hid, hy] at hx
  exact (Option.some.inj hx).symm

/-- **Locality.**  A set of numbers that is closed under inputs and whose entries stay
the same keeps its finished stages. -/
theorem finished_agree (h : b.Ordered) (h' : b'.Ordered) {S : Nat → Prop}
    (closed : ∀ i (d : DraftNode), S i → b.nodes[i]? = some d → ∀ j ∈ d.inputs, S j)
    (same : ∀ i (d : DraftNode), S i → b.nodes[i]? = some d → b'.nodes[i]? = some d)
    (i : Nat) (hS : S i) (hi : i < b.nodes.length) :
    b'.finished[i]? = b.finished[i]? := by
  induction i using Nat.strongRecOn with
  | ind i ih =>
      have hd := List.getElem?_eq_getElem hi
      rw [getElem?_finished h hd, getElem?_finished h' (same i _ hS hd)]
      have hinputs : (b.nodes[i].inputs.filterMap fun j => b'.finished[j]?) =
          b.nodes[i].inputs.filterMap fun j => b.finished[j]? := by
        apply List.filterMap_congr
        intro j hj
        have hlt := h.inputs i _ hd j hj
        exact ih j hlt (closed i _ hS hd j hj) (Nat.lt_trans hlt hi)
      rw [hinputs]

/-! ## Plans -/

/-- What a statement that has a plan was bound to. -/
theorem plan_eq_ok {s : Statement} {p : Plan} (h : s.plan combiners now = .ok p) :
    ∃ b i, bindStages combiners now s.stages = .ok b ∧ b.previous = some i ∧
      b.finished[i]? = some p.terminal ∧ b.requestFault? = none ∧
        p.warnings = b.warnings := by
  obtain ⟨b, hb, h⟩ := bind_eq_ok_iff.1 h
  split at h
  · cases h
  · rename_i terminal hterminal
    split at h
    · cases h
    · rename_i hfault
      cases h
      obtain ⟨i, hi, hn⟩ := Option.bind_eq_some_iff.1 hterminal
      exact ⟨b, i, hb, hi, hn, hfault, rfl⟩

end Binding

/-- In a plan, stages of one number are the same stage. -/
theorem Statement.plan_distinct {combiners : Combiners} {now : Instant} {s : Statement}
    {p : Plan} (h : s.plan combiners now = .ok p) : p.terminal.Distinct := by
  obtain ⟨b, i, hb, -, hn, -, -⟩ := Binding.plan_eq_ok h
  exact Binding.finished_distinct (Binding.ordered_bindStages hb) hn

end SeriesQuery
