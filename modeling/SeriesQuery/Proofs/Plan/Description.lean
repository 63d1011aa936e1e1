import SeriesQuery.Proofs.Execution.Walk
import SeriesQuery.Proofs.Plan.WellFormed

/-!
# What a description lists

The search that makes a description puts every stage that it finds into its place by
number and goes into no number twice, so it lists rising numbers in whatever graph it
searches.  In a plan the numbers fall along inputs.  So there every stage is listed
behind the stages that it reads, and the stage that the plan ends in is the last one.

## Main results

* `rising_gather`: what is found is sorted by number.
* `ids_of_inputs`: a finished stage reads the numbers that it was declared to read.
* `Statement.description_covers`: a description lists what the plan needs, and nothing
  else.
-/

namespace SeriesQuery

open SeriesQuery.Execution (mem_place gather_eq mem_reachable)
open SeriesQuery.Time (Instant)

/-- An entry tells of a stage: its number and name, all that it does, and the numbers of
the stages that it reads, in their declared order and each as often as it is read. -/
structure StageEntry.Tells (e : StageEntry) (n : Node) : Prop where
  id : e.id = n.id
  name : e.name = n.name
  work : e.work = n.work
  inputs : e.inputs = n.inputs.map Node.id

/-- A description covers the plan that ends in some stage. -/
structure PlanDescription.Covers (d : PlanDescription) (root : Node) : Prop where
  complete : ∀ n, root.Reaches n → ∃ e ∈ d.stages, e.Tells n
  sound : ∀ e ∈ d.stages, ∃ n, root.Reaches n ∧ e.Tells n
  rising : (d.stages.map StageEntry.id).Pairwise (· < ·)
  inputsFirst : ∀ before e after, d.stages = before ++ e :: after →
    ∀ i ∈ e.inputs, i ∈ before.map StageEntry.id
  terminal : d.terminal = root.id
  last : ∃ e, d.stages.getLast? = some e ∧ e.Tells root

/-- An entry says what was bound under its number. -/
def StageEntry.Declared (e : StageEntry) (b : Binding) : Prop :=
  ∃ d, b.nodes[e.id]? = some d ∧ e = ⟨e.id, d.name, d.work, d.inputs⟩

namespace Node

variable {n m root : Node} {ns seen : List Node}

private theorem entry_tells (n : Node) : n.entry.Tells n := ⟨rfl, rfl, rfl, rfl⟩

/-! ## Sorting -/

/-- Stages sorted by number, no number twice. -/
def Rising (ns : List Node) : Prop := ns.Pairwise fun m n => m.id < n.id

/-- A stage with a new number goes into its place. -/
theorem rising_place (h : Rising ns) (hnew : ∀ m ∈ ns, m.id ≠ n.id) :
    Rising (n.place ns) := by
  induction ns with
  | nil => exact List.pairwise_singleton _ n
  | cons k ns ih =>
      obtain ⟨hk, hns⟩ := List.pairwise_cons.1 h
      rw [place]
      split
      · rename_i hlt
        refine List.pairwise_cons.2 ⟨fun m hm => ?_, h⟩
        rcases List.mem_cons.1 hm with rfl | hm
        · exact hlt
        · exact hlt.trans (hk m hm)
      · rename_i hle
        have hkn : k.id < n.id :=
          Nat.lt_of_le_of_ne (Nat.le_of_not_lt hle) (hnew k List.mem_cons_self)
        refine List.pairwise_cons.2 ⟨fun m hm => ?_, ih hns fun m hm => ?_⟩
        · rcases mem_place.1 hm with rfl | hm
          · exact hkn
          · exact hk m hm
        · exact hnew m (List.mem_cons_of_mem k hm)

mutual

/-- The search keeps what it has found sorted. -/
theorem rising_gather : (n : Node) →
    ∀ {seen : List Node}, Rising seen → Rising (n.gather seen)
  | .mk i name work inputs, seen, h => by
      rw [gather_eq]
      split
      · exact h
      · rename_i hany
        refine rising_gatherAll inputs (rising_place h fun m hm hid => hany ?_)
        exact List.any_eq_true.2 ⟨m, hm, beq_iff_eq.2 hid⟩

/-- The same of several stages. -/
theorem rising_gatherAll : (ns : List Node) → ∀ {seen : List Node}, Rising seen →
    Rising (gatherAll seen ns)
  | [], seen, h => by
      rw [gatherAll]
      exact h
  | n :: ns, seen, h => by
      rw [gatherAll]
      exact rising_gatherAll ns (rising_gather n h)

end

private theorem rising_reachable (n : Node) : Rising n.reachable :=
  rising_gather n List.Pairwise.nil

/-! ## Order -/

/-- Of sorted stages, one whose number is less than that of another one stands before
it. -/
theorem Rising.mem_before {before after : List Node} (h : Rising (before ++ n :: after))
    (hm : m ∈ before ++ n :: after) (hlt : m.id < n.id) : m ∈ before := by
  rcases List.mem_append.1 hm with hm | hm
  · exact hm
  · obtain ⟨hn, -⟩ := List.pairwise_cons.1 (List.pairwise_append.1 h).2.1
    rcases List.mem_cons.1 hm with rfl | hm
    · exact absurd hlt (Nat.lt_irrefl m.id)
    · exact absurd hlt (Nat.not_lt.2 (hn m hm).le)

/-- Of sorted stages, the one with the greatest number is the last one. -/
theorem Rising.getLast?_eq (h : Rising ns) (hn : n ∈ ns)
    (hmax : ∀ m ∈ ns, m.id ≤ n.id) : ns.getLast? = some n := by
  obtain ⟨before, after, rfl⟩ := List.append_of_mem hn
  obtain ⟨hafter, -⟩ := List.pairwise_cons.1 (List.pairwise_append.1 h).2.1
  have hnone : after = [] := by
    refine List.eq_nil_iff_forall_not_mem.2 fun m hm => ?_
    have hle := hmax m (List.mem_append_right before (List.mem_cons_of_mem n hm))
    exact absurd (hafter m hm) (Nat.not_lt.2 hle)
  rw [hnone, List.getLast?_concat]

end Node

/-- **A description covers a graph** in which a number stands for one stage and numbers
fall along inputs. -/
theorem Plan.describe_covers {p : Plan} (hdistinct : p.terminal.Distinct)
    (hfalling : ∀ n, p.terminal.Reaches n → ∀ m ∈ n.inputs, m.id < n.id) :
    p.describe.Covers p.terminal := by
  have hmem : ∀ n, n ∈ p.terminal.reachable ↔ p.terminal.Reaches n := fun n =>
    mem_reachable hdistinct
  have hrising := p.terminal.rising_reachable
  refine
    { complete :=
      fun n hn => ⟨n.entry, List.mem_map_of_mem ((hmem n).2 hn), n.entry_tells⟩
      sound := ?_
      rising := ?_
      inputsFirst := ?_
      terminal := rfl
      last := ⟨p.terminal.entry, ?_, p.terminal.entry_tells⟩ }
  · intro e he
    obtain ⟨n, hn, rfl⟩ := List.mem_map.1 he
    exact ⟨n, (hmem n).1 hn, n.entry_tells⟩
  · rw [Plan.describe, List.map_map]
    exact List.pairwise_map.2 hrising
  · intro before e after hsplit i hi
    obtain ⟨ns, ms, hns, rfl, hms⟩ := List.map_eq_append_iff.1 hsplit
    obtain ⟨n, ms, rfl, rfl, rfl⟩ := List.map_eq_cons_iff.1 hms
    obtain ⟨m, hm, rfl⟩ := List.mem_map.1 hi
    have hn : p.terminal.Reaches n := (hmem n).1 (by rw [hns]; simp)
    have hmem' : m ∈ p.terminal.reachable := (hmem m).2 (hn.trans (.input hm (.refl m)))
    rw [hns] at hmem' hrising
    have hbefore := hrising.mem_before hmem' (hfalling n hn m hm)
    rw [List.map_map]
    exact List.mem_map_of_mem (f := StageEntry.id ∘ Node.entry) hbefore
  · have hlast : p.terminal.reachable.getLast? = some p.terminal :=
      hrising.getLast?_eq ((hmem _).2 (.refl _)) fun m hm =>
        Node.id_le_of_reaches ((hmem m).1 hm) hfalling
    rw [Plan.describe, List.getLast?_map, hlast]
    rfl

namespace Binding

variable {b : Binding}

/-- A finished stage reads the numbers that it was declared to read. -/
theorem ids_of_inputs (ho : b.Ordered) {i : Nat} {d : DraftNode}
    (hd : b.nodes[i]? = some d) :
    (d.inputs.filterMap fun j => b.finished[j]?).map Node.id = d.inputs := by
  have hrange : ∀ j ∈ d.inputs, j < b.nodes.length := fun j hj =>
    (ho.inputs i d hd j hj).trans (List.getElem?_eq_some_iff.1 hd).1
  generalize d.inputs = js at hrange
  induction js with
  | nil => rfl
  | cons j js ih =>
      have hj := List.getElem?_eq_getElem (hrange j List.mem_cons_self)
      rw [List.filterMap_cons, getElem?_finished ho hj, List.map_cons, Node.id,
        ih fun k hk => hrange k (List.mem_cons_of_mem j hk)]

/-- What is said of a finished stage is what was bound under its number. -/
theorem declared_of_finished (ho : b.Ordered) {n : Node}
    (hn : b.finished[n.id]? = some n) {e : StageEntry} (he : e.Tells n) :
    e.Declared b := by
  obtain ⟨d, hd, heq⟩ := exists_of_finished ho hn
  have hinputs := he.inputs
  rw [heq, Node.inputs, ids_of_inputs ho hd] at hinputs
  have hname : e.name = d.name := by rw [he.name, heq, Node.name]
  have hwork : e.work = d.work := by rw [he.work, heq, Node.work]
  refine ⟨d, by rw [he.id, hd], ?_⟩
  rw [← hname, ← hwork, ← hinputs]

end Binding

/-- **Descriptions are exact.**  The description of a plan lists the stages that its
last stage needs and no others, by rising numbers, so that each is listed once and
behind the stages that it reads; and what it says of a stage is what was bound. -/
theorem Statement.description_covers {combiners : Combiners} {now : Instant}
    {s : Statement} {p : Plan} (h : s.plan combiners now = .ok p) :
    p.describe.Covers p.terminal ∧
      ∃ b, Binding.bindStages combiners now s.stages = .ok b ∧
        ∀ e ∈ p.describe.stages, e.Declared b := by
  obtain ⟨b, i, hb, -, hterminal, -, -⟩ := Binding.plan_eq_ok h
  have hordered := Binding.ordered_bindStages hb
  have hfinished : ∀ n, p.terminal.Reaches n → b.finished[n.id]? = some n := fun n hn =>
    Binding.finished_of_reaches hordered hn hterminal
  have hcovers : p.describe.Covers p.terminal :=
    Plan.describe_covers (Statement.plan_distinct h) fun n hn =>
      Binding.falling_of_finished hordered (hfinished n hn)
  refine ⟨hcovers, b, hb, fun e he => ?_⟩
  obtain ⟨n, hn, htells⟩ := hcovers.sound e he
  exact Binding.declared_of_finished hordered (hfinished n hn) htells

/-- `a = select cpu; u = union(of (a, a)); select mem; union(of (u, a, u))`. -/
def unionOfUnions : List Stage :=
  [⟨some "a", .select ⟨"cpu", none, [], []⟩, ⟨1, 1⟩⟩,
    ⟨some "u", .aggregate ⟨"union", some ["a", "a"], []⟩, ⟨1, 17⟩⟩,
    ⟨none, .select ⟨"mem", none, [], []⟩, ⟨1, 39⟩⟩,
    ⟨none, .aggregate ⟨"union", some ["u", "a", "u"], []⟩, ⟨1, 51⟩⟩]

/-- The stage that nothing reads is left out, the others keep their numbers, and what is
read twice is named twice. -/
theorem Statement.description_covers_shared :
    ∃ p, Statement.plan .standard ⟨0, 0⟩ ⟨unionOfUnions⟩ = .ok p ∧
      p.describe.stages.map (fun e => (e.id, e.inputs)) =
        [(0, []), (1, [0, 0]), (3, [1, 0, 1])] ∧
      p.describe.Covers p.terminal := by
  refine ⟨_, rfl, rfl, ?_⟩
  have hplan : Statement.plan .standard ⟨0, 0⟩ ⟨unionOfUnions⟩ = .ok _ := rfl
  exact (Statement.description_covers hplan).1

end SeriesQuery
