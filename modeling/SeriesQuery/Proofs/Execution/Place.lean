import Mathlib.Data.List.Infix
import SeriesQuery.Execution.Progress
import SeriesQuery.Proofs.Plan.Sharing
import SeriesQuery.Proofs.Execution.Move

/-!
# Tasks at their places

A task that joins its inputs has a task for each of them, so a task is a tree, and a
place is a path in it.  What holds of a task in a world is said place by place: a task
that queues is never forgotten, a task that joins or calls has its turn, and a task that
is done has its result kept or knows a failure that a stage of the graph has brought
about.  Conversely whoever stands in a turn or in a queue is a task that waits, at the
place that the turn names.

**Frame.**  All this concerns the places of one task only.  So moves at other places
leave it as it is, and a pass may be looked at one input after another.

## Main results

* `Sound.frame`: what holds of a task goes on to hold while others move.
* `Joined.set`: letting one input of a join run keeps the join in order.
* `Joined.sound`, `Sound.joined`: a join is in order exactly when the task that makes it
  is.
-/

namespace SeriesQuery.Execution

open World

/-! ## Places -/

/-- A task of a stage at a place, within a task. -/
inductive Holds : Node → Path → Task → Node → Path → Task → Prop
  | here (n : Node) (p : Path) (t : Task) : Holds n p t n p t
  | input {n m k : Node} {p q : Path} {ts : List Task} {u v : Task} (i : Nat) :
      n.inputs[i]? = some m → ts[i]? = some u → Holds m (i :: p) u k q v →
      Holds n p (.joining ts) k q v

/-- Places below the inputs of the task at a place. -/
def Beneath (p q : Path) : Prop := p <:+ q ∧ q ≠ p

variable {respond : Respond} {graph : Node → Prop} {w w' : World} {n m k : Node}
  {p q : Path} {t u v : Task} {ts : List Task} {i j id : Nat}

theorem Beneath.of_cons (h : (i :: p) <:+ q) : Beneath p q := by
  refine ⟨(List.suffix_cons i p).trans h, ?_⟩
  rintro rfl
  have hlen := h.length_le
  rw [List.length_cons] at hlen
  omega

theorem not_beneath_self : ¬ Beneath p p := fun h => h.2 rfl

/-- Places below different inputs are different. -/
theorem eq_of_cons_suffix (hi : (i :: p) <:+ q) (hj : (j :: p) <:+ q) : i = j := by
  have hsame := List.suffix_of_suffix_length_le hi hj (by simp)
  have heq := hsame.eq_of_length (by simp)
  exact (List.cons.inj heq).1

private theorem not_cons_suffix_self : ¬ (i :: p) <:+ p := by
  intro h
  have hlen := h.length_le
  rw [List.length_cons] at hlen
  omega

theorem Holds.suffix (h : Holds n p t k q v) : p <:+ q := by
  induction h with
  | here n p t => exact List.suffix_refl p
  | input i _ _ _ ih => exact (List.suffix_cons _ _).trans ih

/-- A graph has the inputs of its stages. -/
def Closed (graph : Node → Prop) : Prop := ∀ n, graph n → ∀ m ∈ n.inputs, graph m

theorem Holds.mem_graph (h : Holds n p t k q v) (hclosed : Closed graph)
    (hn : graph n) : graph k := by
  induction h with
  | here n p t => exact hn
  | input i hm _ _ ih => exact ih (hclosed _ hn _ (List.mem_of_getElem? hm))

/-! ## What holds of a task -/

/-- Whether a task waits for something. -/
def Live : Task → Prop
  | .fresh => False
  | .queued => True
  | .joining _ => True
  | .calling _ _ => True
  | .done _ => False

/-- What holds of the task of a stage at a place. -/
def Okay (respond : Respond) (graph : Node → Prop) (w : World) (n : Node)
    (q : Path) : Task → Prop
  | .fresh => True
  | .queued => w.Waits n.id q ∨ w.Owns n.id q ∨ (w.recalled? n.id).isSome = true
  | .joining ts =>
    w.Owns n.id q ∧ ts.length = n.inputs.length ∧ results? ts = none ∧
      joinFailure? (actors respond n.inputs) ts = none
  | .calling _ outcome =>
    w.Owns n.id q ∧ ∃ request, n.work = .ask request ∧
      (∃ k, (respond k request).outcome = outcome) ∧ ∃ rs, w.Recalls n.inputs rs
  | .done (.ok r) => w.recalled? n.id = some r
  | .done (.error e) => ∃ m, graph m ∧ w.Gives respond m (.error e)

/-- What holds of a task and all tasks below it. -/
structure Sound (respond : Respond) (graph : Node → Prop) (n : Node) (p : Path)
    (t : Task) (w : World) : Prop where
  okay : ∀ k q v, Holds n p t k q v → Okay respond graph w k q v
  /-- Whoever stands in a turn or a queue, at these places, is a task that waits. -/
  home : ∀ id q, p <:+ q → (w.Owns id q ∨ w.Waits id q) →
    ∃ k v, Holds n p t k q v ∧ k.id = id ∧ Live v

/-- A task goes on waiting without help: it is in the queue or about to be woken. -/
def Rests (w : World) (n : Node) (q : Path) : Task → Prop
  | .fresh => False
  | .queued => w.Waits n.id q ∨ q ∈ w.next
  | .joining _ => True
  | .calling due _ => ⟨due, q⟩ ∈ w.timers
  | .done _ => True

/-- A task has been woken by what it waits for. -/
def Roused (w : World) (q : Path) : Task → Prop
  | .queued => q ∈ w.woken
  | .calling due _ => q ∈ w.woken ∧ due ≤ w.now
  | _ => False

/-- All tasks go on waiting without help. -/
def Quiet (n : Node) (p : Path) (t : Task) (w : World) : Prop :=
  ∀ k q v, Holds n p t k q v → Rests w k q v

/-- All tasks that need help have been woken, or nothing has been done yet. -/
def Expected (n : Node) (p : Path) (t : Task) (w : World) : Prop :=
  t = .fresh ∨ ∀ k q v, Holds n p t k q v → Rests w k q v ∨ Roused w q v

theorem Quiet.expected (h : Quiet n p t w) : Expected n p t w :=
  Or.inr fun k q v hv => Or.inl (h k q v hv)

/-! ## Frame -/

variable {places : Path → Prop}

theorem World.Recalls.mono {ns : List Node} {rs : List SeriesResult}
    (h : w.Recalls ns rs)
    (hkeep : ∀ id r, w.recalled? id = some r → w'.recalled? id = some r) :
    w'.Recalls ns rs :=
  h.imp fun _ _ hr => hkeep _ _ hr

theorem Okay.frame (h : Okay respond graph w n q t)
    (hm : Moves respond graph places w w') (hw : w.Tidy) (hq : ¬ places q) :
    Okay respond graph w' n q t := by
  cases t with
  | fresh => trivial
  | queued => exact hm.queues hw hq h
  | joining ts => exact ⟨hm.owns hw hq h.1, h.2⟩
  | calling due outcome =>
      obtain ⟨howns, request, hwork, hk, rs, hrs⟩ := h
      exact ⟨hm.owns hw hq howns, request, hwork, hk, rs,
        hrs.mono fun _ _ => hm.recalled? hw⟩
  | done result =>
      cases result with
      | ok r => exact hm.recalled? hw h
      | error e =>
          obtain ⟨m, hgraph, hgives⟩ := h
          exact ⟨m, hgraph, hm.gives hw hgives⟩

theorem Rests.frame (h : Rests w n q t) (hm : Moves respond graph places w w')
    (hw : w.Tidy) (hq : ¬ places q) : Rests w' n q t := by
  cases t with
  | fresh => exact h
  | queued => exact hm.rests hw hq h
  | joining ts => trivial
  | calling due outcome => exact hm.mem_timers hw hq h
  | done result => trivial

theorem Roused.frame (h : Roused w q t) (hm : Moves respond graph places w w') :
    Roused w' q t := by
  obtain ⟨hnow, hwoken⟩ := hm.clock
  cases t with
  | fresh => exact h
  | queued =>
      show q ∈ w'.woken
      rw [hwoken]
      exact h
  | joining ts => exact h
  | calling due outcome =>
      show q ∈ w'.woken ∧ due ≤ w'.now
      rw [hwoken, hnow]
      exact h
  | done result => exact h

theorem Quiet.frame (h : Quiet n p t w) (hm : Moves respond graph places w w')
    (hw : w.Tidy) (hapart : ∀ q, p <:+ q → ¬ places q) : Quiet n p t w' :=
  fun k q v hv => (h k q v hv).frame hm hw (hapart q hv.suffix)

theorem Expected.frame (h : Expected n p t w) (hm : Moves respond graph places w w')
    (hw : w.Tidy) (hapart : ∀ q, p <:+ q → ¬ places q) : Expected n p t w' := by
  rcases h with hfresh | hall
  · exact Or.inl hfresh
  · right
    intro k q v hv
    rcases hall k q v hv with hrests | hroused
    · exact Or.inl (hrests.frame hm hw (hapart q hv.suffix))
    · exact Or.inr (hroused.frame hm)

/-- What holds of a task goes on to hold while others move. -/
theorem Sound.frame (h : Sound respond graph n p t w)
    (hm : Moves respond graph places w w') (hw : w.Tidy)
    (hapart : ∀ q, p <:+ q → ¬ places q) :
    Sound respond graph n p t w' where
  okay := fun k q v hv => (h.okay k q v hv).frame hm hw (hapart q hv.suffix)
  home := fun id q hq hr => h.home id q hq (hm.role hw (hapart q hq) hr)

/-! ## Single tasks -/

/-- Nobody stands in a turn or a queue at or below a place, except for its own task in
its own. -/
def Sole (w : World) (n : Node) (p : Path) : Prop :=
  ∀ id q, p <:+ q → (w.Owns id q ∨ w.Waits id q) → q = p ∧ id = n.id

/-- Nobody stands in a turn or a queue at or below a place. -/
def Absent (w : World) (p : Path) : Prop :=
  ∀ id q, p <:+ q → ¬ (w.Owns id q ∨ w.Waits id q)

/-- A task without tasks below it is alone at its place. -/
theorem Sound.sole (h : Sound respond graph n p t w) (ht : ∀ ts, t ≠ .joining ts) :
    Sole w n p := by
  intro id q hq hr
  obtain ⟨k, v, hv, hid, -⟩ := h.home id q hq hr
  cases hv with
  | here => exact ⟨rfl, hid.symm⟩
  | input i _ _ _ => exact absurd rfl (ht _)

/-- A task that waits for nothing, with no tasks below it, stands nowhere. -/
theorem Sound.absent (h : Sound respond graph n p t w) (ht : ¬ Live t) :
    Absent w p := by
  intro id q hq hr
  obtain ⟨k, v, hv, -, hlive⟩ := h.home id q hq hr
  cases hv with
  | here => exact ht hlive
  | input i _ _ _ => exact ht trivial

/-- A task without tasks below it is in order when it is alone. -/
theorem Sound.single (hsole : Sole w n p) (ht : ∀ ts, t ≠ .joining ts) (hlive : Live t)
    (hokay : Okay respond graph w n p t) : Sound respond graph n p t w where
  okay := by
    intro k q v hv
    cases hv with
    | here => exact hokay
    | input i _ _ _ => exact absurd rfl (ht _)
  home := by
    intro id q hq hr
    obtain ⟨rfl, rfl⟩ := hsole id q hq hr
    exact ⟨n, t, .here n q t, rfl, hlive⟩

/-- A task without tasks below it, and to which nothing refers, is in order. -/
theorem Sound.absented (habsent : Absent w p) (ht : ∀ ts, t ≠ .joining ts)
    (hokay : Okay respond graph w n p t) : Sound respond graph n p t w where
  okay := by
    intro k q v hv
    cases hv with
    | here => exact hokay
    | input i _ _ _ => exact absurd rfl (ht _)
  home := fun id q hq hr => absurd hr (habsent id q hq)

theorem Quiet.single (ht : ∀ ts, t ≠ .joining ts) (hrests : Rests w n p t) :
    Quiet n p t w := by
  intro k q v hv
  cases hv with
  | here => exact hrests
  | input i _ _ _ => exact absurd rfl (ht _)

/-! ## Joins -/

/-- What holds while a task joins its inputs. -/
structure Joined (respond : Respond) (graph : Node → Prop) (n : Node) (p : Path)
    (ts : List Task) (w : World) : Prop where
  length : ts.length = n.inputs.length
  owns : w.Owns n.id p
  input : ∀ i m u, n.inputs[i]? = some m → ts[i]? = some u →
    Sound respond graph m (i :: p) u w
  role : ∀ id q, p <:+ q → (w.Owns id q ∨ w.Waits id q) →
    (q = p ∧ id = n.id) ∨ ∃ i, i < n.inputs.length ∧ (i :: p) <:+ q

theorem Sound.joined (h : Sound respond graph n p (.joining ts) w) :
    Joined respond graph n p ts w where
  length := (h.okay n p _ (.here n p _)).2.1
  owns := (h.okay n p _ (.here n p _)).1
  input := by
    intro i m u hm hu
    constructor
    · intro k q v hv
      exact h.okay k q v (.input i hm hu hv)
    · intro id q hq hr
      obtain ⟨k, v, hv, hid, hlive⟩ := h.home id q ((List.suffix_cons i p).trans hq) hr
      cases hv with
      | here => exact absurd hq not_cons_suffix_self
      | input j hm' hu' hv =>
          have hij := eq_of_cons_suffix hq hv.suffix
          subst hij
          rw [hm, Option.some.injEq] at hm'
          rw [hu, Option.some.injEq] at hu'
          subst hm' hu'
          exact ⟨k, v, hv, hid, hlive⟩
  role := by
    intro id q hq hr
    obtain ⟨k, v, hv, hid, -⟩ := h.home id q hq hr
    cases hv with
    | here => exact Or.inl ⟨rfl, hid.symm⟩
    | input i hm _ hv =>
        obtain ⟨hi, -⟩ := List.getElem?_eq_some_iff.1 hm
        exact Or.inr ⟨i, hi, hv.suffix⟩

theorem Joined.sound (h : Joined respond graph n p ts w) (hresults : results? ts = none)
    (hfailure : joinFailure? (actors respond n.inputs) ts = none) :
    Sound respond graph n p (.joining ts) w where
  okay := by
    intro k q v hv
    cases hv with
    | here => exact ⟨h.owns, h.length, hresults, hfailure⟩
    | input i hm hu hv => exact (h.input i _ _ hm hu).okay k q v hv
  home := by
    intro id q hq hr
    rcases h.role id q hq hr with ⟨rfl, rfl⟩ | ⟨i, hi, hq⟩
    · exact ⟨n, _, .here n q _, rfl, trivial⟩
    · have hm := List.getElem?_eq_getElem hi
      have hu := List.getElem?_eq_getElem (l := ts) (by rw [h.length]; exact hi)
      obtain ⟨k, v, hv, hid, hlive⟩ := (h.input i _ _ hm hu).home id q hq hr
      exact ⟨k, v, .input i hm hu hv, hid, hlive⟩

/-- A join that has just begun. -/
theorem Joined.fresh (howns : w.Owns n.id p) (hsole : Sole w n p) :
    Joined respond graph n p (List.replicate n.inputs.length .fresh) w where
  length := List.length_replicate
  owns := howns
  input := by
    intro i m u _ hu
    have hfresh : u = .fresh := List.eq_of_mem_replicate (List.mem_of_getElem? hu)
    subst hfresh
    refine .absented ?_ (by simp) trivial
    intro id q hq hr
    obtain ⟨rfl, -⟩ := hsole id q ((List.suffix_cons i p).trans hq) hr
    exact not_cons_suffix_self hq
  role := fun id q hq hr => Or.inl (hsole id q hq hr)

/-- Letting one input run leaves the others as they are. -/
theorem Joined.set (h : Joined respond graph n p ts w) (hw : w.Tidy) {u' : Task}
    (hm : n.inputs[i]? = some m) (hu : ts[i]? = some u)
    (hmoves : Moves respond graph (fun q => (i :: p) <:+ q) w w')
    (hsound : Sound respond graph m (i :: p) u' w') :
    Joined respond graph n p (ts.set i u') w' where
  length := by rw [List.length_set, h.length]
  owns := hmoves.owns hw not_cons_suffix_self h.owns
  input := by
    intro j m' v hm' hv
    by_cases hij : i = j
    · subst hij
      obtain ⟨hi, -⟩ := List.getElem?_eq_some_iff.1 hu
      rw [List.getElem?_set_self hi, Option.some.injEq] at hv
      rw [hm, Option.some.injEq] at hm'
      subst hv hm'
      exact hsound
    · rw [List.getElem?_set_ne hij] at hv
      refine (h.input j m' v hm' hv).frame hmoves hw ?_
      intro q hq hi
      exact hij (eq_of_cons_suffix hi hq)
  role := by
    intro id q hq hr
    by_cases hi : (i :: p) <:+ q
    · obtain ⟨hlt, -⟩ := List.getElem?_eq_some_iff.1 hm
      exact Or.inr ⟨i, hlt, hi⟩
    · exact h.role id q hq (hmoves.role hw hi hr)

/-- The task that makes a join is alone at its place once nobody stands below its
inputs. -/
theorem Joined.sole (h : Joined respond graph n p ts w)
    (habsent : ∀ i, i < n.inputs.length → Absent w (i :: p)) : Sole w n p := by
  intro id q hq hr
  rcases h.role id q hq hr with hself | ⟨i, hi, hbelow⟩
  · exact hself
  · exact absurd hr (habsent i hi id q hbelow)

end SeriesQuery.Execution
