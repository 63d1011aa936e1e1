import SeriesQuery.Proofs.Execution.Schedule

/-!
# On schedule

What it means that a pass is on schedule, said of the tasks and of the world.  Every
stage is in the hands of the task where a walk meets it first; results that are kept are
those of the schedule, and those that are due are kept.  A pass that cannot go on has
met a failure on the way that the walk takes.

## Main results

* `Handled.later`, `Handled.settle`, `Handled.recalled`: a pass is done with one more
  stage.
* `Broken.extend`, `Broken.before`: a failure on part of the way is one on all of it.
* `Sound.clear`: where joins are narrow, a task that goes on has no failure below it.
-/

namespace SeriesQuery.Execution

open SeriesQuery.Backend (Request Response)
open World

variable {respond : Respond} {reply : Nat → Request → Reply} {graph : Node → Prop}
  {past : Option (List Request)} {order done ns : List Node} {w w' : World}
  {root n m k : Node} {p q : Path} {t t' u : Task} {ts ts' : List Task}
  {rs : List SeriesResult} {r : SeriesResult} {e : StageFailure} {i now : Nat}

/-! ## Where tasks stand -/

theorem walkAll_append (ms : List Node) :
    Node.walkAll done (ns ++ ms) = Node.walkAll (Node.walkAll done ns) ms := by
  induction ns generalizing done with
  | nil => rw [List.nil_append, Node.walkAll]
  | cons n ns ih => rw [List.cons_append, Node.walkAll, Node.walkAll, ih]

theorem walkAll_take_succ (h : ns[i]? = some m) :
    Node.walkAll done (ns.take (i + 1)) = m.walk (Node.walkAll done (ns.take i)) := by
  rw [List.take_add_one, h, walkAll_append, Option.toList_some, Node.walkAll,
    Node.walkAll]

/-- Every stage is in the hands of the task where a walk meets it first.  A task further
on queues, finds the result kept, or has not begun. -/
inductive Placed : List Node → Node → Task → Prop
  | fresh (done : List Node) (n : Node) : Placed done n .fresh
  | queued {done : List Node} {n : Node} : n ∈ done → Placed done n .queued
  | joining {done : List Node} {n : Node} {ts : List Task} : n ∉ done →
      (∀ i m u, n.inputs[i]? = some m → ts[i]? = some u →
        Placed (Node.walkAll done (n.inputs.take i)) m u) → Placed done n (.joining ts)
  | calling {done : List Node} {n : Node} (due : Nat)
      (outcome : Except BackendFault Response) :
      n ∉ done → Placed done n (.calling due outcome)
  | done (done : List Node) (n : Node) (r : SeriesResult) :
      Placed done n (.done (.ok r))

/-- The same of the inputs of a join. -/
def PlacedAll (done : List Node) (n : Node) (ts : List Task) : Prop :=
  ∀ i m u, n.inputs[i]? = some m → ts[i]? = some u →
    Placed (Node.walkAll done (n.inputs.take i)) m u

/-- Every task that waits for a reply waits for the one that the schedule tells of. -/
def Timely (reply : Nat → Request → Reply) (n : Node) (p : Path) (t : Task) : Prop :=
  ∀ k q due outcome request, Holds n p t k q (.calling due outcome) →
    k.work = .ask request → due = ends reply k ∧ outcome = (reply k.id request).outcome

/-- The same of the inputs of a join. -/
def TimelyAll (reply : Nat → Request → Reply) (n : Node) (p : Path)
    (ts : List Task) : Prop :=
  ∀ i m u, n.inputs[i]? = some m → ts[i]? = some u → Timely reply m (i :: p) u

theorem timely_joining : Timely reply n p (.joining ts) ↔ TimelyAll reply n p ts := by
  constructor
  · intro h i m u hm hu k q due outcome request hv
    exact h k q due outcome request (.input i hm hu hv)
  · intro h k q due outcome request hv
    cases hv with
    | input i hm hu hv => exact h i _ _ hm hu k q due outcome request hv

/-- A task that neither calls nor joins waits for no reply. -/
theorem timely_of_single (ht : ∀ ts, t ≠ .joining ts)
    (hcalling : ∀ due out, t ≠ .calling due out) : Timely reply n p t := by
  intro k q due outcome request hv
  cases hv with
  | here => exact absurd rfl (hcalling due outcome)
  | input i _ _ _ => exact absurd rfl (ht _)

/-- All joins of a graph are narrow. -/
def Narrow (graph : Node → Prop) : Prop := ∀ n, graph n → n.inputs.length ≤ narrowLimit

theorem isNarrow_actors (hnarrow : Narrow graph) (hn : graph n) :
    isNarrow (actors respond n.inputs) = true := by
  unfold isNarrow
  rw [length_actors]
  simpa using hnarrow n hn

theorem failed?_eq_none_iff : failed? ts = none ↔
    ∀ u ∈ ts, ∀ e, u ≠ .done (.error e) := by
  induction ts with
  | nil => simp [failed?]
  | cons t ts ih =>
      cases t with
      | done result =>
          cases result with
          | ok r => simp [failed?, ih]
          | error e => simp [failed?]
      | fresh => simp [failed?, ih]
      | queued => simp [failed?, ih]
      | joining us => simp [failed?, ih]
      | calling due outcome => simp [failed?, ih]

/-- Where joins are narrow, a task that goes on has no failure below it. -/
theorem Sound.clear (h : Sound respond graph n p t w) (hclosed : Closed graph)
    (hnarrow : Narrow graph) (hn : graph n) (ht : ∀ e, t ≠ .done (.error e)) :
    Clear n p t := by
  have hall : ∀ k q v, Holds n p t k q v → Okay respond graph w k q v := h.okay
  clear h
  intro k q e hv
  generalize hfailed : Task.done (.error e) = v at hv
  induction hv with
  | here n p t => exact ht e hfailed.symm
  | input i hm hu _ ih =>
      have hokay := hall _ _ _ (.here _ _ _)
      have hnone := hokay.2.2.2
      rw [joinFailure?, if_pos (isNarrow_actors hnarrow hn),
        failed?_eq_none_iff] at hnone
      exact ih (hclosed _ hn _ (List.mem_of_getElem? hm))
        (hnone _ (List.mem_of_getElem? hu))
        (fun k q v hv => hall k q v (.input i hm hu hv)) hfailed

/-! ## Worlds on schedule -/

/-- Replies come as scheduled when stages ask in some order. -/
def Scheduled (respond : Respond) (reply : Nat → Request → Reply)
    (order : List Node) : Prop :=
  ∀ before n after request, order = before ++ n :: after → n.work = .ask request →
    reply n.id request = respond (requestsOf before).length request

/-- What has been asked when a pass is done with some stages: in the first pass their
requests, in a later one what had been asked before. -/
def askedAfter (past : Option (List Request)) (done : List Node) : List Request :=
  past.getD (requestsOf done)

/-- A pass that is done with some stages is on schedule: all results that are kept are
those of the schedule and not early, and those that are due are kept. -/
structure Handled (reply : Nat → Request → Reply) (graph : Node → Prop)
    (done : List Node) (w : World) : Prop where
  complete : Complete graph done
  kept : ∀ m r, graph m → w.recalled? m.id = some r →
    stageOutcome reply m = .ok r ∧ ends reply m ≤ w.now
  due : ∀ m ∈ done, ends reply m ≤ w.now → (w.recalled? m.id).isSome = true

/-- What else a world holds does not matter. -/
theorem Handled.of_same (h : Handled reply graph done w)
    (hrecalled : ∀ id, w'.recalled? id = w.recalled? id) (hnow : w'.now = w.now) :
    Handled reply graph done w' where
  complete := h.complete
  kept := by
    intro m r hm hr
    rw [hrecalled] at hr
    rw [hnow]
    exact h.kept m r hm hr
  due := by
    intro m hm hends
    rw [hnow] at hends
    rw [hrecalled]
    exact h.due m hm hends

/-- A walk that is done with some stages goes into one. -/
structure Entered (graph : Node → Prop) (done : List Node) (n : Node) : Prop where
  stage : graph n
  fresh : n ∉ done
  walk : n.walk done = Node.walkAll done n.inputs ++ [n]
  complete : Complete graph (n.walk done)

theorem Entered.of_not_mem (hplanned : Planned graph) (hn : graph n)
    (h : Complete graph done) (hfresh : n ∉ done) : Entered graph done n where
  stage := hn
  fresh := hfresh
  walk := walk_of_not_mem hplanned.numbered h.within hn hfresh
  complete := (walk_complete hplanned.closed hplanned.numbered n hn h).1

/-- A pass is done with a stage that ends later. -/
theorem Handled.later (h : Handled reply graph (Node.walkAll done n.inputs) w)
    (hentered : Entered graph done n) (hlater : w.now < ends reply n) :
    Handled reply graph (n.walk done) w where
  complete := hentered.complete
  kept := h.kept
  due := by
    intro m hm hends
    rw [hentered.walk, List.mem_append, List.mem_singleton] at hm
    rcases hm with hm | rfl
    · exact h.due m hm hends
    · omega

/-- A pass is done with a stage whose result is kept now. -/
theorem Handled.settle (h : Handled reply graph (Node.walkAll done n.inputs) w)
    (hentered : Entered graph done n) (hnumbered : Numbered graph)
    (hr : stageOutcome reply n = .ok r) (hends : ends reply n ≤ w.now) :
    Handled reply graph (n.walk done) (w.settle n.id r) where
  complete := hentered.complete
  kept := by
    intro m r' hm hr'
    rw [recalled?_settle] at hr'
    by_cases hid : n.id = m.id
    · have hsame := hnumbered n m hentered.stage hm hid
      subst hsame
      rw [if_pos rfl, Option.some.injEq] at hr'
      subst hr'
      exact ⟨hr, hends⟩
    · rw [if_neg hid] at hr'
      exact h.kept m r' hm hr'
  due := by
    intro m hm hdue
    rw [hentered.walk, List.mem_append, List.mem_singleton] at hm
    rw [recalled?_settle]
    by_cases hid : n.id = m.id
    · rw [if_pos hid]
      rfl
    · rw [if_neg hid]
      rcases hm with hm | rfl
      · exact h.due m hm hdue
      · exact absurd rfl hid

/-- A pass is done with a stage whose result had been kept before. -/
theorem Handled.recalled (h : Handled reply graph done w) (hplanned : Planned graph)
    (hf : w.Founded respond graph) (hn : graph n) (hr : w.recalled? n.id = some r) :
    Handled reply graph (n.walk done) w := by
  obtain ⟨hcomplete, hiff⟩ :=
    walk_complete hplanned.closed hplanned.numbered n hn h.complete
  refine ⟨hcomplete, h.kept, fun m hm hends => ?_⟩
  rcases (hiff m).1 hm with hold | hreach
  · exact h.due m hold hends
  · exact recalled_of_reaches hplanned.numbered hplanned.closed hf hn hreach
      (by rw [hr]; rfl)

/-! ## What a pass through a stage leaves behind -/

/-- The first pass at a stage: nothing has been asked but what a walk would have
asked. -/
structure Opening (order : List Node) (done : List Node) (n : Node)
    (w : World) : Prop where
  now : w.now = 0
  begun : ∀ k, n.Reaches k → (k ∈ done ↔ w.Begun k.id)
  ahead : n.walk done <+: order

/-- A pass through a stage is on schedule. -/
structure OnTime (reply : Nat → Request → Reply) (graph : Node → Prop)
    (past : Option (List Request)) (done : List Node) (n : Node) (p : Path) (w : World)
    (t' : Task) (w' : World) : Prop where
  handled : Handled reply graph (n.walk done) w'
  calls : w'.calls = askedAfter past (n.walk done)
  placed : Placed done n t'
  timely : Timely reply n p t'
  outcome : (∃ r, t' = .done (.ok r)) ∨ w'.now < ends reply n
  begun : past = none → ∀ k, graph k → (w'.Begun k.id ↔ w.Begun k.id ∨ n.Reaches k)

/-- A pass has met a failure on the way that a walk takes: that of a stage which has
ended, while no stage before it fails so early. -/
def Broken (reply : Nat → Request → Reply) (past : Option (List Request))
    (done walked : List Node) (e : StageFailure) (w' : World) : Prop :=
  ∃ before f after,
    walked = done ++ before ++ f :: after ∧ ownFailure? reply f = some e ∧
    ends reply f ≤ w'.now ∧
    (∀ m ∈ before, ends reply m ≤ w'.now → ownFailure? reply m = none) ∧
    w'.calls = askedAfter past (done ++ before ++ [f])

/-- Letting the task of a stage run is on schedule, or it meets the first failure on the
way. -/
def Punctual (respond : Respond) (reply : Nat → Request → Reply) (graph : Node → Prop)
    (order : List Node) (past : Option (List Request)) (n : Node) : Prop :=
  ∀ p t w done, w.Tidy → w.Founded respond graph → Sound respond graph n p t w →
    Expected n p t w → Idle n p t w → Placed done n t → Timely reply n p t →
    Handled reply graph done w → w.calls = askedAfter past done →
    (t = .fresh ↔ past = none) → (past = none → Opening order done n w) →
    OnTime reply graph past done n p w ((actor respond n).poll p t w).1
        ((actor respond n).poll p t w).2 ∨
      ∃ e, ((actor respond n).poll p t w).1 = .done (.error e) ∧
        Broken reply past done (n.walk done) e ((actor respond n).poll p t w).2

/-- A failure among the inputs of a stage is one on the way to the stage. -/
theorem Broken.extend {walked rest : List Node}
    (h : Broken reply past done walked e w') :
    Broken reply past done (walked ++ rest) e w' := by
  obtain ⟨before, f, after, hwalked, hf⟩ := h
  exact ⟨before, f, after ++ rest, by simp [hwalked], hf⟩

/-- A failure on the way from later on is one on the way from the start, when no stage
in between fails so early. -/
theorem Broken.before {skipped walked : List Node}
    (h : Broken reply past (done ++ skipped) walked e w')
    (hskipped : ∀ m ∈ skipped, ends reply m ≤ w'.now → ownFailure? reply m = none) :
    Broken reply past done walked e w' := by
  obtain ⟨before, f, after, hwalked, hfailure, hends, hbefore, hcalls⟩ := h
  refine ⟨skipped ++ before, f, after, by simp [hwalked], hfailure, hends,
    ?_, by simpa using hcalls⟩
  intro m hm
  rcases List.mem_append.1 hm with hm | hm
  · exact hskipped m hm
  · exact hbefore m hm

theorem Broken.of_same {walked : List Node} {w'' : World}
    (h : Broken reply past done walked e w') (hnow : w''.now = w'.now)
    (hcalls : w''.calls = w'.calls) : Broken reply past done walked e w'' := by
  unfold Broken
  rw [hnow, hcalls]
  exact h

/-- No stage that a pass is done with has failed. -/
theorem Handled.ownFailure? (h : Handled reply graph done w) (hm : m ∈ done)
    (hends : ends reply m ≤ w.now) : Execution.ownFailure? reply m = none := by
  obtain ⟨r, hr⟩ := Option.isSome_iff_exists.1 (h.due m hm hends)
  exact ownFailure?_of_ok (h.kept m r (h.complete.within m hm) hr).1

end SeriesQuery.Execution
