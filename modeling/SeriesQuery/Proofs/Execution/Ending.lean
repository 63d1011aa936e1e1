import SeriesQuery.Execution.Run
import SeriesQuery.Proofs.Execution.Pass

/-!
# Runs come to an end

A run cannot get stuck.  Suppose that a pass has woken nobody and that no reply is
awaited.  Then no task is calling, and a task that queues does so behind the owner of
the turn at its stage, which is a task of the same stage that joins its inputs.  Such a
task has an input that is not done, and the stage of that input needs fewer stages.  So
there is no task that is not done, by induction on the size of its stage.  As passes
that change something come to an end too, every run without a deadline ends with a
result.

## Main results

* `all_done`: no task waits when nobody is woken and no reply is awaited.
* `Ready.proceed`: what holds in the end of a run, with a deadline or without.
-/

namespace SeriesQuery.Execution

open World

variable {respond : Respond} {graph : Node → Prop} {w w' : World} {root n m k : Node}
  {p q : Path} {t v : Task} {ts : List Task}

/-! ## No run gets stuck -/

private theorem cost_le_costAll {ns : List Node} (h : m ∈ ns) :
    cost m ≤ costAll ns := by
  induction ns with
  | nil => cases h
  | cons n ns ih =>
      rw [costAll]
      rcases List.mem_cons.1 h with rfl | h
      · omega
      · have hle := ih h
        omega

/-- A stage costs more than each of its inputs. -/
theorem cost_lt_of_mem (h : m ∈ n.inputs) : cost m < cost n := by
  cases n with
  | mk id name work inputs =>
      have hle : cost m ≤ costAll inputs := cost_le_costAll h
      rw [cost]
      omega

private theorem Holds.trans {u : Task} {i : Nat} (h : Holds n p t k q (.joining ts))
    (hm : k.inputs[i]? = some m) (hu : ts[i]? = some u) : Holds n p t m (i :: q) u := by
  generalize hv : Task.joining ts = v at h
  induction h with
  | here n p t =>
      subst hv
      exact .input i hm hu (.here m (i :: p) u)
  | input j hm' hu' _ ih => exact .input j hm' hu' (ih hm hv)

/-- Stages of a graph that have one number are one stage. -/
def Numbered (graph : Node → Prop) : Prop :=
  ∀ a b, graph a → graph b → a.id = b.id → a = b

/-- A task that queues does so behind a task of the same stage, and all that this one
can do is join: no reply is awaited, and it does not queue for a turn that it has. -/
theorem exists_joining (hclosed : Closed graph) (hnumbered : Numbered graph)
    (hroot : graph root) (hw : w.Tidy) (h : Sound respond graph root [] t w)
    (hquiet : Quiet root [] t w) (hnext : w.next = []) (htimers : w.timers = [])
    (hv : Holds root [] t k q .queued) :
    ∃ q' ts, Holds root [] t k q' (.joining ts) := by
  have hrests : w.Waits k.id q ∨ q ∈ w.next := hquiet k q _ hv
  rw [hnext] at hrests
  obtain ⟨s, hs, -⟩ : w.Waits k.id q := by
    rcases hrests with hwaits | hmem
    · exact hwaits
    · cases hmem
  have howns : w.Owns k.id s.owner := ⟨s, hs, rfl⟩
  obtain ⟨k', v', hv', hid, hlive⟩ := h.home k.id s.owner List.nil_suffix (Or.inl howns)
  have hsame :=
    hnumbered k' k (hv'.mem_graph hclosed hroot) (hv.mem_graph hclosed hroot) hid
  subst hsame
  have hrests' := hquiet k' s.owner v' hv'
  cases v' with
  | fresh => exact absurd hlive (fun hfalse => hfalse)
  | done result => exact absurd hlive (fun hfalse => hfalse)
  | joining ts => exact ⟨s.owner, ts, hv'⟩
  | calling due outcome =>
      have hmem : ⟨due, s.owner⟩ ∈ w.timers := hrests'
      rw [htimers] at hmem
      cases hmem
  | queued =>
      rcases hrests' with hwaits | hmem
      · exact absurd hwaits (hw.not_waits howns)
      · rw [hnext] at hmem
        cases hmem

/-- **No deadlock.**  When nobody is woken and no reply is awaited, all tasks are
done. -/
theorem all_done (hclosed : Closed graph) (hnumbered : Numbered graph)
    (hroot : graph root) (hw : w.Tidy) (h : Sound respond graph root [] t w)
    (hquiet : Quiet root [] t w) (hnext : w.next = []) (htimers : w.timers = []) :
    ∀ size k q v, cost k < size → Holds root [] t k q v → ∃ r, v = .done r := by
  intro size
  induction size with
  | zero => intro k q v hsize; omega
  | succ size ih =>
      have hjoining :
          ∀ k q ts, cost k < size + 1 → ¬ Holds root [] t k q (.joining ts) := by
        intro k q ts hsize hv
        obtain ⟨-, hlen, hresults, hfailure⟩ := h.okay k q _ hv
        obtain ⟨u, hu, hne⟩ := exists_undone hresults hfailure
        obtain ⟨i, hi, rfl⟩ := List.mem_iff_getElem.1 hu
        have hm := List.getElem?_eq_getElem (l := k.inputs) (by rw [← hlen]; exact hi)
        have hcost := cost_lt_of_mem (List.mem_of_getElem? hm)
        obtain ⟨r, hr⟩ :=
          ih _ _ _ (by omega) (hv.trans hm (List.getElem?_eq_getElem hi))
        exact hne r hr
      intro k q v hsize hv
      have hrests := hquiet k q v hv
      cases v with
      | fresh => exact absurd hrests (fun hfalse => hfalse)
      | joining ts => exact absurd hv (hjoining k q ts hsize)
      | calling due outcome =>
          have hmem : ⟨due, q⟩ ∈ w.timers := hrests
          rw [htimers] at hmem
          cases hmem
      | done result => exact ⟨result, rfl⟩
      | queued =>
          obtain ⟨q', ts, hv'⟩ :=
            exists_joining hclosed hnumbered hroot hw h hquiet hnext htimers hv
          exact absurd hv' (hjoining k q' ts hsize)

/-! ## Runs -/

/-- Turns and results are what the state of a task depends on. -/
theorem Sound.of_same (h : Sound respond graph n p t w) (hturns : w'.turns = w.turns)
    (hmemo : w'.memo = w.memo) : Sound respond graph n p t w' := by
  cases w
  cases w'
  dsimp only at hturns hmemo
  subst hturns hmemo
  refine ⟨fun k q v hv => ?_, fun id q hq hr => h.home id q hq hr⟩
  have hokay := h.okay k q v hv
  cases v with
  | done result =>
      cases result with
      | ok r => exact hokay
      | error e => exact hokay
  | fresh => exact hokay
  | queued => exact hokay
  | joining ts => exact hokay
  | calling due outcome => exact hokay

/-- What holds between two passes of a run. -/
structure Ready (respond : Respond) (graph : Node → Prop) (root : Node) (t : Task)
    (w : World) :
    Prop where
  tidy : w.Tidy
  founded : w.Founded respond graph
  sound : Sound respond graph root [] t w
  expected : Expected root [] t w

/-- A run may begin with results that are founded on each other. -/
theorem Ready.start {memo : Memo} (hf : (World.start memo).Founded respond graph) :
    Ready respond graph root .fresh (.start memo) := by
  have hturn : ∀ id, (World.start memo).turn? id = none := fun id => rfl
  refine ⟨⟨List.nodup_nil, by simp [World.start], fun id r _ => hturn id⟩, hf,
    ?_, Or.inl rfl⟩
  refine Sound.absented ?_ (by simp) trivial
  rintro id q - (ho | hwaits)
  · exact ho.turn?_ne_none (hturn id)
  · exact hwaits.turn?_ne_none (hturn id)

/-- A run may begin with no results. -/
theorem Ready.nil : Ready respond graph root .fresh (.start []) :=
  .start fun _ _ hr => by cases hr

/-- All tasks have been woken that need help, when everything that happens wakes those
that wait for it. -/
theorem Quiet.later (h : Quiet n p t w) (hturns : w'.turns = w.turns)
    (hnext : ∀ q ∈ w.next, q ∈ w'.woken)
    (htimers : ∀ due q, ⟨due, q⟩ ∈ w.timers →
      ⟨due, q⟩ ∈ w'.timers ∨ (q ∈ w'.woken ∧ due ≤ w'.now)) : Expected n p t w' := by
  right
  intro k q v hv
  have hrests := h k q v hv
  cases v with
  | fresh => exact absurd hrests (fun hfalse => hfalse)
  | queued =>
      rcases hrests with ⟨s, hs, hmem⟩ | hmem
      · left
        left
        refine ⟨s, ?_, hmem⟩
        rw [turn?, hturns]
        exact hs
      · exact Or.inr (hnext q hmem)
  | joining ts => exact Or.inl trivial
  | calling due outcome => exact htimers due q hrests
  | done result => exact Or.inl trivial

/-- A pass leaves a run ready for a later moment when everything that happens by then
wakes those that wait for it. -/
theorem Ready.later (hw : w.Tidy) (hf : w.Founded respond graph)
    (hs : Sound respond graph root [] t w) (hq : Quiet root [] t w)
    (hturns : w'.turns = w.turns) (hmemo : w'.memo = w.memo)
    (hnext : ∀ q ∈ w.next, q ∈ w'.woken)
    (htimers : ∀ due q, ⟨due, q⟩ ∈ w.timers →
      ⟨due, q⟩ ∈ w'.timers ∨ (q ∈ w'.woken ∧ due ≤ w'.now)) :
    Ready respond graph root t w' where
  tidy := hw.of_same hturns hmemo
  founded := hf.of_memo hmemo
  sound := hs.of_same hturns hmemo
  expected := hq.later hturns hnext htimers

/-- What holds in the end of a run: its result is kept or brought about by a stage. -/
structure Ended (respond : Respond) (graph : Node → Prop) (root : Node)
    (deadline : Option Nat) (o : Outcome) : Prop where
  founded : o.world.Founded respond graph
  okay :
    ∀ result, o.result = some result → Okay respond graph o.world root [] (.done result)
  ends : o.result = none → deadline ≠ none

/-- A run that moves on in time loses no reply. -/
theorem advance?_eq_some (h : w.advance? = some w') :
    w'.turns = w.turns ∧ w'.memo = w.memo ∧
      ∀ due q, ⟨due, q⟩ ∈ w.timers → ⟨due, q⟩ ∈ w'.timers ∨
        (q ∈ w'.woken ∧ due ≤ w'.now) := by
  unfold advance? at h
  obtain ⟨now, -, rfl⟩ := Option.map_eq_some_iff.1 h
  refine ⟨rfl, rfl, ?_⟩
  intro due q hmem
  by_cases hdue : due ≤ now
  · right
    refine ⟨List.mem_map.2 ⟨⟨due, q⟩, List.mem_filter.2 ⟨hmem, ?_⟩, rfl⟩, hdue⟩
    simpa using hdue
  · left
    refine List.mem_filter.2 ⟨hmem, ?_⟩
    simpa using hdue

private theorem advance?_eq_none (h : w.advance? = none) : w.timers = [] := by
  unfold advance? at h
  simpa using h

/-- **Going on.**  When a task is not done and nobody is woken, a reply is awaited. -/
theorem advance?_ne_none (hclosed : Closed graph) (hnumbered : Numbered graph)
    (hroot : graph root) (hw : w.Tidy) (h : Sound respond graph root [] t w)
    (hquiet : Quiet root [] t w) (hdone : ∀ r, t ≠ .done r) (hnext : w.next = []) :
    w.advance? ≠ none := by
  intro hnone
  obtain ⟨r, hr⟩ :=
    all_done hclosed hnumbered hroot hw h hquiet hnext (advance?_eq_none hnone) _
    root [] t (Nat.lt_succ_self _) (.here root [] t)
  exact hdone r hr

/-- A pass of a run. -/
theorem Ready.pass (hclosed : Closed graph) (hroot : graph root)
    (h : Ready respond graph root t w) {t' : Task}
    (hpoll : (actor respond root).poll [] t w = (t', w')) :
    w'.Tidy ∧ w'.Founded respond graph ∧ Sound respond graph root [] t' w' ∧
      Quiet root [] t' w' := by
  have hpassed := passing respond hclosed root hroot [] t w h.tidy h.sound h.expected
  rw [hpoll] at hpassed
  exact ⟨hpassed.moves.tidy h.tidy, hpassed.moves.founded h.tidy h.founded,
    hpassed.sound, hpassed.quiet⟩

/-- **Ending.**  A run that is ready ends, and it ends with a result unless a deadline
cuts it off. -/
theorem Ready.proceed (hclosed : Closed graph) (hnumbered : Numbered graph)
    (hroot : graph root) {deadline : Option Nat}
    (h : Ready respond graph root t { w with next := [] }) :
    Ended respond graph root deadline
      (Execution.proceed respond deadline root t w) := by
  fun_induction Execution.proceed respond deadline root t w with
  | case1 t w awake result w' hpoll =>
      obtain ⟨-, hfounded, hsound, -⟩ := h.pass hclosed hroot hpoll
      refine ⟨hfounded, ?_, by simp⟩
      intro result' hresult
      rw [Option.some.injEq] at hresult
      subst hresult
      exact hsound.okay _ _ _ (.here _ _ _)
  | case2 t w awake t' w' hdone hpoll hwoke ih =>
      obtain ⟨htidy, hfounded, hsound, hquiet⟩ := h.pass hclosed hroot hpoll
      refine ih (.later htidy hfounded hsound hquiet rfl rfl (fun q hq => hq) ?_)
      intro due q hmem
      exact Or.inl hmem
  | case3 t w awake t' w' hdone hpoll hwoke hlater =>
      obtain ⟨htidy, -, hsound, hquiet⟩ := h.pass hclosed hroot hpoll
      exact absurd hlater
        (advance?_ne_none hclosed hnumbered hroot htidy hsound hquiet hdone
        (by simpa using hwoke))
  | case4 t w awake t' w' hdone hpoll hwoke w'' hlater hdeadline =>
      obtain ⟨-, hfounded, -, -⟩ := h.pass hclosed hroot hpoll
      refine ⟨hfounded, by simp, ?_⟩
      rintro - rfl
      cases hdeadline
  | case5 t w awake t' w' hdone hpoll hwoke w'' hlater hdeadline ih =>
      obtain ⟨htidy, hfounded, hsound, hquiet⟩ := h.pass hclosed hroot hpoll
      obtain ⟨hturns, hmemo, htimers⟩ := advance?_eq_some hlater
      have hnext : w'.next = [] := by simpa using hwoke
      refine ih (.later htidy hfounded hsound hquiet hturns hmemo ?_ htimers)
      intro q hmem
      rw [hnext] at hmem
      cases hmem

/-- A run that may take a number of passes; none when it takes more. -/
def proceedFor (respond : Respond) (deadline : Option Nat) (root : Node) :
    Nat → Task → World → Option Outcome
  | 0, _, _ => none
  | passes + 1, t, w =>
    match (actor respond root).poll [] t { w with next := [] } with
    | (.done r, w') => some ⟨some r, w'⟩
    | (t', w') =>
      if w'.next ≠ [] then
        proceedFor respond deadline root passes t' { w' with woken := w'.next }
      else
        match w'.advance? with
        | none => some ⟨none, w'⟩
        | some w'' =>
          if deadline.any (· < w''.now) then some ⟨none, w'⟩
          else proceedFor respond deadline root passes t' w''

private theorem proceedFor_of_not_done {deadline : Option Nat} {passes : Nat}
    {t' : Task}
    (hpoll : (actor respond root).poll [] t { w with next := [] } = (t', w'))
    (hdone : ∀ r, t' ≠ .done r) :
    proceedFor respond deadline root (passes + 1) t w =
      if w'.next ≠ [] then
        proceedFor respond deadline root passes t' { w' with woken := w'.next }
      else
        match w'.advance? with
        | none => some ⟨none, w'⟩
        | some w'' =>
          if deadline.any (· < w''.now) then some ⟨none, w'⟩
          else proceedFor respond deadline root passes t' w'' := by
  rw [proceedFor, hpoll]
  split
  · next hstep =>
    cases hstep
    exact absurd rfl (hdone _)
  · next hstep =>
    cases hstep
    rfl

/-- What comes of a run that ends in a number of passes. -/
theorem proceed_eq_of_proceedFor {deadline : Option Nat} {o : Outcome} (passes : Nat) :
    ∀ {t : Task} {w : World}, proceedFor respond deadline root passes t w = some o →
      proceed respond deadline root t w = o := by
  induction passes with
  | zero => intro t w h; cases h
  | succ passes ih =>
      intro t w h
      fun_cases proceed respond deadline root t w with
      | case1 awake result w' hpoll =>
          rw [proceedFor, hpoll] at h
          exact Option.some.inj h
      | case2 awake t' w' hdone hpoll hwoke =>
          rw [proceedFor_of_not_done hpoll hdone, if_pos hwoke] at h
          exact ih h
      | case3 awake t' w' hdone hpoll hwoke hnone =>
          rw [proceedFor_of_not_done hpoll hdone, if_neg hwoke, hnone] at h
          exact Option.some.inj h
      | case4 awake t' w' hdone hpoll hwoke w'' hsome hdeadline =>
          rw [proceedFor_of_not_done hpoll hdone, if_neg hwoke, hsome] at h
          dsimp only at h
          rw [if_pos hdeadline] at h
          exact Option.some.inj h
      | case5 awake t' w' hdone hpoll hwoke w'' hsome hdeadline =>
          rw [proceedFor_of_not_done hpoll hdone, if_neg hwoke, hsome] at h
          dsimp only at h
          rw [if_neg hdeadline] at h
          exact ih h

/-- A run goes on to its next pass: at the same moment, or when the next reply comes
in. -/
structure Later (w w' : World) : Prop where
  turns : w'.turns = w.turns
  memo : w'.memo = w.memo
  calls : w'.calls = w.calls
  clock : (w'.now = w.now ∧ w'.timers = w.timers) ∨
    ((∃ s ∈ w.timers, w'.now = s.due) ∧ (∀ s ∈ w.timers, w'.now ≤ s.due) ∧
      ∀ s ∈ w'.timers, w'.now < s.due)

theorem Later.of_advance? (h : w.advance? = some w') :
    Later w { w' with next := [] } := by
  unfold advance? at h
  obtain ⟨now, hmin, rfl⟩ := Option.map_eq_some_iff.1 h
  obtain ⟨hmem, hle⟩ := List.min?_eq_some_iff.1 hmin
  obtain ⟨s, hs, hdue⟩ := List.mem_map.1 hmem
  refine ⟨rfl, rfl, rfl,
    Or.inr ⟨⟨s, hs, hdue.symm⟩, fun s hs => hle _ (List.mem_map_of_mem hs),
    fun s hs => ?_⟩⟩
  simpa using (List.mem_filter.1 hs).2

/-- **Induction along a run.**  What every pass makes of what holds before it holds in
the end, when going on makes of it again what holds before a pass. -/
theorem Ready.along {P Q : Task → World → Prop} (hclosed : Closed graph)
    (hroot : graph root) {deadline : Option Nat}
    (hpass : ∀ {t w t' w'}, Ready respond graph root t w → P t w →
      (actor respond root).poll [] t w = (t', w') → Q t' w')
    (hlater : ∀ {t w w'}, (∀ r, t ≠ .done r) → Ready respond graph root t w' → Q t w →
      Later w w' → P t w')
    (h : Ready respond graph root t { w with next := [] })
    (hP : P t { w with next := [] }) :
    ∃ t', Q t' (Execution.proceed respond deadline root t w).world ∧
      ∀ r, (Execution.proceed respond deadline root t w).result = some r ↔
        t' = .done r := by
  fun_induction Execution.proceed respond deadline root t w with
  | case1 t w awake result w' hpoll =>
      exact ⟨_, hpass h hP hpoll, by simp⟩
  | case2 t w awake t' w' hdone hpoll hwoke ih =>
      obtain ⟨htidy, hfounded, hsound, hquiet⟩ := h.pass hclosed hroot hpoll
      have hready :
          Ready respond graph root t' { w' with woken := w'.next, next := [] } :=
        .later htidy hfounded hsound hquiet rfl rfl (fun q hq => hq)
          fun due q hmem => Or.inl hmem
      exact ih hready (hlater hdone hready (hpass h hP hpoll)
        ⟨rfl, rfl, rfl, Or.inl ⟨rfl, rfl⟩⟩)
  | case3 t w awake t' w' hdone hpoll hwoke hnone =>
      exact ⟨t', hpass h hP hpoll, by simpa using hdone⟩
  | case4 t w awake t' w' hdone hpoll hwoke w'' hsome hdeadline =>
      exact ⟨t', hpass h hP hpoll, by simpa using hdone⟩
  | case5 t w awake t' w' hdone hpoll hwoke w'' hsome hdeadline ih =>
      obtain ⟨htidy, hfounded, hsound, hquiet⟩ := h.pass hclosed hroot hpoll
      obtain ⟨hturns, hmemo, htimers⟩ := advance?_eq_some hsome
      have hnext : w'.next = [] := by simpa using hwoke
      have hready : Ready respond graph root t' { w'' with next := [] } := by
        refine .later htidy hfounded hsound hquiet hturns hmemo ?_ htimers
        intro q hmem
        rw [hnext] at hmem
        cases hmem
      exact ih hready (hlater hdone hready (hpass h hP hpoll) (.of_advance? hsome))

/-- A run that starts with results that are founded on each other ends. -/
theorem run_ended (hclosed : Closed graph) (hnumbered : Numbered graph)
    (hroot : graph root) {memo : Memo} (hf : (World.start memo).Founded respond graph)
    (deadline : Option Nat) :
    Ended respond graph root deadline (run respond deadline memo root) :=
  Ready.proceed hclosed hnumbered hroot (.start hf)

end SeriesQuery.Execution
