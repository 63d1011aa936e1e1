import Mathlib.Logic.Relation
import SeriesQuery.Proofs.Execution.Turn

/-!
# Moves

Whatever a task does, it changes the world by a few moves, each made in its own name: it
takes a turn, queues, keeps a result, passes its turn on, leaves, asks, takes a reply
in, or lets itself be woken.  So what one task relies on is not disturbed by a move of
another: a result stays kept, a turn stays with its owner, and a task that queues goes
on queueing until it is woken.

Only a task that has the turn at a stage may keep a result for it, and only one that the
stage's work gives over the kept results of its inputs.  Hence all results that are kept
are founded on each other.

## Main results

* `Move.tidy`, `Move.founded`: a move keeps the world in order.
* `Move.owns`, `Move.waits`, `Move.role`: the frame of a move.
* `Moves.owns`, `Moves.rests`: the same for all moves of a task and of those below it.
-/

namespace SeriesQuery.Execution

open SeriesQuery.Backend (Request Response)

/-! ## Results of a stage's work -/

/-- What comes of a stage's work over the results of its inputs, whenever it asks the
backend. -/
def Gives (respond : Respond) (work : Work) (rs : List SeriesResult)
    (result : Except StageFailure SeriesResult) : Prop :=
  match work with
  | .ask request =>
    ∃ k,
      ((respond k request).outcome.map SeriesResult.ofResponse).mapError
      .remote = result
  | .combine c => combine c rs = result

namespace World

/-- The results of some stages are kept. -/
def Recalls (w : World) (ns : List Node) (rs : List SeriesResult) : Prop :=
  List.Forall₂ (fun n r => w.recalled? n.id = some r) ns rs

/-- What comes of a stage's work over the results that are kept for its inputs. -/
def Gives (respond : Respond) (w : World) (n : Node)
    (result : Except StageFailure SeriesResult) : Prop :=
  ∃ rs, w.Recalls n.inputs rs ∧ Execution.Gives respond n.work rs result

/-- Every result that is kept comes of the work of a stage. -/
def Founded (respond : Respond) (graph : Node → Prop) (w : World) : Prop :=
  ∀ id r, w.recalled? id = some r → ∃ n, graph n ∧ n.id = id ∧ w.Gives respond n (.ok r)

end World

open World

variable {respond : Respond} {graph : Node → Prop} {w w' : World} {id : Nat}
  {p q q' : Path}

/-- More results can be kept without a change to what comes of a stage's work. -/
theorem World.Gives.mono {n : Node} {result : Except StageFailure SeriesResult}
    (h : w.Gives respond n result)
    (hkeep : ∀ id r, w.recalled? id = some r → w'.recalled? id = some r) :
    w'.Gives respond n result := by
  obtain ⟨rs, hrs, hgives⟩ := h
  exact ⟨rs, hrs.imp fun _ _ hr => hkeep _ _ hr, hgives⟩

/-! ## Worlds of the same turns and results -/

theorem World.Tidy.of_same (h : w.Tidy) (hturns : w'.turns = w.turns)
    (hmemo : w'.memo = w.memo) : w'.Tidy := by
  cases w
  cases w'
  dsimp only at hturns hmemo
  subst hturns hmemo
  exact ⟨h.distinct, h.single, h.unkept⟩

theorem recalled?_of_memo (hmemo : w'.memo = w.memo) :
    w'.recalled? id = w.recalled? id := by
  rw [recalled?, hmemo, recalled?]

theorem World.Gives.of_memo {n : Node} {result : Except StageFailure SeriesResult}
    (h : w.Gives respond n result) (hmemo : w'.memo = w.memo) :
    w'.Gives respond n result :=
  h.mono fun _ _ hr => by rw [recalled?_of_memo hmemo]; exact hr

theorem World.Founded.of_memo (h : w.Founded respond graph) (hmemo : w'.memo = w.memo) :
    w'.Founded respond graph := by
  intro id r hr
  rw [recalled?_of_memo hmemo] at hr
  obtain ⟨n, hn, hid, hgives⟩ := h id r hr
  exact ⟨n, hn, hid, hgives.of_memo hmemo⟩

/-! ## Moves -/

/-- What the task at a place may do to the world. -/
inductive Move (respond : Respond) (graph : Node → Prop) (q : Path) :
    World → World → Prop
  | take {w : World} (n : Node) : graph n → w.recalled? n.id = none →
      w.turn? n.id = none → Move respond graph q w (w.take n.id q)
  | queue {w : World} (n : Node) : graph n → ¬ w.Owns n.id q → ¬ w.Waits n.id q →
      Move respond graph q w (w.queue n.id q)
  | settle {w : World} (n : Node) (r : SeriesResult) : graph n → w.Owns n.id q →
      w.Gives respond n (.ok r) → Move respond graph q w (w.settle n.id r)
  | release {w : World} (id : Nat) : w.Owns id q → Move respond graph q w (w.release id)
  | leave {w : World} (id : Nat) : Move respond graph q w (w.leave id q)
  | call {w : World} (n : Node) (request : Request) : graph n → n.work = .ask request →
      w.Owns n.id q → Move respond graph q w (w.call request)
  | receive {w : World} (request : Request) : Move respond graph q w (w.receive request)
  | await {w : World} (due : Nat) : w.now < due → Move respond graph q w (w.await due q)
  | forget {w : World} : Move respond graph q w (w.forget q)

theorem Move.tidy (h : Move respond graph q w w') (hw : w.Tidy) : w'.Tidy := by
  cases h with
  | take n _ hr hnone => exact hw.take hnone hr
  | queue n _ howns hwaits => exact hw.queue howns hwaits
  | settle n r _ _ _ => exact hw.settle
  | release j _ => exact hw.release
  | leave j => exact hw.leave
  | call n request _ _ _ => exact ⟨hw.distinct, hw.single, hw.unkept⟩
  | receive request => exact ⟨hw.distinct, hw.single, hw.unkept⟩
  | await due => exact ⟨hw.distinct, hw.single, hw.unkept⟩
  | forget => exact ⟨hw.distinct, hw.single, hw.unkept⟩

/-- A result that is kept stays as it is: whoever keeps a result has the turn at its
stage. -/
theorem Move.recalled? (h : Move respond graph q w w') (hw : w.Tidy) {r : SeriesResult}
    (hr : w.recalled? id = some r) : w'.recalled? id = some r := by
  cases h with
  | settle n r' _ howns _ =>
      have hne : n.id ≠ id := by
        rintro rfl
        rw [hw.recalled?_eq_none howns.turn?_ne_none] at hr
        cases hr
      rw [recalled?_settle, if_neg hne]
      exact hr
  | leave j => rwa [recalled?_leave]
  | take n _ _ _ => exact hr
  | queue n _ _ _ => exact hr
  | release j _ => exact hr
  | call n request _ _ _ => exact hr
  | receive request => exact hr
  | await due => exact hr
  | forget => exact hr

/-- A result that is new comes of the work of a stage. -/
theorem Move.earned (h : Move respond graph q w w') (hw : w.Tidy) {r : SeriesResult}
    (hr : w'.recalled? id = some r) :
    w.recalled? id = some r ∨
      ∃ n, graph n ∧ n.id = id ∧ w'.Gives respond n (.ok r) := by
  have hkeep : ∀ i r, w.recalled? i = some r → w'.recalled? i = some r :=
    fun i r => h.recalled? hw
  cases h with
  | settle n r' hn _ hgives =>
      rw [recalled?_settle] at hr
      by_cases hid : n.id = id
      · rw [if_pos hid, Option.some.injEq] at hr
        subst hr
        exact Or.inr ⟨n, hn, hid, hgives.mono hkeep⟩
      · rw [if_neg hid] at hr
        exact Or.inl hr
  | leave j =>
      rw [recalled?_leave] at hr
      exact Or.inl hr
  | take n _ _ _ => exact Or.inl hr
  | queue n _ _ _ => exact Or.inl hr
  | release j _ => exact Or.inl hr
  | call n request _ _ _ => exact Or.inl hr
  | receive request => exact Or.inl hr
  | await due _ => exact Or.inl hr
  | forget => exact Or.inl hr

theorem Move.founded (h : Move respond graph q w w') (hw : w.Tidy)
    (hf : w.Founded respond graph) : w'.Founded respond graph := by
  intro i r hi
  rcases h.earned hw hi with hold | hnew
  · obtain ⟨n, hn, hid, hgives⟩ := hf i r hold
    exact ⟨n, hn, hid, hgives.mono fun _ _ => h.recalled? hw⟩
  · exact hnew

/-- A move takes no turn from another task. -/
theorem Move.owns (h : Move respond graph q w w') (hw : w.Tidy) (hne : q' ≠ q)
    (ho : w.Owns id q') : w'.Owns id q' := by
  cases h with
  | take n _ _ hnone => exact (owns_take hnone).2 (Or.inl ho)
  | queue n _ _ _ => exact owns_queue.2 ho
  | settle n r _ howns _ =>
      refine owns_settle.2 ⟨?_, ho⟩
      rintro rfl
      exact hne (ho.eq howns)
  | release j howns =>
      refine (owns_release hw).2 (Or.inl ⟨?_, ho⟩)
      rintro rfl
      exact hne (ho.eq howns)
  | leave j =>
      by_cases hq : w.Owns j q
      · rw [leave_of_owns hq]
        refine (owns_release hw).2 (Or.inl ⟨?_, ho⟩)
        rintro rfl
        exact hne (ho.eq hq)
      · exact (owns_leave_of_not_owns hq).2 ho
  | call n request _ _ _ => exact ho
  | receive request => exact ho
  | await due => exact ho
  | forget => exact ho

/-- Another task that queues goes on queueing unless it is woken, and then it has the
turn or the result is kept. -/
theorem Move.waits (h : Move respond graph q w w') (hw : w.Tidy) (hne : q' ≠ q)
    (hq : w.Waits id q') :
    w'.Waits id q' ∨
      (q' ∈ w'.next ∧ (w'.Owns id q' ∨ (w'.recalled? id).isSome = true)) := by
  cases h with
  | take n _ _ hnone => exact Or.inl ((waits_take hnone).2 hq)
  | queue n _ _ _ => exact Or.inl (waits_queue.2 (Or.inl hq))
  | settle n r _ _ _ =>
      by_cases hid : id = n.id
      · subst hid
        exact Or.inr ⟨hq.mem_next_settle, Or.inr (by rw [recalled?_settle]; simp)⟩
      · exact Or.inl (waits_settle.2 ⟨hid, hq⟩)
  | release j _ =>
      rcases World.Waits.release hw hq with hwaits | ⟨howns, hnext⟩
      · exact Or.inl hwaits
      · exact Or.inr ⟨hnext, Or.inl howns⟩
  | leave j =>
      by_cases ho : w.Owns j q
      · rw [leave_of_owns ho]
        rcases World.Waits.release hw hq with hwaits | ⟨howns, hnext⟩
        · exact Or.inl hwaits
        · exact Or.inr ⟨hnext, Or.inl howns⟩
      · exact Or.inl ((waits_leave_of_not_owns ho).2 ⟨hq, fun _ => hne⟩)
  | call n request _ _ _ => exact Or.inl hq
  | receive request => exact Or.inl hq
  | await due => exact Or.inl hq
  | forget => exact Or.inl hq

/-- A move puts no other task into a turn or a queue. -/
theorem Move.role (h : Move respond graph q w w') (hw : w.Tidy) (hne : q' ≠ q)
    (hr : w'.Owns id q' ∨ w'.Waits id q') : w.Owns id q' ∨ w.Waits id q' := by
  have hrelease : ∀ j, (w.release j).Owns id q' ∨ (w.release j).Waits id q' →
      w.Owns id q' ∨ w.Waits id q' := by
    intro j hj
    rw [owns_release hw, waits_release hw] at hj
    rcases hj with (⟨-, ho⟩ | ⟨rfl, t, ht, hhead⟩) | (⟨-, hq⟩ | ⟨rfl, t, ht, htail⟩)
    · exact Or.inl ho
    · exact Or.inr ⟨t, ht, List.mem_of_mem_head? hhead⟩
    · exact Or.inr hq
    · exact Or.inr ⟨t, ht, List.mem_of_mem_tail htail⟩
  cases h with
  | take n _ _ hnone =>
      rw [owns_take hnone, waits_take hnone] at hr
      rcases hr with (ho | ⟨-, heq⟩) | hq
      · exact Or.inl ho
      · exact absurd heq hne
      · exact Or.inr hq
  | queue n _ _ _ =>
      rw [owns_queue, waits_queue] at hr
      rcases hr with ho | (hq | ⟨-, heq, -⟩)
      · exact Or.inl ho
      · exact Or.inr hq
      · exact absurd heq hne
  | settle n r _ _ _ =>
      rw [owns_settle, waits_settle] at hr
      rcases hr with ⟨-, ho⟩ | ⟨-, hq⟩
      · exact Or.inl ho
      · exact Or.inr hq
  | release j _ => exact hrelease j hr
  | leave j =>
      by_cases hj : w.Owns j q
      · rw [leave_of_owns hj] at hr
        exact hrelease j hr
      · rw [owns_leave_of_not_owns hj, waits_leave_of_not_owns hj] at hr
        rcases hr with ho | ⟨hq, -⟩
        · exact Or.inl ho
        · exact Or.inr hq
  | call n request _ _ _ => exact hr
  | receive request => exact hr
  | await due => exact hr
  | forget => exact hr

/-- A move wakes tasks and lets none of those that are woken sleep again. -/
theorem Move.mem_next (h : Move respond graph q w w') (hq : q' ∈ w.next) :
    q' ∈ w'.next := by
  cases h with
  | settle n r _ _ _ => exact List.mem_append_left _ hq
  | release j _ => exact List.mem_append_left _ hq
  | leave j =>
      unfold World.leave
      split
      · exact List.mem_append_left _ hq
      · exact hq
  | take n _ _ _ => exact hq
  | queue n _ _ _ => exact hq
  | call n request _ _ _ => exact hq
  | receive request => exact hq
  | await due => exact hq
  | forget => exact hq

/-- A move leaves the replies alone that other tasks wait for. -/
theorem Move.mem_timers (h : Move respond graph q w w') (hne : q' ≠ q) {due : Nat}
    (ht : ⟨due, q'⟩ ∈ w.timers) : ⟨due, q'⟩ ∈ w'.timers := by
  cases h with
  | await later => exact List.mem_append_left _ ht
  | forget => exact List.mem_filter.2 ⟨ht, by simpa using hne⟩
  | leave j =>
      unfold World.leave
      split <;> exact ht
  | settle n r _ _ _ => exact ht
  | release j _ => exact ht
  | take n _ _ _ => exact ht
  | queue n _ _ _ => exact ht
  | call n request _ _ _ => exact ht
  | receive request => exact ht

/-- A move asks at most for a stage that has no result. -/
theorem Move.calls (h : Move respond graph q w w') (hw : w.Tidy) :
    w'.calls = w.calls ∨
      ∃ n request, graph n ∧ n.work = .ask request ∧ w.recalled? n.id = none ∧
      w'.calls = w.calls ++ [request] := by
  cases h with
  | call n request hn hwork howns =>
      exact Or.inr ⟨n, request, hn, hwork,
        hw.recalled?_eq_none howns.turn?_ne_none, rfl⟩
  | leave j =>
      unfold World.leave
      split
      · exact Or.inl rfl
      · exact Or.inl rfl
  | take n _ _ _ => exact Or.inl rfl
  | queue n _ _ _ => exact Or.inl rfl
  | settle n r _ _ _ => exact Or.inl rfl
  | release j _ => exact Or.inl rfl
  | receive request => exact Or.inl rfl
  | await due _ => exact Or.inl rfl
  | forget => exact Or.inl rfl

/-- A move lets a task wait for later moments only. -/
theorem Move.awaits (h : Move respond graph q w w')
    (htimers : ∀ s ∈ w.timers, w.now < s.due) : ∀ s ∈ w'.timers, w'.now < s.due := by
  cases h with
  | await due hdue =>
      intro s hs
      rcases List.mem_append.1 hs with hs | hs
      · exact htimers s hs
      · rw [List.mem_singleton.1 hs]
        exact hdue
  | forget => exact fun s hs => htimers s (List.mem_of_mem_filter hs)
  | leave j =>
      unfold World.leave
      split <;> exact htimers
  | settle n r _ _ _ => exact htimers
  | release j _ => exact htimers
  | take n _ _ _ => exact htimers
  | queue n _ _ _ => exact htimers
  | call n request _ _ _ => exact htimers
  | receive request => exact htimers

/-- Time stands still, and so does the list of tasks that this pass is for. -/
theorem Move.clock (h : Move respond graph q w w') :
    w'.now = w.now ∧ w'.woken = w.woken := by
  cases h with
  | leave j =>
      unfold World.leave
      split <;> exact ⟨rfl, rfl⟩
  | settle n r _ _ _ => exact ⟨rfl, rfl⟩
  | release j _ => exact ⟨rfl, rfl⟩
  | take n _ _ _ => exact ⟨rfl, rfl⟩
  | queue n _ _ _ => exact ⟨rfl, rfl⟩
  | call n request _ _ _ => exact ⟨rfl, rfl⟩
  | receive request => exact ⟨rfl, rfl⟩
  | await due => exact ⟨rfl, rfl⟩
  | forget => exact ⟨rfl, rfl⟩

/-! ## Several moves -/

/-- Moves of tasks at some places, one after another. -/
def Moves (respond : Respond) (graph : Node → Prop) (places : Path → Prop) : World →
    World → Prop :=
  Relation.ReflTransGen fun w w' => ∃ q, places q ∧ Move respond graph q w w'

variable {places places' : Path → Prop}

/-- A place where nobody moves is not one where somebody does. -/
theorem ne_of_not (hq : ¬ places q) (hq' : places q') : q ≠ q' := by
  rintro rfl
  exact hq hq'

theorem Moves.refl (w : World) : Moves respond graph places w w :=
  Relation.ReflTransGen.refl

theorem Moves.trans {w'' : World} (h : Moves respond graph places w w')
    (h' : Moves respond graph places w' w'') : Moves respond graph places w w'' :=
  Relation.ReflTransGen.trans h h'

private theorem Move.moves (h : Move respond graph q w w') (hq : places q) :
    Moves respond graph places w w' :=
  Relation.ReflTransGen.single ⟨q, hq, h⟩

/-- A move is one at or below the place where it is made. -/
theorem Move.within (h : Move respond graph p w w') :
    Moves respond graph (fun q => p <:+ q) w w' :=
  h.moves (List.suffix_refl p)

theorem Moves.mono (h : Moves respond graph places w w')
    (hsub : ∀ q, places q → places' q) : Moves respond graph places' w w' :=
  Relation.ReflTransGen.mono (fun _ _ ⟨q, hq, hmove⟩ => ⟨q, hsub q hq, hmove⟩) _ _ h

/-- **Induction.**  What every move keeps in a tidy world is kept by several. -/
theorem Moves.keeps {P : World → Prop}
    (hstep : ∀ {q w w'}, places q → Move respond graph q w w' → w.Tidy → P w → P w')
    (h : Moves respond graph places w w') (hw : w.Tidy) (hP : P w) :
    w'.Tidy ∧ P w' := by
  induction h with
  | refl => exact ⟨hw, hP⟩
  | tail _ hmove ih =>
      obtain ⟨q, hq, hmove⟩ := hmove
      exact ⟨hmove.tidy ih.1, hstep hq hmove ih.1 ih.2⟩

theorem Moves.tidy (h : Moves respond graph places w w') (hw : w.Tidy) : w'.Tidy :=
  (h.keeps (P := fun _ => True) (fun _ _ _ _ => trivial) hw trivial).1

theorem Moves.recalled? (h : Moves respond graph places w w') (hw : w.Tidy)
    {r : SeriesResult} (hr : w.recalled? id = some r) : w'.recalled? id = some r :=
  (h.keeps (P := fun w => w.recalled? id = some r)
    (fun _ hm hw hr => hm.recalled? hw hr) hw hr).2

theorem Moves.founded (h : Moves respond graph places w w') (hw : w.Tidy)
    (hf : w.Founded respond graph) : w'.Founded respond graph :=
  (h.keeps (P := fun w => w.Founded respond graph)
    (fun _ hm hw hf => hm.founded hw hf) hw hf).2

theorem Moves.gives (h : Moves respond graph places w w') (hw : w.Tidy) {n : Node}
    {result : Except StageFailure SeriesResult} (hg : w.Gives respond n result) :
    w'.Gives respond n result :=
  hg.mono fun _ _ => h.recalled? hw

theorem Moves.owns (h : Moves respond graph places w w') (hw : w.Tidy) (hq : ¬ places q)
    (ho : w.Owns id q) : w'.Owns id q :=
  (h.keeps (P := fun w => w.Owns id q)
    (fun hp hm hw ho => hm.owns hw (ne_of_not hq hp) ho) hw ho).2

theorem Moves.mem_timers (h : Moves respond graph places w w') (hw : w.Tidy)
    (hq : ¬ places q) {due : Nat} (ht : ⟨due, q⟩ ∈ w.timers) : ⟨due, q⟩ ∈ w'.timers :=
  (h.keeps (P := fun w => ⟨due, q⟩ ∈ w.timers)
    (fun hp hm _ ht => hm.mem_timers (ne_of_not hq hp) ht) hw ht).2

theorem Moves.clock (h : Moves respond graph places w w') :
    w'.now = w.now ∧ w'.woken = w.woken := by
  induction h with
  | refl => exact ⟨rfl, rfl⟩
  | tail _ hmove ih =>
      obtain ⟨q, -, hmove⟩ := hmove
      exact ⟨hmove.clock.1.trans ih.1, hmove.clock.2.trans ih.2⟩

/-- Tasks wait for replies that are still to come in. -/
theorem Moves.awaits (h : Moves respond graph places w w') (hw : w.Tidy)
    (htimers : ∀ s ∈ w.timers, w.now < s.due) : ∀ s ∈ w'.timers, w'.now < s.due :=
  (h.keeps (P := fun w => ∀ s ∈ w.timers, w.now < s.due)
    (fun _ hm _ htimers => hm.awaits htimers) hw htimers).2

/-- Moves elsewhere put a task into no turn and no queue. -/
theorem Moves.role (h : Moves respond graph places w w') (hw : w.Tidy) (hq : ¬ places q)
    (hr : w'.Owns id q ∨ w'.Waits id q) : w.Owns id q ∨ w.Waits id q := by
  have hkeep :=
    h.keeps (P := fun v => v.Owns id q ∨ v.Waits id q → w.Owns id q ∨ w.Waits id q)
    (fun hp hm hv hback hr => hback (hm.role hv (ne_of_not hq hp) hr)) hw (fun hr => hr)
  exact hkeep.2 hr

/-- A task that queues, or is woken, goes on to do so while others move. -/
theorem Moves.rests (h : Moves respond graph places w w') (hw : w.Tidy)
    (hq : ¬ places q) (hr : w.Waits id q ∨ q ∈ w.next) :
    w'.Waits id q ∨ q ∈ w'.next := by
  refine (h.keeps (P := fun w => w.Waits id q ∨ q ∈ w.next) ?_ hw hr).2
  intro q' v v' hp hm hv hold
  rcases hold with hwaits | hnext
  · rcases hm.waits hv (ne_of_not hq hp) hwaits with hwaits' | ⟨hnext, -⟩
    · exact Or.inl hwaits'
    · exact Or.inr hnext
  · exact Or.inr (hm.mem_next hnext)

/-- A task that queues is never forgotten: it queues, has the turn, or finds the result
kept. -/
theorem Moves.queues (h : Moves respond graph places w w') (hw : w.Tidy)
    (hq : ¬ places q)
    (hr : w.Waits id q ∨ w.Owns id q ∨ (w.recalled? id).isSome = true) :
    w'.Waits id q ∨ w'.Owns id q ∨ (w'.recalled? id).isSome = true := by
  refine (h.keeps
    (P := fun w => w.Waits id q ∨ w.Owns id q ∨ (w.recalled? id).isSome = true)
    ?_ hw hr).2
  intro q' v v' hp hm hv hold
  have hne : q ≠ q' := ne_of_not hq hp
  rcases hold with hwaits | howns | hkept
  · rcases hm.waits hv hne hwaits with hwaits' | ⟨-, howns | hkept⟩
    · exact Or.inl hwaits'
    · exact Or.inr (Or.inl howns)
    · exact Or.inr (Or.inr hkept)
  · exact Or.inr (Or.inl (hm.owns hv hne howns))
  · obtain ⟨r, hr⟩ := Option.isSome_iff_exists.1 hkept
    exact Or.inr (Or.inr (by rw [hm.recalled? hv hr]; rfl))

end SeriesQuery.Execution
