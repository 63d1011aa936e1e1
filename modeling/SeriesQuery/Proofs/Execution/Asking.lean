import SeriesQuery.Proofs.Execution.Walk

/-!
# What a run asks

As long as nothing has failed, a turn changes hands only by ending: a stage begins once,
and its task keeps the turn until the result is kept.  A stage that asks the backend has
no inputs, so it asks at once when it begins.  Hence the requests made by a task that
has not failed, nor any task below it, are those of the stages that have begun
meanwhile, each once.

## Main results

* `asking`: what a task asks that leaves no failure behind.
* `clearing`: a failure below a task does not go away.
-/

namespace SeriesQuery.Execution

open SeriesQuery.Backend (Request Response)
open World

/-! ## Beginning -/

/-- A stage has begun: a task has the turn at it, or its result is kept. -/
def World.Begun (w : World) (id : Nat) : Prop :=
  (w.recalled? id).isSome = true ∨ (w.turn? id).isSome = true

/-- The graphs that plans are. -/
structure Planned (graph : Node → Prop) : Prop where
  closed : Closed graph
  numbered : Numbered graph
  leaf : ∀ n r, graph n → n.work = .ask r → n.inputs = []

variable {respond : Respond} {graph : Node → Prop} {w w' w'' : World} {n m k : Node}
  {p q : Path} {t u : Task} {ts ts' : List Task} {order : List Nat} {id j : Nat}

theorem World.Owns.begun (h : w.Owns id q) : w.Begun id := by
  obtain ⟨s, hs, -⟩ := h
  exact Or.inr (by rw [hs]; rfl)

private theorem World.Waits.begun (h : w.Waits id q) : w.Begun id := by
  obtain ⟨s, hs, -⟩ := h
  exact Or.inr (by rw [hs]; rfl)

theorem begun_take : (w.take id p).Begun j ↔ w.Begun j ∨ j = id := by
  unfold Begun
  rw [recalled?_take, turn?_take]
  by_cases h : id = j
  · simp [h]
  · simp [h, Ne.symm h]

theorem begun_queue : (w.queue id p).Begun j ↔ w.Begun j := by
  unfold Begun
  rw [turn?_queue, Option.isSome_map]
  exact Iff.rfl

theorem begun_settle {r : SeriesResult} : (w.settle id r).Begun j ↔
    w.Begun j ∨ j = id := by
  unfold Begun
  rw [recalled?_settle, turn?_settle]
  by_cases h : id = j
  · simp [h]
  · simp [h, Ne.symm h]

/-- Nothing fails on the way from a world to a later one: what has begun goes on,
whoever has a turn had it or took it, and the stages that have begun on the way have
asked, each once. -/
structure Smooth (graph : Node → Prop) (w w' : World) : Prop where
  begun : ∀ id, w.Begun id → w'.Begun id
  owner : ∀ id q, w'.Owns id q → w.Owns id q ∨ ¬ w.Begun id
  asked :
    ∃ ns : List Node, w'.calls = w.calls ++ requestsOf ns ∧ (ns.map Node.id).Nodup ∧
    (∀ n ∈ ns, graph n) ∧ ∀ n, graph n → (n ∈ ns ↔ ¬ w.Begun n.id ∧ w'.Begun n.id)

/-- Nothing begins. -/
theorem Smooth.of_same (hbegun : ∀ id, w'.Begun id ↔ w.Begun id)
    (howner : ∀ id q, w'.Owns id q → w.Owns id q) (hcalls : w'.calls = w.calls) :
    Smooth graph w w' where
  begun := fun id h => (hbegun id).2 h
  owner := fun id q h => Or.inl (howner id q h)
  asked :=
    ⟨[], by simp [hcalls, requestsOf], by simp, by simp, fun n _ => by simp [hbegun]⟩

theorem Smooth.refl (w : World) : Smooth graph w w :=
  .of_same (fun _ => .rfl) (fun _ _ h => h) rfl

/-- One stage begins. -/
theorem Smooth.of_new (hnumbered : Numbered graph) (hn : graph n)
    (hnot : ¬ w.Begun n.id) (hbegun : ∀ id, w'.Begun id ↔ w.Begun id ∨ id = n.id)
    (howner : ∀ id q, w'.Owns id q → w.Owns id q ∨ id = n.id)
    (hcalls : w'.calls = w.calls ++ requestsOf [n]) : Smooth graph w w' where
  begun := fun id h => (hbegun id).2 (Or.inl h)
  owner := by
    intro id q h
    rcases howner id q h with howns | rfl
    · exact Or.inl howns
    · exact Or.inr hnot
  asked := by
    refine ⟨[n], hcalls, by simp, by simpa using hn, fun m hm => ?_⟩
    rw [List.mem_singleton, hbegun]
    constructor
    · rintro rfl
      exact ⟨hnot, Or.inr rfl⟩
    · rintro ⟨hnot', hold | hid⟩
      · exact absurd hold hnot'
      · exact hnumbered m n hm hn hid

theorem Smooth.trans (h : Smooth graph w w') (h' : Smooth graph w' w'') :
    Smooth graph w w'' where
  begun := fun id hid => h'.begun id (h.begun id hid)
  owner := by
    intro id q howns
    rcases h'.owner id q howns with howns | hnot
    · exact h.owner id q howns
    · exact Or.inr fun hid => hnot (h.begun id hid)
  asked := by
    obtain ⟨ns, hcalls, hnodup, hgraph, hiff⟩ := h.asked
    obtain ⟨ns', hcalls', hnodup', hgraph', hiff'⟩ := h'.asked
    refine ⟨ns ++ ns', ?_, ?_, ?_, ?_⟩
    · rw [hcalls', hcalls, List.append_assoc, requestsOf, requestsOf, requestsOf,
        List.filterMap_append]
    · rw [List.map_append, List.nodup_append]
      refine ⟨hnodup, hnodup', ?_⟩
      intro a ha b hb hab
      obtain ⟨x, hx, rfl⟩ := List.mem_map.1 ha
      obtain ⟨y, hy, rfl⟩ := List.mem_map.1 hb
      have hbegun := ((hiff x (hgraph x hx)).1 hx).2
      have hnot := ((hiff' y (hgraph' y hy)).1 hy).1
      rw [hab] at hbegun
      exact hnot hbegun
    · intro x hx
      rcases List.mem_append.1 hx with hx | hx
      · exact hgraph x hx
      · exact hgraph' x hx
    · intro x hx
      rw [List.mem_append, hiff x hx, hiff' x hx]
      constructor
      · rintro (⟨hnot, hbegun⟩ | ⟨hnot, hbegun⟩)
        · exact ⟨hnot, h'.begun _ hbegun⟩
        · exact ⟨fun hold => hnot (h.begun _ hold), hbegun⟩
      · rintro ⟨hnot, hbegun⟩
        by_cases hmid : w'.Begun x.id
        · exact Or.inl ⟨hnot, hmid⟩
        · exact Or.inr ⟨hmid, hbegun⟩

/-! ## Failures below a task -/

/-- No task within a task has failed. -/
def Clear (n : Node) (p : Path) (t : Task) : Prop :=
  ∀ k q e, ¬ Holds n p t k q (.done (.error e))

/-- No task within the inputs of a join has failed. -/
def ClearAll (n : Node) (p : Path) (ts : List Task) : Prop :=
  ∀ i m u, n.inputs[i]? = some m → ts[i]? = some u → Clear m (i :: p) u

private theorem clear_joining : Clear n p (.joining ts) ↔ ClearAll n p ts := by
  constructor
  · intro h i m u hm hu k q e hv
    exact h k q e (.input i hm hu hv)
  · intro h k q e hv
    cases hv with
    | input i hm hu hv => exact h i _ _ hm hu k q e hv

private theorem not_clear_failed {e : StageFailure} : ¬ Clear n p (.done (.error e)) :=
  fun h => h n p e (.here n p _)

/-- A task without tasks below it that has not failed. -/
theorem clear_of_single (ht : ∀ ts, t ≠ .joining ts)
    (hfailed : ∀ e, t ≠ .done (.error e)) : Clear n p t := by
  intro k q e hv
  cases hv with
  | here => exact hfailed e rfl
  | input i _ _ _ => exact ht _ rfl

/-- A failure within a task does not go away when the task runs. -/
def Clearing (respond : Respond) (n : Node) : Prop :=
  ∀ p t w, Clear n p ((actor respond n).poll p t w).1 → Clear n p t

private theorem pollAt_clearing (h : ∀ m ∈ n.inputs, Clearing respond m) {i : Nat}
    (hclear : ClearAll n p (pollAt (actors respond n.inputs) p i ts w).1) :
    ClearAll n p ts := by
  intro j m u hm hu
  unfold pollAt at hclear
  rw [getElem?_actors] at hclear
  cases hi : n.inputs[i]? with
  | none =>
      rw [hi] at hclear
      exact hclear j m u hm hu
  | some k =>
      cases hv : ts[i]? with
      | none =>
          rw [hi, hv] at hclear
          exact hclear j m u hm hu
      | some v =>
          rw [hi, hv] at hclear
          by_cases hij : i = j
          · subst hij
            rw [hm, Option.some.injEq] at hi
            rw [hu, Option.some.injEq] at hv
            subst hi hv
            obtain ⟨hlt, -⟩ := List.getElem?_eq_some_iff.1 hu
            exact h m (List.mem_of_getElem? hm) (i :: p) u w
              (hclear i m _ hm (List.getElem?_set_self hlt))
          · exact hclear j m u hm (by rw [← hu]; exact List.getElem?_set_ne hij)

private theorem visit_clearing (h : ∀ m ∈ n.inputs, Clearing respond m)
    (order : List Nat) :
    ∀ {ts : List Task} {w : World},
      ClearAll n p (visit (actors respond n.inputs) p order ts w).2.1 →
      ClearAll n p ts := by
  induction order with
  | nil => exact fun hclear => hclear
  | cons i order ih =>
      intro ts w hclear
      rw [visit] at hclear
      dsimp only at hclear
      refine pollAt_clearing h (i := i) (w := w) ?_
      split at hclear
      · exact hclear
      · exact ih hclear

private theorem clear_results {rs : List SeriesResult} (h : results? ts = some rs) :
    ClearAll n p ts := by
  intro i m u _ hu
  rw [results?_eq_some h, List.getElem?_map] at hu
  obtain ⟨r, -, rfl⟩ := Option.map_eq_some_iff.1 hu
  exact clear_of_single (by simp) (by simp)

private theorem pollJoin_clearing (h : ∀ m ∈ n.inputs, Clearing respond m)
    (hclear : Clear n p (pollJoin respond n.id n.work (n.inputs.map Node.id)
      (actors respond n.inputs) p order ts w).1) :
    (visit (actors respond n.inputs) p order ts w).1 = none ∧
      ClearAll n p (visit (actors respond n.inputs) p order ts w).2.1 ∧
        ClearAll n p ts := by
  unfold pollJoin at hclear
  obtain ⟨⟨failure, ts', w'⟩, hvisit⟩ :
      ∃ r, visit (actors respond n.inputs) p order ts w = r := ⟨_, rfl⟩
  have hback : ClearAll n p ts' → ClearAll n p ts := by
    intro hall
    refine visit_clearing h order (w := w) ?_
    rw [hvisit]
    exact hall
  rw [hvisit] at hclear ⊢
  cases failure with
  | some e => exact absurd hclear not_clear_failed
  | none =>
      dsimp only at hclear ⊢
      cases hresults : results? ts' with
      | some rs => exact ⟨rfl, clear_results hresults, hback (clear_results hresults)⟩
      | none =>
          rw [hresults] at hclear
          have hall := clear_joining.1 hclear
          exact ⟨rfl, hall, hback hall⟩

private theorem pollStage_clearing (h : ∀ m ∈ n.inputs, Clearing respond m)
    (hclear : Clear n p (pollStage respond n.id n.work (n.inputs.map Node.id)
      (actors respond n.inputs) p t w).1) : Clear n p t := by
  cases t with
  | fresh => exact clear_of_single (by simp) (by simp)
  | queued => exact clear_of_single (by simp) (by simp)
  | joining ts =>
      rw [pollStage] at hclear
      exact clear_joining.2 (pollJoin_clearing h hclear).2.2
  | calling due outcome => exact clear_of_single (by simp) (by simp)
  | done result =>
      rw [pollStage] at hclear
      exact hclear

mutual

/-- **Failures stay.**  When no task within a task has failed after a pass, none had
before. -/
theorem clearing (respond : Respond) : (n : Node) → Clearing respond n
  | .mk id name work inputs => by
      intro p t w hclear
      rw [actor] at hclear
      exact pollStage_clearing (n := .mk id name work inputs)
        (clearingAll respond inputs) hclear

/-- The same of several stages. -/
theorem clearingAll (respond : Respond) : (ns : List Node) →
    ∀ n ∈ ns, Clearing respond n
  | [], _, h => by cases h
  | m :: ns, n, h => by
      rcases List.mem_cons.1 h with same | rest
      · exact same ▸ clearing respond m
      · exact clearingAll respond ns n rest

end

/-! ## Tasks that queue -/

/-- No task within a task queues for a turn that it has been given. -/
def Idle (n : Node) (p : Path) (t : Task) (w : World) : Prop :=
  ∀ k q, Holds n p t k q .queued → ¬ w.Owns k.id q

/-- The same of the inputs of a join. -/
def IdleAll (n : Node) (p : Path) (ts : List Task) (w : World) : Prop :=
  ∀ i m u, n.inputs[i]? = some m → ts[i]? = some u → Idle m (i :: p) u w

theorem idle_joining : Idle n p (.joining ts) w ↔ IdleAll n p ts w := by
  constructor
  · intro h i m u hm hu k q hv
    exact h k q (.input i hm hu hv)
  · intro h k q hv
    cases hv with
    | input i hm hu hv => exact h i _ _ hm hu k q hv

theorem idle_of_single (ht : ∀ ts, t ≠ .joining ts)
    (hqueued : t = .queued → ¬ w.Owns n.id p) : Idle n p t w := by
  intro k q hv
  cases hv with
  | here => exact hqueued rfl
  | input i _ _ _ => exact absurd rfl (ht _)

/-- Nobody is given a turn while others move and nothing fails. -/
theorem Idle.frame {places : Path → Prop} (h : Idle n p t w)
    (hm : Moves respond graph places w w') (hw : w.Tidy) (hsmooth : Smooth graph w w')
    (hapart : ∀ q, p <:+ q → ¬ places q) : Idle n p t w' := by
  intro k q hv howns
  rcases hsmooth.owner k.id q howns with hold | hnot
  · exact h k q hv hold
  · rcases hm.role hw (hapart q hv.suffix) (Or.inl howns) with hold | hold
    · exact hnot hold.begun
    · exact hnot hold.begun

/-! ## What a pass asks -/

/-- A task of a stage that leaves no failure behind goes on smoothly. -/
def Asking (respond : Respond) (graph : Node → Prop) (n : Node) : Prop :=
  ∀ p t w, w.Tidy → Sound respond graph n p t w → Expected n p t w → Idle n p t w →
    Clear n p ((actor respond n).poll p t w).1 →
    Smooth graph w ((actor respond n).poll p t w).2 ∧
      Idle n p ((actor respond n).poll p t w).1 ((actor respond n).poll p t w).2

theorem pollAt_asking (hpass : ∀ m ∈ n.inputs, Passing respond graph m)
    (hask : ∀ m ∈ n.inputs, Asking respond graph m) (hw : w.Tidy)
    (h : Joined respond graph n p ts w) {i : Nat}
    (hexpected : ∀ m u, n.inputs[i]? = some m → ts[i]? = some u →
      Expected m (i :: p) u w)
    (hidle : IdleAll n p ts w)
    (hpoll : pollAt (actors respond n.inputs) p i ts w = (ts', w'))
    (hclear : ClearAll n p ts') : Smooth graph w w' ∧ IdleAll n p ts' w' := by
  unfold pollAt at hpoll
  rw [getElem?_actors] at hpoll
  cases hm : n.inputs[i]? with
  | none =>
      rw [hm] at hpoll
      cases hpoll
      exact ⟨.refl w, hidle⟩
  | some m =>
      cases hu : ts[i]? with
      | none =>
          rw [hm, hu] at hpoll
          cases hpoll
          exact ⟨.refl w, hidle⟩
      | some u =>
          rw [hm, hu] at hpoll
          cases hpoll
          obtain ⟨hlt, -⟩ := List.getElem?_eq_some_iff.1 hu
          have hmem := List.mem_of_getElem? hm
          have hsound := h.input i m u hm hu
          have hexp := hexpected m u hm hu
          have hpassed := hpass m hmem (i :: p) u w hw hsound hexp
          obtain ⟨hsmooth, hidle'⟩ := hask m hmem (i :: p) u w hw hsound hexp
            (hidle i m u hm hu) (hclear i m _ hm (List.getElem?_set_self hlt))
          refine ⟨hsmooth, ?_⟩
          intro j m' v hm' hv
          by_cases hij : i = j
          · subst hij
            rw [List.getElem?_set_self hlt, Option.some.injEq] at hv
            rw [hm, Option.some.injEq] at hm'
            subst hv hm'
            exact hidle'
          · rw [List.getElem?_set_ne hij] at hv
            exact (hidle j m' v hm' hv).frame hpassed.moves hw hsmooth
              fun q hq hi => hij (eq_of_cons_suffix hi hq)

private theorem visit_asking (hpass : ∀ m ∈ n.inputs, Passing respond graph m)
    (hask : ∀ m ∈ n.inputs, Asking respond graph m) (order : List Nat) :
    ∀ {ts : List Task} {w : World}, w.Tidy → Joined respond graph n p ts w →
      Covered n p order ts w → IdleAll n p ts w →
      visit (actors respond n.inputs) p order ts w = (none, ts', w') →
      ClearAll n p ts' → Smooth graph w w' ∧ IdleAll n p ts' w' := by
  induction order with
  | nil =>
      intro ts w _ _ _ hidle hvisit _
      cases hvisit
      exact ⟨.refl _, hidle⟩
  | cons i order ih =>
      intro ts w hw h hcovered hidle hvisit hclear
      rw [visit] at hvisit
      obtain ⟨⟨ts₁, w₁⟩, hpoll⟩ : ∃ r, pollAt (actors respond n.inputs) p i ts w = r :=
        ⟨_, rfl⟩
      rw [hpoll] at hvisit
      dsimp only at hvisit
      cases hfail : joinFailure? (actors respond n.inputs) ts₁ with
      | some e =>
          rw [hfail] at hvisit
          cases hvisit
      | none =>
          rw [hfail] at hvisit
          dsimp only at hvisit
          have hclear₁ : ClearAll n p ts₁ := by
            refine visit_clearing (fun m _ => clearing respond m) order (w := w₁) ?_
            rw [hvisit]
            exact hclear
          obtain ⟨hmoves, hjoined, hquiet, hothers⟩ :=
            pollAt_joined hpass hw h (fun m u => hcovered.expected) hpoll
          obtain ⟨hsmooth, hidle₁⟩ :=
            pollAt_asking hpass hask hw h (fun m u => hcovered.expected)
              hidle hpoll hclear₁
          obtain ⟨hsmooth', hidle'⟩ := ih (hmoves.tidy hw) hjoined
            (hcovered.next hw hmoves hquiet hothers) hidle₁ hvisit hclear
          exact ⟨hsmooth.trans hsmooth', hidle'⟩

/-- A stage that has begun keeps its result smoothly. -/
theorem settle_smooth {r : SeriesResult} (howns : w.Owns id p) :
    Smooth graph w (w.settle id r) := by
  refine .of_same (fun j => ?_) (fun j q h => (owns_settle.1 h).2) rfl
  rw [begun_settle]
  constructor
  · rintro (h | rfl)
    · exact h
    · exact howns.begun
  · exact Or.inl

private theorem idle_done {result : Except StageFailure SeriesResult} :
    Idle n p (.done result) w :=
  idle_of_single (by simp) (by simp)

/-- Letting the join of a stage run that combines its inputs. -/
theorem pollJoin_asking (hpass : ∀ m ∈ n.inputs, Passing respond graph m)
    (hask : ∀ m ∈ n.inputs, Asking respond graph m) {c : Combination}
    (hwork : n.work = .combine c) (hw : w.Tidy) (h : Joined respond graph n p ts w)
    (hcovered : Covered n p order ts w) (hidle : IdleAll n p ts w)
    (hempty : order = [] → joinFailure? (actors respond n.inputs) ts = none)
    (hpoll : pollJoin respond n.id n.work (n.inputs.map Node.id)
      (actors respond n.inputs) p order ts w = (t, w'))
    (hclear : Clear n p t) : Smooth graph w w' ∧ Idle n p t w' := by
  have hclear' : Clear n p (pollJoin respond n.id n.work (n.inputs.map Node.id)
      (actors respond n.inputs) p order ts w).1 := by
    rw [hpoll]
    exact hclear
  obtain ⟨hnone, hall, -⟩ := pollJoin_clearing (fun m _ => clearing respond m) hclear'
  unfold pollJoin at hpoll
  obtain ⟨⟨failure, ts₁, w₁⟩, hvisit⟩ :
      ∃ r, visit (actors respond n.inputs) p order ts w = r := ⟨_, rfl⟩
  rw [hvisit] at hpoll hnone hall
  cases hnone
  obtain ⟨hsmooth, hidle₁⟩ :=
    visit_asking hpass hask order hw h hcovered hidle hvisit hall
  obtain ⟨-, hjoined, -, -⟩ := visit_joined hpass order hw h hempty hcovered hvisit
  dsimp only at hpoll
  cases hresults : results? ts₁ with
  | none =>
      rw [hresults] at hpoll
      cases hpoll
      exact ⟨hsmooth, idle_joining.2 hidle₁⟩
  | some rs =>
      rw [hresults] at hpoll
      dsimp only at hpoll
      rw [hwork, act] at hpoll
      cases hcombine : inDeclaredOrder (n.inputs.map Node.id) rs >>= combine c with
      | error e =>
          rw [hcombine] at hpoll
          cases hpoll
          exact absurd hclear not_clear_failed
      | ok r =>
          rw [hcombine] at hpoll
          cases hpoll
          exact ⟨hsmooth.trans (settle_smooth hjoined.owns), idle_done⟩

/-- A stage without inputs acts at once when it begins. -/
theorem begin_leaf {work : Work} {ids : List Nat} :
    begin respond id work ids [] p w = act respond id work ids p [] w := rfl

/-- A stage that asks the backend begins by asking. -/
theorem begin_asking (hnumbered : Numbered graph) (hn : graph n) {r : Request}
    (hwork : n.work = .ask r) (hnot : ¬ w.Begun n.id) {ids : List Nat}
    (hpoll : act respond n.id (.ask r) ids p [] (w.take n.id p) = (t, w'))
    (hclear : Clear n p t) : Smooth graph w w' ∧ Idle n p t w' := by
  have hnone : w.turn? n.id = none := by
    cases hturn : w.turn? n.id with
    | none => rfl
    | some s => exact absurd (Or.inr (by rw [hturn]; rfl)) hnot
  have hrequests : requestsOf [n] = [r] := by simp [requestsOf, hwork, Work.request?]
  have hbegun : ∀ j, (w.take n.id p).Begun j ↔ w.Begun j ∨ j = n.id :=
    fun j => begun_take
  have howner : ∀ j q, (w.take n.id p).Owns j q → w.Owns j q ∨ j = n.id := by
    intro j q h
    rcases (owns_take hnone).1 h with h | ⟨rfl, -⟩
    · exact Or.inl h
    · exact Or.inr rfl
  unfold act at hpoll
  dsimp only at hpoll
  split at hpoll
  · rw [replied] at hpoll
    cases houtcome : ((respond (w.take n.id p).calls.length r).outcome.map
        SeriesResult.ofResponse).mapError StageFailure.remote with
    | error e =>
        rw [houtcome] at hpoll
        cases hpoll
        exact absurd hclear not_clear_failed
    | ok result =>
        rw [houtcome] at hpoll
        cases hpoll
        refine ⟨.of_new hnumbered hn hnot (fun j => ?_) (fun j q h => ?_) ?_, idle_done⟩
        · rw [begun_settle]
          constructor
          · rintro (hold | hid)
            · exact (hbegun j).1 hold
            · exact Or.inr hid
          · exact fun h => Or.inl ((hbegun j).2 h)
        · exact howner j q (owns_settle.1 h).2
        · rw [hrequests]
          rfl
  · cases hpoll
    refine ⟨.of_new hnumbered hn hnot hbegun howner ?_,
      idle_of_single (by simp) (by simp)⟩
    rw [hrequests]
    rfl

/-- A join that begins with the turn at its stage. -/
theorem Absent.take_joined (h : Absent w p) (hnone : w.turn? n.id = none) :
    Joined respond graph n p (List.replicate n.inputs.length .fresh) (w.take n.id p) :=
  .fresh ((owns_take hnone).2 (Or.inr ⟨rfl, rfl⟩)) (h.take hnone)

theorem idleAll_fresh : IdleAll n p (List.replicate n.inputs.length .fresh) w := by
  intro i m u _ hu
  rw [List.eq_of_mem_replicate (List.mem_of_getElem? hu)]
  exact idle_of_single (by simp) (by simp)

private theorem fresh_asking (hplanned : Planned graph)
    (hpass : ∀ m ∈ n.inputs, Passing respond graph m)
    (hask : ∀ m ∈ n.inputs, Asking respond graph m) (hn : graph n) (hw : w.Tidy)
    (h : Sound respond graph n p .fresh w)
    (hpoll : pollStage respond n.id n.work (n.inputs.map Node.id)
      (actors respond n.inputs) p .fresh w = (t, w'))
    (hclear : Clear n p t) : Smooth graph w w' ∧ Idle n p t w' := by
  have habsent : Absent w p := h.absent (fun hlive => hlive)
  rw [pollStage] at hpoll
  cases hr : w.recalled? n.id with
  | some r =>
      rw [hr] at hpoll
      cases hpoll
      exact ⟨.refl w, idle_done⟩
  | none =>
      rw [hr] at hpoll
      dsimp only at hpoll
      by_cases hturn : (w.turn? n.id).isSome = true
      · rw [if_pos hturn] at hpoll
        cases hpoll
        refine ⟨.of_same (fun j => begun_queue) (fun j q => owns_queue.1) rfl,
          idle_of_single (by simp) fun _ howns => ?_⟩
        exact habsent n.id p (List.suffix_refl p) (Or.inl (owns_queue.1 howns))
      · rw [if_neg hturn] at hpoll
        have hnone : w.turn? n.id = none := by simpa using hturn
        have hnot : ¬ w.Begun n.id := by
          rintro (hkept | hsome)
          · rw [hr] at hkept
            cases hkept
          · exact hturn hsome
        cases hwork : n.work with
        | ask r =>
            have hinputs := hplanned.leaf n r hn hwork
            rw [hwork, hinputs, actors, begin_leaf] at hpoll
            exact begin_asking hplanned.numbered hn hwork hnot hpoll hclear
        | combine c =>
            have htake : Smooth graph w (w.take n.id p) := by
              refine .of_new hplanned.numbered hn hnot (fun j => begun_take)
                (fun j q ho => ?_) ?_
              · rcases (owns_take hnone).1 ho with ho | ⟨rfl, -⟩
                · exact Or.inl ho
                · exact Or.inr rfl
              · rw [requestsOf, List.filterMap_cons_none (by rw [hwork]; rfl)]
                simp [World.take]
            rw [begin, length_actors] at hpoll
            obtain ⟨hsmooth, hidle'⟩ :=
              pollJoin_asking hpass hask hwork (hw.take hnone hr)
              (habsent.take_joined hnone) covered_fresh idleAll_fresh
              joinFailure?_fresh hpoll hclear
            exact ⟨htake.trans hsmooth, hidle'⟩

private theorem pollStage_asking (hplanned : Planned graph)
    (hpass : ∀ m ∈ n.inputs, Passing respond graph m)
    (hask : ∀ m ∈ n.inputs, Asking respond graph m) (hn : graph n) (hw : w.Tidy)
    (h : Sound respond graph n p t w) (hexpected : Expected n p t w)
    (hidle : Idle n p t w) {t' : Task}
    (hpoll : pollStage respond n.id n.work (n.inputs.map Node.id)
      (actors respond n.inputs) p t w =
      (t', w')) (hclear : Clear n p t') : Smooth graph w w' ∧ Idle n p t' w' := by
  cases t with
  | fresh => exact fresh_asking hplanned hpass hask hn hw h hpoll hclear
  | queued =>
      rw [pollStage] at hpoll
      cases hr : w.recalled? n.id with
      | some r =>
          rw [hr] at hpoll
          cases hpoll
          exact ⟨.refl w, idle_done⟩
      | none =>
          have hnot : w.owns n.id p ≠ true :=
            fun howns => hidle n p (.here n p _) (owns_eq_true.1 howns)
          rw [hr] at hpoll
          dsimp only at hpoll
          rw [if_neg hnot] at hpoll
          cases hpoll
          exact ⟨.refl w, hidle⟩
  | joining ts =>
      obtain ⟨-, hlength, hresults, hfailure⟩ := h.okay n p _ (.here n p _)
      rw [pollStage] at hpoll
      cases hwork : n.work with
      | ask r =>
          rw [hplanned.leaf n r hn hwork, List.length_nil,
            List.length_eq_zero_iff] at hlength
          subst hlength
          cases hresults
      | combine c =>
          exact pollJoin_asking hpass hask hwork hw h.joined hexpected.covered
            (idle_joining.1 hidle) (fun _ => hfailure) hpoll hclear
  | calling due outcome =>
      obtain ⟨howns, r, hwork, -, -⟩ := h.okay n p _ (.here n p _)
      rw [hwork, pollStage] at hpoll
      split at hpoll
      · rw [replied] at hpoll
        cases houtcome :
          (outcome.map SeriesResult.ofResponse).mapError StageFailure.remote with
        | error e =>
            rw [houtcome] at hpoll
            cases hpoll
            exact absurd hclear not_clear_failed
        | ok result =>
            rw [houtcome] at hpoll
            cases hpoll
            have hreceive : Smooth graph w (w.receive r) :=
              .of_same (fun _ => .rfl) (fun _ _ ho => ho) rfl
            exact ⟨hreceive.trans (settle_smooth (w := w.receive r) howns), idle_done⟩
      · cases hpoll
        exact ⟨.refl w, idle_of_single (by simp) (by simp)⟩
  | done result =>
      rw [pollStage] at hpoll
      cases hpoll
      exact ⟨.refl w, hidle⟩

mutual

/-- **Asking.**  A task that leaves no failure behind has gone on smoothly. -/
theorem asking (respond : Respond) {graph : Node → Prop} (hplanned : Planned graph) :
    (n : Node) → graph n → Asking respond graph n
  | .mk id name work inputs, hn => by
      intro p t w hw h hexpected hidle hclear
      rw [actor] at hclear ⊢
      exact pollStage_asking (n := .mk id name work inputs) hplanned
        (passingAll respond hplanned.closed inputs
          fun m hm => hplanned.closed _ hn m hm)
        (askingAll respond hplanned inputs fun m hm => hplanned.closed _ hn m hm)
        hn hw h hexpected hidle rfl hclear

/-- The same of several stages. -/
theorem askingAll (respond : Respond) {graph : Node → Prop} (hplanned : Planned graph) :
    (ns : List Node) → (∀ n ∈ ns, graph n) → ∀ n ∈ ns, Asking respond graph n
  | [], _, _, h => by cases h
  | m :: ns, hns, n, h => by
      rcases List.mem_cons.1 h with same | rest
      · exact same ▸ asking respond hplanned m (hns m List.mem_cons_self)
      · exact askingAll respond hplanned ns
          (fun k hk => hns k (List.mem_cons_of_mem _ hk)) n rest

end

end SeriesQuery.Execution
