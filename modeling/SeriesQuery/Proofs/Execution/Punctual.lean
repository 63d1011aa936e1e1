import SeriesQuery.Proofs.Execution.Standing

/-!
# Passes on schedule

In a plan whose joins are all narrow a pass goes through the plan as a walk does.  When
it is done with a stage, the stage has ended if its moment has come, with the result
that its schedule says.  The first stage on the way that fails by itself ends the pass,
and with it all joins above.

## Main results

* `conclude_punctual`: a stage that has the results of its inputs ends as scheduled.
* `Visiting.visit`: a join looks at its inputs as a walk does.
* `punctual`: what a pass through a stage leaves behind, or the failure that it meets.
-/

namespace SeriesQuery.Execution

open SeriesQuery.Backend (Request Response)
open World

variable {respond : Respond} {reply : Nat → Request → Reply} {graph : Node → Prop}
  {past : Option (List Request)} {order done ns : List Node} {w w' : World}
  {root n m k : Node} {p q : Path} {t t' u : Task} {ts ts' : List Task}
  {rs : List SeriesResult} {r : SeriesResult} {e : StageFailure} {i now : Nat}

/-! ## The end of a stage -/

/-- A stage that has all results of its inputs, and whose moment has come, ends as
scheduled. -/
theorem conclude_punctual {w₀ : World} {result : Except StageFailure SeriesResult}
    (hnumbered : Numbered graph) (hentered : Entered graph done n)
    (h : Handled reply graph (Node.walkAll done n.inputs) w)
    (hcalls : w.calls = askedAfter past (n.walk done)) (howns : w.Owns n.id p)
    (hbegun : past = none → ∀ k, graph k → (w.Begun k.id ↔ w₀.Begun k.id ∨ n.Reaches k))
    (hrs : stageOutcomes reply n.inputs = .ok rs) (hends : ends reply n ≤ w.now)
    (hresult : workOutcome (reply n.id) n.work rs = result) :
    OnTime reply graph past done n p w₀ (conclude n.id result w).1
      (conclude n.id result w).2 ∨ ∃ e, (conclude n.id result w).1 = .done (.error e) ∧
        Broken reply past done (n.walk done) e (conclude n.id result w).2 := by
  cases result with
  | ok r =>
      left
      have hr : stageOutcome reply n = .ok r := by
        rw [stageOutcome_eq, hrs]
        exact hresult
      refine ⟨h.settle hentered hnumbered hr hends, hcalls, .done done n r,
        timely_of_single (by simp [conclude]) (by simp [conclude]), Or.inl ⟨r, rfl⟩, ?_⟩
      intro hpast k hk
      rw [conclude, begun_settle, ← hbegun hpast k hk]
      constructor
      · rintro (hold | hid)
        · exact hold
        · rw [hid]
          exact howns.begun
      · exact Or.inl
  | error e =>
      right
      obtain ⟨skipped, hskipped⟩ := prefix_walkAll done n.inputs
      refine ⟨e, rfl, skipped, n, [], ?_, ownFailure?_of_error hrs hresult,
        hends, ?_, ?_⟩
      · rw [hentered.walk, ← hskipped, List.append_assoc]
      · intro m hm hdue
        refine h.ownFailure? ?_ hdue
        rw [← hskipped]
        exact List.mem_append_right _ hm
      · rw [hskipped, ← hentered.walk]
        exact hcalls

mutual

/-- Dropping a task takes no time and makes no requests. -/
theorem drop_same (respond : Respond) : (n : Node) →
    ∀ (p : Path) (t : Task) (w : World),
    ((actor respond n).drop p t w).now = w.now ∧
      ((actor respond n).drop p t w).calls = w.calls
  | .mk id name work inputs, p, t, w => by
      rw [actor]
      dsimp only
      cases t with
      | fresh => exact ⟨rfl, rfl⟩
      | queued =>
          rw [dropStage, leave]
          split <;> exact ⟨rfl, rfl⟩
      | joining ts =>
          rw [dropStage]
          exact dropFrom_same respond inputs p 0 ts w
      | calling due outcome => exact ⟨rfl, rfl⟩
      | done result => exact ⟨rfl, rfl⟩

/-- The same of dropping inputs. -/
theorem dropFrom_same (respond : Respond) : (ns : List Node) → ∀ (p : Path) (i : Nat)
    (ts : List Task) (w : World), (dropFrom p i (actors respond ns) ts w).now = w.now ∧
      (dropFrom p i (actors respond ns) ts w).calls = w.calls
  | [], p, i, ts, w => by
      rw [actors, dropFrom]
      · exact ⟨rfl, rfl⟩
      · simp
  | n :: ns, p, i, ts, w => by
      rw [actors]
      cases ts with
      | nil =>
          rw [dropFrom]
          · exact ⟨rfl, rfl⟩
          · simp
      | cons t ts =>
          rw [dropFrom]
          obtain ⟨hnow, hcalls⟩ := dropFrom_same respond ns p (i + 1) ts
            ((actor respond n).drop (i :: p) t w)
          obtain ⟨hnow', hcalls'⟩ := drop_same respond n (i :: p) t w
          exact ⟨hnow.trans hnow', hcalls.trans hcalls'⟩

end

/-! ## The inputs of a join -/

/-- A pass is done with the first inputs of a join, which all go on. -/
structure Visiting (respond : Respond) (reply : Nat → Request → Reply)
    (graph : Node → Prop) (order : List Node) (past : Option (List Request))
    (done : List Node) (n : Node) (p : Path) (i : Nat) (ts : List Task)
    (w : World) : Prop where
  tidy : w.Tidy
  founded : w.Founded respond graph
  joined : Joined respond graph n p ts w
  covered : Covered n p (List.range' i (n.inputs.length - i)) ts w
  idle : IdleAll n p ts w
  placed : PlacedAll done n ts
  timely : TimelyAll reply n p ts
  going : failed? ts = none
  handled : Handled reply graph (Node.walkAll done (n.inputs.take i)) w
  calls : w.calls = askedAfter past (Node.walkAll done (n.inputs.take i))
  phase : ∀ j u, i ≤ j → ts[j]? = some u → (u = .fresh ↔ past = none)
  ahead : past = none → Node.walkAll done n.inputs <+: order
  opening : past = none → w.now = 0 ∧ ∀ m ∈ n.inputs, ∀ k, m.Reaches k →
    (k ∈ Node.walkAll done (n.inputs.take i) ↔ w.Begun k.id)
  outcome : ∀ j m u, j < i → n.inputs[j]? = some m → ts[j]? = some u →
    (∃ r, u = .done (.ok r)) ∨ w.now < ends reply m

private theorem failed?_set (h : failed? ts = none) (hi : i < ts.length) :
    failed? (ts.set i (.done (.error e))) = some e := by
  induction ts generalizing i with
  | nil => cases hi
  | cons t ts ih =>
      have hts : failed? ts = none := by
        rw [failed?_eq_none_iff] at h ⊢
        exact fun u hu => h u (List.mem_cons_of_mem _ hu)
      cases i with
      | zero => rfl
      | succ i =>
          rw [List.set_cons_succ]
          have hrest := ih hts (by simpa using hi)
          cases t with
          | done result =>
              cases result with
              | ok r => exact hrest
              | error e => cases h
          | fresh => exact hrest
          | queued => exact hrest
          | joining us => exact hrest
          | calling due outcome => exact hrest

private theorem prefix_walkAll_take (i : Nat) :
    Node.walkAll done (ns.take i) <+: Node.walkAll done ns := by
  have h := prefix_walkAll (Node.walkAll done (ns.take i)) (ns.drop i)
  rwa [← walkAll_append, List.take_append_drop] at h

/-- An input that is let run has its task replaced. -/
theorem pollAt_eq {m : Node} {u : Task} (hm : n.inputs[i]? = some m)
    (hu : ts[i]? = some u)
    (hpoll : pollAt (actors respond n.inputs) p i ts w = (ts', w')) :
    ts' = ts.set i ((actor respond m).poll (i :: p) u w).1 ∧
      w' = ((actor respond m).poll (i :: p) u w).2 := by
  unfold pollAt at hpoll
  rw [getElem?_actors, hm, hu] at hpoll
  cases hpoll
  exact ⟨rfl, rfl⟩

/-- What is so of an input with its new task, and of the others with theirs, is so of
all. -/
theorem forall_input_set {P : Nat → Node → Task → Prop} (hm : ns[i]? = some m)
    (hi : i < ts.length) (hnew : P i m u)
    (hothers : ∀ j k v, j ≠ i → ns[j]? = some k → ts[j]? = some v → P j k v) :
    ∀ j k v, ns[j]? = some k → (ts.set i u)[j]? = some v → P j k v := by
  intro j k v hk hv
  by_cases hji : j = i
  · subst hji
    rw [hm, Option.some.injEq] at hk
    rw [List.getElem?_set_self hi, Option.some.injEq] at hv
    rw [← hk, ← hv]
    exact hnew
  · rw [List.getElem?_set_ne (Ne.symm hji)] at hv
    exact hothers j k v hji hk hv

section Next

variable (hplanned : Planned graph) (hnarrow : Narrow graph) (hn : graph n)
  (h : Visiting respond reply graph order past done n p i ts w)
  (hi : i < n.inputs.length)

include h hi in
/-- The inputs that are still to be looked at, the next one first. -/
theorem Visiting.covered_next :
    Covered n p (i :: List.range' (i + 1) (n.inputs.length - (i + 1))) ts w := by
  rw [← List.range'_succ,
    show n.inputs.length - (i + 1) + 1 = n.inputs.length - i by omega]
  exact h.covered

include h hi in
/-- A pass through the next input is on schedule, or it meets the first failure on the
way. -/
theorem Visiting.input_punctual (hu : ts[i]? = some u)
    (hpunctual : Punctual respond reply graph order past n.inputs[i]) :
    OnTime reply graph past (Node.walkAll done (n.inputs.take i)) n.inputs[i] (i :: p) w
        ((actor respond n.inputs[i]).poll (i :: p) u w).1
        ((actor respond n.inputs[i]).poll (i :: p) u w).2 ∨
      ∃ e, ((actor respond n.inputs[i]).poll (i :: p) u w).1 = .done (.error e) ∧
        Broken reply past (Node.walkAll done (n.inputs.take i))
          (Node.walkAll done (n.inputs.take (i + 1))) e
          ((actor respond n.inputs[i]).poll (i :: p) u w).2 := by
  have hm : n.inputs[i]? = some n.inputs[i] := List.getElem?_eq_getElem hi
  have hwalk : Node.walkAll done (n.inputs.take (i + 1)) =
      n.inputs[i].walk (Node.walkAll done (n.inputs.take i)) := walkAll_take_succ hm
  rw [hwalk]
  refine hpunctual (i :: p) u w _ h.tidy h.founded (h.joined.input i _ _ hm hu)
    ((h.covered_next hi).expected hm hu) (h.idle i _ _ hm hu) (h.placed i _ _ hm hu)
    (h.timely i _ _ hm hu) h.handled h.calls (h.phase i _ (Nat.le_refl i) hu)
    fun hpast => ?_
  obtain ⟨hstart, hopen⟩ := h.opening hpast
  refine ⟨hstart, hopen _ (List.getElem_mem hi), ?_⟩
  rw [← hwalk]
  exact (prefix_walkAll_take (i + 1)).trans (h.ahead hpast)

include hplanned hnarrow hn h hi in
/-- When the next input is on schedule, a pass is done with one more input. -/
theorem Visiting.next (hu : ts[i]? = some u)
    (hpoll : pollAt (actors respond n.inputs) p i ts w = (ts.set i t', w'))
    (hontime : OnTime reply graph past (Node.walkAll done (n.inputs.take i)) n.inputs[i]
      (i :: p) w t' w') :
    Visiting respond reply graph order past done n p (i + 1) (ts.set i t') w' := by
  have hinput : ∀ m ∈ n.inputs, graph m := hplanned.closed n hn
  have hpass := passingAll respond hplanned.closed n.inputs hinput
  have hm : n.inputs[i]? = some n.inputs[i] := List.getElem?_eq_getElem hi
  have hlt : i < ts.length := (List.getElem?_eq_some_iff.1 hu).1
  have hwalk : Node.walkAll done (n.inputs.take (i + 1)) =
      n.inputs[i].walk (Node.walkAll done (n.inputs.take i)) := walkAll_take_succ hm
  obtain ⟨hmoves, hjoined, hquiet, hothers⟩ :=
    pollAt_joined hpass h.tidy h.joined (fun m u => (h.covered_next hi).expected) hpoll
  have hnow : w'.now = w.now := hmoves.clock.1
  have hgoing : failed? (ts.set i t') = none := by
    rw [failed?_eq_none_iff]
    intro v hv e hve
    rcases List.mem_or_eq_of_mem_set hv with hold | rfl
    · exact failed?_eq_none_iff.1 h.going v hold e hve
    · have hplaced := hontime.placed
      rw [hve] at hplaced
      cases hplaced
  have hclear : ClearAll n p (ts.set i t') := by
    intro j m u hm' hu'
    have hmem' := List.mem_of_getElem? hm'
    refine (hjoined.input j m u hm' hu').clear hplanned.closed hnarrow
      (hinput m hmem') ?_
    exact failed?_eq_none_iff.1 hgoing u (List.mem_of_getElem? hu')
  obtain ⟨-, hidle⟩ :=
    pollAt_asking hpass (askingAll respond hplanned n.inputs hinput) h.tidy
    h.joined (fun m u => (h.covered_next hi).expected) h.idle hpoll hclear
  exact
    { tidy := hmoves.tidy h.tidy
      founded := hmoves.founded h.tidy h.founded
      joined := hjoined
      covered := (h.covered_next hi).next h.tidy hmoves hquiet hothers
      idle := hidle
      placed := forall_input_set hm hlt hontime.placed fun j m u _ => h.placed j m u
      timely := forall_input_set hm hlt hontime.timely fun j m u _ => h.timely j m u
      going := hgoing
      handled := by
        rw [hwalk]
        exact hontime.handled
      calls := by
        rw [hwalk]
        exact hontime.calls
      phase := by
        intro j u hj hu'
        rw [hothers j (by omega)] at hu'
        exact h.phase j u (by omega) hu'
      ahead := h.ahead
      opening := by
        intro hpast
        refine ⟨hnow.trans (h.opening hpast).1, fun m hm' k hk => ?_⟩
        have hgraph := graph_of_reaches hplanned.closed (hinput m hm') hk
        have hiff := (walk_complete hplanned.closed hplanned.numbered n.inputs[i]
          (hinput _ (List.getElem_mem hi)) h.handled.complete).2 k
        rw [hwalk, hiff, hontime.begun hpast k hgraph, (h.opening hpast).2 m hm' k hk]
      outcome := by
        intro j m u hj hm' hu'
        refine forall_input_set (P := fun j m u => j < i + 1 →
          (∃ r, u = .done (.ok r)) ∨ w'.now < ends reply m) hm hlt
          (fun _ => hontime.outcome) (fun j m u hji hm' hu' hj => ?_) j m u hm' hu' hj
        rw [hnow]
        exact h.outcome j m u (by omega) hm' hu' }

include h in
/-- A failure that the next input meets is one on the way to the stage. -/
theorem Visiting.broken (hnow : w'.now = w.now)
    (hbroken : Broken reply past (Node.walkAll done (n.inputs.take i))
      (Node.walkAll done (n.inputs.take (i + 1))) e w') :
    Broken reply past done (Node.walkAll done n.inputs) e w' := by
  have hwalked : Node.walkAll done (n.inputs.take (i + 1)) <+:
      Node.walkAll done n.inputs :=
    prefix_walkAll_take (i + 1)
  obtain ⟨rest, hrest⟩ := hwalked
  rw [← hrest]
  refine Broken.extend ?_
  obtain ⟨skipped, hskipped⟩ := prefix_walkAll done (n.inputs.take i)
  rw [← hskipped] at hbroken
  refine hbroken.before fun m hm hends => h.handled.ownFailure? ?_ (by rwa [← hnow])
  rw [← hskipped]
  exact List.mem_append_right _ hm

include hplanned hnarrow hn h in
/-- Letting the next input run. -/
theorem Visiting.step (hall : ∀ m ∈ n.inputs, Punctual respond reply graph order past m)
    (hi : i < n.inputs.length)
    (hpoll : pollAt (actors respond n.inputs) p i ts w = (ts', w')) :
    (Visiting respond reply graph order past done n p (i + 1) ts' w' ∧
      (past = none →
        ∀ k, graph k → (w'.Begun k.id ↔ w.Begun k.id ∨ n.inputs[i].Reaches k))) ∨
    ∃ e, failed? ts' = some e ∧
      Broken reply past done (Node.walkAll done n.inputs) e w' := by
  have hlt : i < ts.length := by rw [h.joined.length]; exact hi
  have hu : ts[i]? = some ts[i] := List.getElem?_eq_getElem hlt
  have hpass := passingAll respond hplanned.closed n.inputs (hplanned.closed n hn)
  obtain ⟨hmoves, -⟩ :=
    pollAt_joined hpass h.tidy h.joined (fun m u => (h.covered_next hi).expected) hpoll
  obtain ⟨rfl, hw'⟩ := pollAt_eq (List.getElem?_eq_getElem hi) hu hpoll
  have hinput := h.input_punctual hi hu (hall _ (List.getElem_mem hi))
  rw [← hw'] at hinput
  rcases hinput with hontime | ⟨e, he, hbroken⟩
  · exact Or.inl ⟨h.next hplanned hnarrow hn hi hu hpoll hontime, hontime.begun⟩
  · refine Or.inr ⟨e, ?_, h.broken hmoves.clock.1 hbroken⟩
    rw [he]
    exact failed?_set h.going hlt

end Next

/-- Looking at the rest of the inputs. -/
theorem Visiting.visit (hplanned : Planned graph) (hnarrow : Narrow graph)
    (hn : graph n) (hall : ∀ m ∈ n.inputs, Punctual respond reply graph order past m)
    {failure : Option StageFailure} (len : Nat) :
    ∀ {i : Nat} {ts : List Task} {w : World}, i + len = n.inputs.length →
      Visiting respond reply graph order past done n p i ts w →
      Execution.visit (actors respond n.inputs) p (List.range' i len) ts w =
        (failure, ts', w') →
      (failure = none ∧
        Visiting respond reply graph order past done n p n.inputs.length ts' w' ∧
        (past = none → ∀ k, graph k →
          (w'.Begun k.id ↔ w.Begun k.id ∨ ∃ m ∈ n.inputs.drop i, m.Reaches k))) ∨
      ∃ e, failure = some e ∧
        Broken reply past done (Node.walkAll done n.inputs) e w' := by
  induction len with
  | zero =>
      intro i ts w hlen h hvisit
      cases hvisit
      rw [Nat.add_zero] at hlen
      subst hlen
      exact Or.inl ⟨rfl, h, by simp⟩
  | succ len ih =>
      intro i ts w hlen h hvisit
      have hi : i < n.inputs.length := by omega
      rw [List.range'_succ, Execution.visit] at hvisit
      obtain ⟨⟨ts₁, w₁⟩, hpoll⟩ : ∃ r, pollAt (actors respond n.inputs) p i ts w = r :=
        ⟨_, rfl⟩
      rw [hpoll] at hvisit
      dsimp only at hvisit
      rw [joinFailure?, if_pos (isNarrow_actors hnarrow hn)] at hvisit
      rcases h.step hplanned hnarrow hn hall hi hpoll with ⟨hnext, hbegun⟩ |
        ⟨e, he, hbroken⟩
      · rw [hnext.going] at hvisit
        rcases ih (by omega) hnext hvisit with ⟨hnone, hend, hbegun'⟩ | hbroken
        · refine Or.inl ⟨hnone, hend, fun hpast k hk => ?_⟩
          rw [hbegun' hpast k hk, hbegun hpast k hk, List.drop_eq_getElem_cons hi]
          simp only [List.mem_cons, exists_eq_or_imp]
          exact or_assoc
        · exact Or.inr hbroken
      · rw [he] at hvisit
        cases hvisit
        exact Or.inr ⟨e, rfl, hbroken⟩

/-! ## Stages -/

private theorem requestsOf_append (ms : List Node) :
    requestsOf (ns ++ ms) = requestsOf ns ++ requestsOf ms := List.filterMap_append

/-- Combining results asks nothing. -/
theorem askedAfter_combine {c : Combination} (hwork : n.work = .combine c) :
    askedAfter past (done ++ [n]) = askedAfter past done := by
  unfold askedAfter
  rw [requestsOf_append, requestsOf, requestsOf,
    List.filterMap_cons_none (by rw [hwork]; rfl), List.filterMap_nil, List.append_nil]

/-- The results of inputs that are kept are those of the schedule. -/
theorem Handled.recalls (h : Handled reply graph done w) (hclosed : Closed graph)
    (hn : graph n) (hrs : w.Recalls n.inputs rs) :
    stageOutcomes reply n.inputs = .ok rs ∧ endsAll reply n.inputs ≤ w.now := by
  have hall : List.Forall₂
      (fun m r => stageOutcome reply m = .ok r ∧ ends reply m ≤ w.now)
      n.inputs rs := by
    refine ((List.forall₂_and_left _ _).2 ⟨hclosed n hn, hrs⟩).imp ?_
    rintro m r ⟨hm, hr⟩
    exact h.kept m r hm hr
  refine ⟨stageOutcomes_eq_ok.2 (hall.imp fun _ _ hboth => hboth.1),
    endsAll_le.2 fun m hm => ?_⟩
  obtain ⟨i, hi, rfl⟩ := List.mem_iff_getElem.1 hm
  exact ((List.forall₂_iff_get.1 hall).2 i hi (by rw [← hall.length_eq]; exact hi)).2

/-- Letting the join of a stage run that combines its inputs. -/
theorem pollJoin_punctual {c : Combination} {w₀ : World} (hplanned : Planned graph)
    (hnarrow : Narrow graph) (hentered : Entered graph done n)
    (hall : ∀ m ∈ n.inputs, Punctual respond reply graph order past m)
    (hwork : n.work = .combine c)
    (h : Visiting respond reply graph order past done n p 0 ts w)
    (hbegun : past = none → ∀ k, graph k → (w.Begun k.id ↔ w₀.Begun k.id ∨ k = n))
    (hpoll : pollJoin respond n.id n.work (n.inputs.map Node.id)
      (actors respond n.inputs) p (List.range n.inputs.length) ts w = (t', w')) :
    OnTime reply graph past done n p w₀ t' w' ∨
      ∃ e, t' = .done (.error e) ∧ Broken reply past done (n.walk done) e w' := by
  unfold pollJoin at hpoll
  rw [List.range_eq_range'] at hpoll
  obtain ⟨⟨failure, ts₁, w₁⟩, hvisit⟩ :
      ∃ r, visit (actors respond n.inputs) p (List.range' 0 n.inputs.length) ts w = r :=
    ⟨_, rfl⟩
  rw [hvisit] at hpoll
  rcases h.visit hplanned hnarrow hentered.stage hall n.inputs.length
    (Nat.zero_add _) hvisit with
    ⟨rfl, hend, hbegun'⟩ | ⟨e, rfl, hbroken⟩
  · have hhandled := hend.handled
    have hcalls := hend.calls
    rw [List.take_length] at hhandled hcalls
    have hcalls' : w₁.calls = askedAfter past (n.walk done) := by
      rw [hentered.walk, askedAfter_combine hwork]
      exact hcalls
    have hreaches : past = none →
        ∀ k, graph k → (w₁.Begun k.id ↔ w₀.Begun k.id ∨ n.Reaches k) := by
      intro hpast k hk
      rw [hbegun' hpast k hk, hbegun hpast k hk, List.drop_zero, reaches_iff]
      exact or_assoc
    dsimp only at hpoll
    cases hresults : results? ts₁ with
    | some rs =>
        rw [hresults] at hpoll
        dsimp only at hpoll
        have hjoined := hend.joined
        rw [results?_eq_some hresults] at hjoined
        obtain ⟨hrs, -⟩ := hjoined.recalls
        obtain ⟨houtcomes, hends⟩ := hhandled.recalls hplanned.closed hentered.stage hrs
        rw [hwork, act, inDeclaredOrder_of_recalls hrs] at hpoll
        have hended := conclude_punctual hplanned.numbered hentered hhandled hcalls'
          hjoined.owns hreaches houtcomes (by rw [ends_combine hwork]; exact hends) rfl
        rw [hwork] at hended
        have hconclude :
            conclude n.id (workOutcome (reply n.id) (.combine c) rs) w₁ = (t', w') :=
          hpoll
        rw [hconclude] at hended
        exact hended
    | none =>
        rw [hresults] at hpoll
        cases hpoll
        left
        have hnone : joinFailure? (actors respond n.inputs) ts₁ = none := by
          rw [joinFailure?, if_pos (isNarrow_actors hnarrow hentered.stage)]
          exact hend.going
        obtain ⟨u, hu, hundone⟩ := exists_undone hresults hnone
        obtain ⟨j, hj, rfl⟩ := List.mem_iff_getElem.1 hu
        have hj' : j < n.inputs.length := by rw [← hend.joined.length]; exact hj
        have hlater : w'.now < ends reply n := by
          rcases hend.outcome j _ _ hj' (List.getElem?_eq_getElem hj')
            (List.getElem?_eq_getElem hj) with ⟨r, hr⟩ | hlater
          · exact absurd hr (hundone _)
          · rw [ends_combine hwork]
            exact Nat.lt_of_lt_of_le hlater
              (endsAll_le.1 (Nat.le_refl _) _ (List.getElem_mem hj'))
        exact ⟨hhandled.later hentered hlater, hcalls',
          .joining hentered.fresh hend.placed,
          timely_joining.2 hend.timely, Or.inr hlater, hreaches⟩
  · right
    cases hpoll
    obtain ⟨hnow, hcalls⟩ := dropFrom_same respond n.inputs p 0 ts₁ w₁
    rw [hentered.walk]
    exact ⟨e, rfl, hbroken.extend.of_same hnow hcalls⟩

/-- A stage that asks the backend asks in its place of the walk. -/
theorem ask_punctual {request : Request} {ids : List Nat} (hplanned : Planned graph)
    (hscheduled : Scheduled respond reply order) (hentered : Entered graph done n)
    (hwork : n.work = .ask request) (h : Handled reply graph done w)
    (hcalls : w.calls = askedAfter none done) (hopening : Opening order done n w)
    (hnone : w.turn? n.id = none)
    (hpoll : act respond n.id (.ask request) ids p [] (w.take n.id p) = (t', w')) :
    OnTime reply graph none done n p w t' w' ∨
      ∃ e, t' = .done (.error e) ∧ Broken reply none done (n.walk done) e w' := by
  have hinputs := hplanned.leaf n request hentered.stage hwork
  have hwalk : n.walk done = done ++ [n] := by
    rw [hentered.walk, hinputs, Node.walkAll]
  have hreply : reply n.id request = respond w.calls.length request := by
    obtain ⟨after, hafter⟩ := hopening.ahead
    rw [hwalk, List.append_assoc] at hafter
    rw [hcalls]
    exact hscheduled done n after request hafter.symm hwork
  have hends : ends reply n = (reply n.id request).delay := by
    rw [ends_ask hwork, hinputs, endsAll, Nat.zero_add]
  have howns : (w.take n.id p).Owns n.id p := (owns_take hnone).2 (Or.inr ⟨rfl, rfl⟩)
  have hbegun :
      ∀ k, graph k → ((w.take n.id p).Begun k.id ↔ w.Begun k.id ∨ n.Reaches k) := by
    intro k hk
    rw [begun_take, reaches_iff, hinputs]
    have hid : k.id = n.id ↔ k = n :=
      ⟨hplanned.numbered k n hk hentered.stage, fun hkn => by rw [hkn]⟩
    simp [hid]
  have hcalled : w.calls ++ [request] = askedAfter none (n.walk done) := by
    rw [hwalk, hcalls]
    unfold askedAfter
    simp [requestsOf, hwork, Work.request?]
  have hhandled : Handled reply graph (Node.walkAll done n.inputs) w := by
    rw [hinputs, Node.walkAll]
    exact h
  unfold act at hpoll
  dsimp only at hpoll
  have hlength : (w.take n.id p).calls.length = w.calls.length := rfl
  rw [hlength, ← hreply] at hpoll
  split at hpoll
  · have hdue : ends reply n ≤ w.now := by omega
    rw [replied] at hpoll
    have houtcomes : stageOutcomes reply n.inputs = .ok [] := by
      rw [hinputs, stageOutcomes]
    have hreceived : Handled reply graph (Node.walkAll done n.inputs)
        (((w.take n.id p).call request).receive request) :=
      hhandled.of_same (fun _ => rfl) rfl
    have hended := conclude_punctual hplanned.numbered hentered hreceived hcalled howns
      (fun _ => hbegun) houtcomes hdue rfl
    rw [hwork] at hended
    have hconclude : conclude n.id (workOutcome (reply n.id) (.ask request) [])
        (((w.take n.id p).call request).receive request) = (t', w') := hpoll
    rw [hconclude] at hended
    exact hended
  · cases hpoll
    left
    have hnow := hopening.now
    have hlater : w.now < ends reply n := by omega
    refine ⟨(hhandled.later hentered hlater).of_same (fun _ => rfl) rfl, hcalled,
      .calling _ _ hentered.fresh, ?_, Or.inr hlater, fun _ => hbegun⟩
    intro k q due outcome request' hv hwork'
    cases hv with
    | here =>
        rw [hwork] at hwork'
        cases hwork'
        refine ⟨?_, rfl⟩
        rw [hends]
        show w.now + _ = _
        omega

/-- A task at a stage that a walk has been through before finds the result kept or
queues. -/
theorem passed_punctual (h : Handled reply graph done w)
    (hcalls : w.calls = askedAfter past done) (hmem : n ∈ done)
    (hwalk : n.walk done = done) (hidle : Idle n p t w) (hplaced : Placed done n t)
    (hphase : t = .fresh ↔ past = none)
    (hbegun : past = none → ∀ k, n.Reaches k → w.Begun k.id)
    (hpoll : pollStage respond n.id n.work (n.inputs.map Node.id)
      (actors respond n.inputs) p t w =
      (t', w')) : OnTime reply graph past done n p w t' w' := by
  have hsame : past = none →
      ∀ k, graph k → (w.Begun k.id ↔ w.Begun k.id ∨ n.Reaches k) :=
    fun hpast k _ => ⟨Or.inl, fun hor => hor.elim id (hbegun hpast k)⟩
  have hkept : ∀ r, OnTime reply graph past done n p w (.done (.ok r)) w := fun r =>
    ⟨hwalk.symm ▸ h, hwalk.symm ▸ hcalls, .done done n r,
      timely_of_single (by simp) (by simp), Or.inl ⟨r, rfl⟩, hsame⟩
  have hlater : w.recalled? n.id = none → w.now < ends reply n := by
    intro hr
    by_contra hle
    have hdue := h.due n hmem (by omega)
    rw [hr] at hdue
    cases hdue
  cases hplaced with
  | fresh =>
      rw [pollStage] at hpoll
      cases hr : w.recalled? n.id with
      | some r =>
          rw [hr] at hpoll
          cases hpoll
          exact hkept r
      | none =>
          have hturn : (w.turn? n.id).isSome = true := by
            rcases hbegun (hphase.1 rfl) n (.refl n) with hsome | hturn
            · rw [hr] at hsome
              cases hsome
            · exact hturn
          rw [hr] at hpoll
          dsimp only at hpoll
          rw [if_pos hturn] at hpoll
          cases hpoll
          refine ⟨hwalk.symm ▸ h.of_same (fun _ => rfl) rfl,
            hwalk.symm ▸ hcalls, .queued hmem,
            timely_of_single (by simp) (by simp), Or.inr (hlater hr),
            fun hpast k hk => ?_⟩
          rw [begun_queue]
          exact hsame hpast k hk
  | queued _ =>
      rw [pollStage] at hpoll
      cases hr : w.recalled? n.id with
      | some r =>
          rw [hr] at hpoll
          cases hpoll
          exact hkept r
      | none =>
          have hnot : w.owns n.id p ≠ true :=
            fun howns => hidle n p (.here n p _) (owns_eq_true.1 howns)
          rw [hr] at hpoll
          dsimp only at hpoll
          rw [if_neg hnot] at hpoll
          cases hpoll
          exact ⟨hwalk.symm ▸ h, hwalk.symm ▸ hcalls, .queued hmem,
            timely_of_single (by simp) (by simp), Or.inr (hlater hr), hsame⟩
  | joining hnot _ => exact absurd hmem hnot
  | calling due outcome hnot => exact absurd hmem hnot
  | done _ _ r =>
      rw [pollStage] at hpoll
      cases hpoll
      exact hkept r

/-- A task that waits for a reply ends as scheduled when the reply comes in. -/
theorem calling_punctual {due : Nat} {outcome : Except BackendFault Response}
    (hplanned : Planned graph) (hentered : Entered graph done n)
    (h : Handled reply graph done w) (hcalls : w.calls = askedAfter past done)
    (hpast : past ≠ none) (hsound : Sound respond graph n p (.calling due outcome) w)
    (htimely : Timely reply n p (.calling due outcome))
    (hpoll : pollStage respond n.id n.work (n.inputs.map Node.id)
      (actors respond n.inputs) p (.calling due outcome) w = (t', w')) :
    OnTime reply graph past done n p w t' w' ∨
      ∃ e, t' = .done (.error e) ∧ Broken reply past done (n.walk done) e w' := by
  obtain ⟨howns, request, hwork, -, -⟩ := hsound.okay n p _ (.here n p _)
  obtain ⟨hdue, houtcome⟩ := htimely n p due outcome request (.here n p _) hwork
  have hinputs := hplanned.leaf n request hentered.stage hwork
  have hhandled : Handled reply graph (Node.walkAll done n.inputs) w := by
    rw [hinputs, Node.walkAll]
    exact h
  have hcalls' : w.calls = askedAfter past (n.walk done) := by
    rw [hcalls]
    obtain ⟨before, rfl⟩ := Option.ne_none_iff_exists'.1 hpast
    rfl
  rw [hwork, pollStage] at hpoll
  split at hpoll
  · next hnow =>
    have houtcomes : stageOutcomes reply n.inputs = .ok [] := by
      rw [hinputs, stageOutcomes]
    have hreceived :
        Handled reply graph (Node.walkAll done n.inputs) (w.receive request) :=
      hhandled.of_same (fun _ => rfl) rfl
    have hbegun : past = none → ∀ k, graph k →
        ((w.receive request).Begun k.id ↔ w.Begun k.id ∨ n.Reaches k) :=
      fun hnone => absurd hnone hpast
    have hended :=
      conclude_punctual (p := p) hplanned.numbered hentered hreceived hcalls' howns
      hbegun houtcomes (by rw [← hdue]; exact hnow) rfl
    rw [hwork] at hended
    have hconclude : conclude n.id (workOutcome (reply n.id) (.ask request) [])
        (w.receive request) = (t', w') := by
      rw [replied, houtcome] at hpoll
      exact hpoll
    rw [hconclude] at hended
    exact hended
  · next hnow =>
    cases hpoll
    have hlater : w.now < ends reply n := by omega
    exact Or.inl ⟨hhandled.later hentered hlater, hcalls',
      .calling _ _ hentered.fresh, htimely,
      Or.inr hlater, fun hnone => absurd hnone hpast⟩

/-- A pass that is about to look at the inputs of a join. -/
theorem Visiting.start (hw : w.Tidy) (hf : w.Founded respond graph)
    (hjoined : Joined respond graph n p ts w)
    (hcovered : Covered n p (List.range n.inputs.length) ts w)
    (hidle : IdleAll n p ts w) (hplaced : PlacedAll done n ts)
    (htimely : TimelyAll reply n p ts) (hgoing : failed? ts = none)
    (h : Handled reply graph done w) (hcalls : w.calls = askedAfter past done)
    (hphase : ∀ u ∈ ts, u = .fresh ↔ past = none)
    (hahead : past = none → Node.walkAll done n.inputs <+: order)
    (hopening : past = none → w.now = 0 ∧ ∀ m ∈ n.inputs, ∀ k, m.Reaches k →
      (k ∈ done ↔ w.Begun k.id)) :
      Visiting respond reply graph order past done n p 0 ts w where
  tidy := hw
  founded := hf
  joined := hjoined
  covered := by
    rw [Nat.sub_zero, ← List.range_eq_range']
    exact hcovered
  idle := hidle
  placed := hplaced
  timely := htimely
  going := hgoing
  handled := by
    rw [List.take_zero, Node.walkAll]
    exact h
  calls := by
    rw [List.take_zero, Node.walkAll]
    exact hcalls
  phase := fun j u _ hu => hphase u (List.mem_of_getElem? hu)
  ahead := hahead
  opening := by
    rw [List.take_zero, Node.walkAll]
    exact hopening
  outcome := by
    intro j m u hj
    omega

/-- A stage that a walk goes into begins, and asks or looks at all of its inputs. -/
theorem fresh_punctual (hplanned : Planned graph) (hnarrow : Narrow graph)
    (hscheduled : Scheduled respond reply order) (hentered : Entered graph done n)
    (hall : ∀ m ∈ n.inputs, Punctual respond reply graph order none m) (hw : w.Tidy)
    (hf : w.Founded respond graph) (hsound : Sound respond graph n p .fresh w)
    (h : Handled reply graph done w) (hcalls : w.calls = askedAfter none done)
    (hopening : Opening order done n w)
    (hpoll : pollStage respond n.id n.work (n.inputs.map Node.id)
      (actors respond n.inputs) p .fresh w = (t', w')) :
    OnTime reply graph none done n p w t' w' ∨
      ∃ e, t' = .done (.error e) ∧ Broken reply none done (n.walk done) e w' := by
  have hn := hentered.stage
  have hnot : ¬ w.Begun n.id := fun hbegun =>
    hentered.fresh ((hopening.begun n (.refl n)).2 hbegun)
  have hr : w.recalled? n.id = none := by
    cases hr : w.recalled? n.id with
    | none => rfl
    | some r => exact absurd (Or.inl (by rw [hr]; rfl)) hnot
  have hturn : ¬ (w.turn? n.id).isSome = true := fun hturn => hnot (Or.inr hturn)
  have hnone : w.turn? n.id = none := by simpa using hturn
  rw [pollStage, hr] at hpoll
  dsimp only at hpoll
  rw [if_neg hturn] at hpoll
  cases hwork : n.work with
  | ask request =>
      rw [hwork, hplanned.leaf n request hn hwork, actors, begin_leaf] at hpoll
      exact ask_punctual hplanned hscheduled hentered hwork h hcalls
        hopening hnone hpoll
  | combine c =>
      have hmove : Move respond graph p w (w.take n.id p) := .take n hn hr hnone
      have hjoined : Joined respond graph n p (List.replicate n.inputs.length .fresh)
          (w.take n.id p) := (hsound.absent fun hlive => hlive).take_joined hnone
      have hfresh : ∀ u ∈ List.replicate n.inputs.length Task.fresh, u = .fresh :=
        fun u hu => List.eq_of_mem_replicate hu
      have hstart : Visiting respond reply graph order none done n p 0
          (List.replicate n.inputs.length .fresh) (w.take n.id p) := by
        refine .start (hmove.tidy hw) (hmove.founded hw hf) hjoined covered_fresh
          idleAll_fresh ?_ ?_ ?_ (h.of_same (fun _ => rfl) rfl) hcalls
          (fun u hu => by simp [hfresh u hu]) ?_ ?_
        · intro i m u _ hu
          rw [hfresh u (List.mem_of_getElem? hu)]
          exact .fresh _ m
        · intro i m u _ hu
          rw [hfresh u (List.mem_of_getElem? hu)]
          exact timely_of_single (by simp) (by simp)
        · rw [failed?_eq_none_iff]
          intro u hu e
          simp [hfresh u hu]
        · intro _
          have hahead := hopening.ahead
          rw [hentered.walk] at hahead
          exact (List.prefix_append _ _).trans hahead
        · intro _
          refine ⟨hopening.now, fun m hm k hk => ?_⟩
          -- No input needs the stage that has just begun.
          have hne : k.id ≠ n.id := by
            intro hid
            have hgraph :=
              graph_of_reaches hplanned.closed (hplanned.closed n hn m hm) hk
            have hsame := hplanned.numbered k n hgraph hn hid
            exact not_reaches_of_mem hm (hsame ▸ hk)
          rw [hopening.begun k (.input hm hk), begun_take]
          simp [hne]
      rw [begin, length_actors] at hpoll
      refine pollJoin_punctual hplanned hnarrow hentered hall hwork hstart ?_ hpoll
      intro _ k hk
      rw [begun_take]
      constructor
      · rintro (hold | hid)
        · exact Or.inl hold
        · exact Or.inr (hplanned.numbered k n hk hn hid)
      · rintro (hold | rfl)
        · exact Or.inl hold
        · exact Or.inr rfl

/-- A narrow join looks at all of its inputs in their order. -/
theorem visitOrder_eq (hnarrow : Narrow graph) (hn : graph n) :
    visitOrder (actors respond n.inputs) p w = List.range n.inputs.length := by
  rw [visitOrder, if_pos (isNarrow_actors hnarrow hn), length_actors]

/-- A task that joins its inputs looks at all of them again. -/
theorem joining_punctual (hplanned : Planned graph) (hnarrow : Narrow graph)
    (hentered : Entered graph done n)
    (hall : ∀ m ∈ n.inputs, Punctual respond reply graph order past m) (hw : w.Tidy)
    (hf : w.Founded respond graph) (hsound : Sound respond graph n p (.joining ts) w)
    (hexpected : Expected n p (.joining ts) w) (hidle : Idle n p (.joining ts) w)
    (hplaced : PlacedAll done n ts) (htimely : Timely reply n p (.joining ts))
    (h : Handled reply graph done w) (hcalls : w.calls = askedAfter past done)
    (hpast : past ≠ none)
    (hpoll : pollStage respond n.id n.work (n.inputs.map Node.id)
      (actors respond n.inputs) p (.joining ts) w = (t', w')) :
    OnTime reply graph past done n p w t' w' ∨
      ∃ e, t' = .done (.error e) ∧ Broken reply past done (n.walk done) e w' := by
  have hn := hentered.stage
  obtain ⟨-, hlength, hresults, hfailure⟩ := hsound.okay n p _ (.here n p _)
  rw [joinFailure?, if_pos (isNarrow_actors hnarrow hn)] at hfailure
  have hcovered : Covered n p (visitOrder (actors respond n.inputs) p w) ts w :=
    hexpected.covered
  rw [visitOrder_eq hnarrow hn] at hcovered
  rw [pollStage, visitOrder_eq hnarrow hn] at hpoll
  cases hwork : n.work with
  | ask request =>
      rw [hplanned.leaf n request hn hwork, List.length_nil,
        List.length_eq_zero_iff] at hlength
      subst hlength
      cases hresults
  | combine c =>
      have hstart : Visiting respond reply graph order past done n p 0 ts w := by
        refine .start hw hf hsound.joined hcovered (idle_joining.1 hidle) hplaced
          (timely_joining.1 htimely) hfailure h hcalls (fun u hu => ?_)
          (fun hnone => absurd hnone hpast) (fun hnone => absurd hnone hpast)
        refine ⟨fun hfresh => ?_, fun hnone => absurd hnone hpast⟩
        subst hfresh
        -- A task that has been let run once has begun.
        obtain ⟨i, hi, hu⟩ := List.mem_iff_getElem.1 hu
        have hm :=
          List.getElem?_eq_getElem (l := n.inputs) (by rw [← hlength]; exact hi)
        have hheld : Holds n p (.joining ts) n.inputs[i] (i :: p) .fresh :=
          .input i hm (by rw [List.getElem?_eq_getElem hi, hu]) (.here _ _ _)
        rcases hexpected with hfresh | hhelp
        · cases hfresh
        · rcases hhelp _ _ _ hheld with hrests | hroused
          · exact absurd hrests fun hfalse => hfalse
          · exact absurd hroused fun hfalse => hfalse
      exact pollJoin_punctual hplanned hnarrow hentered hall hwork hstart
        (fun hnone => absurd hnone hpast) hpoll

private theorem pollStage_punctual (hplanned : Planned graph) (hnarrow : Narrow graph)
    (hscheduled : Scheduled respond reply order) (hn : graph n)
    (hall : ∀ m ∈ n.inputs, Punctual respond reply graph order past m) (hw : w.Tidy)
    (hf : w.Founded respond graph) (hsound : Sound respond graph n p t w)
    (hexpected : Expected n p t w) (hidle : Idle n p t w) (hplaced : Placed done n t)
    (htimely : Timely reply n p t) (h : Handled reply graph done w)
    (hcalls : w.calls = askedAfter past done) (hphase : t = .fresh ↔ past = none)
    (hopening : past = none → Opening order done n w)
    (hpoll : pollStage respond n.id n.work (n.inputs.map Node.id)
      (actors respond n.inputs) p t w = (t', w')) :
    OnTime reply graph past done n p w t' w' ∨
      ∃ e, t' = .done (.error e) ∧ Broken reply past done (n.walk done) e w' := by
  by_cases hmem : n ∈ done
  · left
    refine passed_punctual h hcalls hmem
      (walk_of_mem hplanned.numbered h.complete.within hn hmem)
      hidle hplaced hphase (fun hpast k hk => ?_) hpoll
    exact ((hopening hpast).begun k hk).1 (h.complete.reaches hmem hk)
  · have hentered := Entered.of_not_mem hplanned hn h.complete hmem
    cases hplaced with
    | fresh =>
        have hpast := hphase.1 rfl
        subst hpast
        exact fresh_punctual hplanned hnarrow hscheduled hentered hall hw hf
          hsound h hcalls (hopening rfl) hpoll
    | queued hold => exact absurd hold hmem
    | joining _ hplaced =>
        have hpast : past ≠ none := fun hpast => by cases hphase.2 hpast
        exact joining_punctual hplanned hnarrow hentered hall hw hf hsound
          hexpected hidle hplaced htimely h hcalls hpast hpoll
    | calling due outcome _ =>
        have hpast : past ≠ none := fun hpast => by cases hphase.2 hpast
        exact calling_punctual hplanned hentered h hcalls hpast hsound htimely hpoll
    | done _ _ r =>
        have hpast : past ≠ none := fun hpast => by cases hphase.2 hpast
        rw [pollStage] at hpoll
        cases hpoll
        left
        refine ⟨h.recalled hplanned hf hn (hsound.okay n p _ (.here n p _)), ?_,
          .done done n r, htimely, Or.inl ⟨r, rfl⟩, fun hnone => absurd hnone hpast⟩
        rw [hcalls]
        obtain ⟨before, rfl⟩ := Option.ne_none_iff_exists'.1 hpast
        rfl

mutual

/-- **Punctuality.**  A pass through a stage is on schedule, or it meets the first
failure on the way. -/
theorem punctual (respond : Respond) {reply : Nat → Request → Reply}
    {graph : Node → Prop} {order : List Node} {past : Option (List Request)}
    (hplanned : Planned graph) (hnarrow : Narrow graph)
    (hscheduled : Scheduled respond reply order) :
    (n : Node) → graph n → Punctual respond reply graph order past n
  | .mk id name work inputs, hn => by
      intro p t w done hw hf hsound hexpected hidle hplaced htimely h hcalls
        hphase hopening
      rw [actor]
      exact pollStage_punctual (n := .mk id name work inputs) hplanned
        hnarrow hscheduled hn (punctualAll respond hplanned hnarrow hscheduled inputs
          fun m hm => hplanned.closed _ hn m hm)
        hw hf hsound hexpected hidle hplaced htimely h hcalls hphase hopening rfl

/-- The same of several stages. -/
theorem punctualAll (respond : Respond) {reply : Nat → Request → Reply}
    {graph : Node → Prop} {order : List Node} {past : Option (List Request)}
    (hplanned : Planned graph) (hnarrow : Narrow graph)
    (hscheduled : Scheduled respond reply order) :
    (ns : List Node) → (∀ n ∈ ns, graph n) →
      ∀ n ∈ ns, Punctual respond reply graph order past n
  | [], _, _, h => by cases h
  | m :: ns, hns, n, h => by
      rcases List.mem_cons.1 h with same | rest
      · exact same ▸ punctual respond hplanned hnarrow hscheduled m
          (hns m List.mem_cons_self)
      · exact punctualAll respond hplanned hnarrow hscheduled ns
          (fun k hk => hns k (List.mem_cons_of_mem _ hk)) n rest

end

end SeriesQuery.Execution
