import SeriesQuery.Proofs.Execution.Hindsight
import SeriesQuery.Proofs.Execution.Walk

/-!
# The course of a context

Whatever happens in a context, its world changes by moves of tasks, and between them by
the passing of time.  So a context stays in order: its execution, if there is one, is
sound, and if there is none, nobody has a turn or queues for one.  A result that is kept
stays, and what is new is founded on what is kept.

Requests are made in the turn at a stage, and a stage that has a turn has no result.  So
nothing is asked for a stage whose result is kept.  A stage that fails has the turn
until then, so that there is no result of it afterwards, either.

## Main results

* `Course.recalled?`, `Course.asked`, `Course.earned`: what any course of events keeps.
* `failing`: a stage that fails has no result.
* `Context.Ordered.after`: events keep a context in order and its world on course.
-/

namespace SeriesQuery.Execution

open SeriesQuery.Backend (Request Response)
open World

variable {respond : Respond} {graph : Node → Prop} {w w' : World} {root n : Node}
  {p q : Path} {t : Task} {ts : List Task} {c : Context} {e : StageFailure}
  {r : SeriesResult}

/-! ## Courses -/

/-- A world changes by moves of tasks, and in ways that touch no turn, no result and no
request. -/
inductive Course (respond : Respond) (graph : Node → Prop) (w : World) : World → Prop
  | refl : Course respond graph w w
  | move {w' w'' : World} (q : Path) :
      Course respond graph w w' → Move respond graph q w' w'' →
      Course respond graph w w''
  | rest {w' w'' : World} : Course respond graph w w' → w''.turns = w'.turns →
      w''.memo = w'.memo → w''.calls = w'.calls → Course respond graph w w''

private theorem Course.trans {w'' : World} (h : Course respond graph w w')
    (h' : Course respond graph w' w'') : Course respond graph w w'' := by
  induction h' with
  | refl => exact h
  | move q _ hmove ih => exact ih.move q hmove
  | rest _ hturns hmemo hcalls ih => exact ih.rest hturns hmemo hcalls

private theorem Course.of_moves {places : Path → Prop}
    (h : Moves respond graph places w w') : Course respond graph w w' := by
  induction h with
  | refl => exact .refl
  | tail _ hmove ih =>
      obtain ⟨q, -, hmove⟩ := hmove
      exact ih.move q hmove

theorem Course.tidy (h : Course respond graph w w') (hw : w.Tidy) : w'.Tidy := by
  induction h with
  | refl => exact hw
  | move q _ hmove ih => exact hmove.tidy ih
  | rest _ hturns hmemo _ ih => exact ih.of_same hturns hmemo

/-- **Induction along a course.**  What every move keeps in a tidy world is kept, if it
is said of results and requests. -/
theorem Course.keeps {P : World → Prop}
    (hmove : ∀ {q w w'}, Move respond graph q w w' → w.Tidy → P w → P w')
    (hrest : ∀ {w w' : World}, w'.memo = w.memo → w'.calls = w.calls → P w → P w')
    (h : Course respond graph w w') (hw : w.Tidy) (hP : P w) : P w' := by
  induction h with
  | refl => exact hP
  | move q hcourse hstep ih => exact hmove hstep (hcourse.tidy hw) ih
  | rest _ _ hmemo hcalls ih => exact hrest hmemo hcalls ih

/-- A result that is kept stays as it is. -/
theorem Course.recalled? (h : Course respond graph w w') (hw : w.Tidy) {id : Nat}
    (hr : w.recalled? id = some r) : w'.recalled? id = some r := by
  refine h.keeps (P := fun w => w.recalled? id = some r)
    (fun hm hw hr => hm.recalled? hw hr) (fun hmemo _ hr => ?_) hw hr
  rw [recalled?_of_memo hmemo]
  exact hr

theorem Course.founded (h : Course respond graph w w') (hw : w.Tidy)
    (hf : w.Founded respond graph) : w'.Founded respond graph :=
  h.keeps (P := fun w => w.Founded respond graph) (fun hm hw hf => hm.founded hw hf)
    (fun hmemo _ hf => hf.of_memo hmemo) hw hf

/-- Of a course, results that are new come of the work of stages. -/
theorem Course.earned (h : Course respond graph w w') (hw : w.Tidy) {id : Nat}
    (hr : w'.recalled? id = some r) :
    w.recalled? id = some r ∨
      ∃ n, graph n ∧ n.id = id ∧ w'.Gives respond n (.ok r) := by
  refine h.keeps (P := fun v => ∀ id r, v.recalled? id = some r →
    w.recalled? id = some r ∨
    ∃ n, graph n ∧ n.id = id ∧ v.Gives respond n (.ok r)) ?_ ?_ hw
    (fun id r hr => Or.inl hr) id r hr
  · intro q v v' hm hv hold id r hr
    rcases hm.earned hv hr with hr | hnew
    · rcases hold id r hr with hr | ⟨n, hn, hid, hgives⟩
      · exact Or.inl hr
      · exact Or.inr ⟨n, hn, hid, hgives.mono fun _ _ => hm.recalled? hv⟩
    · exact Or.inr hnew
  · intro v v' hmemo _ hold id r hr
    rw [recalled?_of_memo hmemo] at hr
    rcases hold id r hr with hr | ⟨n, hn, hid, hgives⟩
    · exact Or.inl hr
    · exact Or.inr ⟨n, hn, hid, hgives.of_memo hmemo⟩

/-- **Requests of a course.**  They are those of stages that had no result before. -/
theorem Course.asked (h : Course respond graph w w') (hw : w.Tidy) :
    ∃ ns, w'.calls = w.calls ++ requestsOf ns ∧ ∀ n ∈ ns,
      graph n ∧ w.recalled? n.id = none := by
  -- What has no result later on has none before, since results stay.
  refine (h.keeps
    (P := fun v => (∀ id r, w.recalled? id = some r → v.recalled? id = some r) ∧
      ∃ ns, v.calls = w.calls ++ requestsOf ns ∧
        ∀ n ∈ ns, graph n ∧ w.recalled? n.id = none) ?_ ?_ hw
    ⟨fun _ _ hr => hr, [], by simp [requestsOf], by simp⟩).2
  · rintro q v v' hm hv ⟨hkeep, ns, hcalls, hns⟩
    refine ⟨fun id r hr => hm.recalled? hv (hkeep id r hr), ?_⟩
    rcases hm.calls hv with hsame | ⟨n, request, hn, hwork, hnone, hnew⟩
    · exact ⟨ns, by rw [hsame, hcalls], hns⟩
    · have hbefore : w.recalled? n.id = none := by
        cases hr : w.recalled? n.id with
        | none => rfl
        | some r =>
            rw [hkeep n.id r hr] at hnone
            cases hnone
      refine ⟨ns ++ [n], ?_, ?_⟩
      · rw [hnew, hcalls, requestsOf, requestsOf, List.filterMap_append,
          List.append_assoc]
        simp [hwork, Work.request?]
      · intro k hk
        rcases List.mem_append.1 hk with hk | hk
        · exact hns k hk
        · rw [List.mem_singleton.1 hk]
          exact ⟨hn, hbefore⟩
  · rintro v v' hmemo hcalls ⟨hkeep, ns, hns, hgraph⟩
    refine ⟨fun id r hr => ?_, ns, by rw [hcalls, hns], hgraph⟩
    rw [recalled?_of_memo hmemo]
    exact hkeep id r hr

/-! ## Failures -/

private theorem conclude_failed {id : Nat} {result : Except StageFailure SeriesResult}
    (hnone : w.recalled? id = none)
    (h : conclude id result w = (.done (.error e), w')) : w'.recalled? id = none := by
  cases result with
  | ok r => cases h
  | error e' =>
      cases h
      exact hnone

private theorem act_failed {id : Nat} {work : Work} {ids : List Nat}
    {rs : List SeriesResult} (hnone : w.recalled? id = none)
    (h : act respond id work ids p rs w = (.done (.error e), w')) :
    w'.recalled? id = none := by
  cases work with
  | combine c => exact conclude_failed hnone h
  | ask request =>
      unfold act at h
      dsimp only at h
      split at h
      · exact conclude_failed (w := (w.call request).receive request) hnone h
      · cases h

private theorem pollJoin_failed (hpass : ∀ m ∈ n.inputs, Passing respond graph m)
    (hleave : ∀ m ∈ n.inputs, Leaving respond graph m) (hw : w.Tidy)
    (h : Joined respond graph n p ts w) {order : List Nat}
    (hempty : order = [] → joinFailure? (actors respond n.inputs) ts = none)
    (hcovered : Covered n p order ts w)
    (hpoll : pollJoin respond n.id n.work (n.inputs.map Node.id)
      (actors respond n.inputs) p order ts w = (.done (.error e), w')) :
    w'.recalled? n.id = none := by
  unfold pollJoin at hpoll
  obtain ⟨⟨failure, ts₁, w₁⟩, hvisit⟩ :
      ∃ r, visit (actors respond n.inputs) p order ts w = r := ⟨_, rfl⟩
  obtain ⟨hmoves, hjoined, -, -⟩ := visit_joined hpass order hw h hempty hcovered hvisit
  have hw₁ := hmoves.tidy hw
  rw [hvisit] at hpoll
  cases failure with
  | some e' =>
      obtain ⟨hdrop, -⟩ := dropFrom_sole hleave hw₁ hjoined
      have howns := hdrop.owns hw₁ not_beneath_self hjoined.owns
      exact conclude_failed
        ((hdrop.tidy hw₁).recalled?_eq_none howns.turn?_ne_none) hpoll
  | none =>
      dsimp only at hpoll
      cases hresults : results? ts₁ with
      | none =>
          rw [hresults] at hpoll
          cases hpoll
      | some rs =>
          rw [hresults] at hpoll
          exact act_failed (hw₁.recalled?_eq_none hjoined.owns.turn?_ne_none) hpoll

private theorem begin_failed (hpass : ∀ m ∈ n.inputs, Passing respond graph m)
    (hleave : ∀ m ∈ n.inputs, Leaving respond graph m) (hw : w.Tidy)
    (howns : w.Owns n.id p) (hsole : Sole w n p)
    (hpoll : begin respond n.id n.work (n.inputs.map Node.id)
      (actors respond n.inputs) p w =
      (.done (.error e), w')) : w'.recalled? n.id = none := by
  unfold begin at hpoll
  rw [length_actors] at hpoll
  exact pollJoin_failed hpass hleave hw (.fresh howns hsole) joinFailure?_fresh
    covered_fresh hpoll

private theorem pollStage_failed (hpass : ∀ m ∈ n.inputs, Passing respond graph m)
    (hleave : ∀ m ∈ n.inputs, Leaving respond graph m) (hw : w.Tidy)
    (h : Sound respond graph n p t w) (hexpected : Expected n p t w)
    (hdone : ∀ r, t ≠ .done r)
    (hpoll : pollStage respond n.id n.work (n.inputs.map Node.id)
      (actors respond n.inputs) p t w =
      (.done (.error e), w')) : w'.recalled? n.id = none := by
  cases t with
  | done r => exact absurd rfl (hdone r)
  | fresh =>
      have habsent : Absent w p := h.absent (fun hlive => hlive)
      rw [pollStage] at hpoll
      cases hr : w.recalled? n.id with
      | some r =>
          rw [hr] at hpoll
          cases hpoll
      | none =>
          rw [hr] at hpoll
          dsimp only at hpoll
          split at hpoll
          · cases hpoll
          · rename_i hturn
            have hnone : w.turn? n.id = none := by simpa using hturn
            exact begin_failed hpass hleave (hw.take hnone hr)
              ((owns_take hnone).2 (Or.inr ⟨rfl, rfl⟩)) (habsent.take hnone) hpoll
  | queued =>
      rw [pollStage] at hpoll
      cases hr : w.recalled? n.id with
      | some r =>
          rw [hr] at hpoll
          cases hpoll
      | none =>
          rw [hr] at hpoll
          dsimp only at hpoll
          split at hpoll
          · rename_i howns
            exact begin_failed hpass hleave hw (owns_eq_true.1 howns)
              (h.sole (by simp)) hpoll
          · cases hpoll
  | joining ts =>
      rw [pollStage] at hpoll
      obtain ⟨-, -, -, hfailure⟩ := h.okay n p _ (.here n p _)
      exact pollJoin_failed hpass hleave hw h.joined (fun _ => hfailure)
        hexpected.covered hpoll
  | calling due outcome =>
      obtain ⟨howns, request, hwork, -⟩ := h.okay n p _ (.here n p _)
      rw [hwork, pollStage] at hpoll
      split at hpoll
      · exact conclude_failed (w := w.receive request)
          (hw.recalled?_eq_none howns.turn?_ne_none) hpoll
      · cases hpoll

/-- **Failures.**  A stage that fails has no result. -/
theorem failing (hclosed : Closed graph) (hn : graph n) (hw : w.Tidy)
    (h : Sound respond graph n p t w) (hexpected : Expected n p t w)
    (hdone : ∀ r, t ≠ .done r)
    (hpoll : (actor respond n).poll p t w = (.done (.error e), w')) :
    w'.recalled? n.id = none := by
  cases n with
  | mk id name work inputs =>
      rw [actor] at hpoll
      exact pollStage_failed (n := .mk id name work inputs)
        (passingAll respond hclosed inputs fun m hm => hclosed _ hn m hm)
        (leavingAll respond graph inputs) hw h hexpected hdone hpoll

/-! ## Contexts -/

/-- What holds of the execution in a context. -/
structure Underway (respond : Respond) (graph : Node → Prop) (root : Node) (t : Task)
    (w : World) :
    Prop where
  mem : graph root
  sound : Sound respond graph root [] t w
  expected : Expected root [] t { w with next := [] }
  failed : ∀ e, t = .done (.error e) → w.recalled? root.id = none

/-- A context in order: nobody has a turn or queues for one, except for its
execution. -/
structure Context.Ordered (respond : Respond) (graph : Node → Prop)
    (c : Context) : Prop where
  tidy : c.world.Tidy
  idle : c.current = none → Absent c.world []
  busy : ∀ root t, c.current = some (root, t) → Underway respond graph root t c.world

theorem Context.tidy_fresh : fresh.world.Tidy :=
  ⟨List.nodup_nil, by simp [fresh, World.start], fun _ _ _ => rfl⟩

theorem Context.ordered_fresh (respond : Respond) (graph : Node → Prop) :
    fresh.Ordered respond graph where
  tidy := tidy_fresh
  idle := by
    rintro - id q - (ho | hwaits)
    · exact ho.turn?_ne_none rfl
    · exact hwaits.turn?_ne_none rfl
  busy := by
    intro root t h
    cases h

theorem poll_done {result : Except StageFailure SeriesResult} :
    (actor respond n).poll p (.done result) w = (.done result, w) := by
  cases n
  rw [actor]
  rfl

theorem pass_of_done {result : Except StageFailure SeriesResult}
    (hpoll : (actor respond root).poll [] t { w with next := [] } =
      (.done result, w')) : pass respond root t w = (.done result, w') := by
  rw [pass, hpoll]

theorem pass_of_not_done {t' : Task}
    (hpoll : (actor respond root).poll [] t { w with next := [] } = (t', w'))
    (hdone : ∀ r, t' ≠ .done r) : pass respond root t w = (t', w'.resume) := by
  rw [pass, hpoll]
  cases t' with
  | done r => exact absurd rfl (hdone r)
  | fresh => rfl
  | queued => rfl
  | joining ts => rfl
  | calling due outcome => rfl

/-- Whoever needs help when a pass is over has been woken when the next one begins. -/
theorem Quiet.resume (h : Quiet n p t w) :
    Expected n p t { w.resume with next := [] } := by
  refine h.later (resume_same w).1 (fun q hq => ?_) fun due q hmem => ?_
  · have hwoke : w.next ≠ [] := List.ne_nil_of_mem hq
    rw [World.resume, if_pos hwoke]
    exact hq
  · unfold World.resume
    split
    · exact Or.inl hmem
    · cases hlater : w.advance? with
      | none => exact Or.inl hmem
      | some w' => exact (advance?_eq_some hlater).2.2 due q hmem

/-- Letting the last stage of an execution run. -/
theorem Underway.poll (hclosed : Closed graph) (hw : w.Tidy)
    (h : Underway respond graph root t w) {t' : Task}
    (hpoll : (actor respond root).poll [] t { w with next := [] } = (t', w')) :
    Course respond graph w w' ∧ Sound respond graph root [] t' w' ∧
      Quiet root [] t' w' ∧
      ∀ e, t' = .done (.error e) → w'.recalled? root.id = none := by
  have hawake : { w with next := [] }.Tidy := hw.of_same rfl rfl
  have hsound : Sound respond graph root [] t { w with next := [] } :=
    h.sound.of_same rfl rfl
  have hpassed := passing respond hclosed root h.mem [] t _ hawake hsound h.expected
  rw [hpoll] at hpassed
  have hcourse : Course respond graph w { w with next := [] } :=
    Course.refl.rest rfl rfl rfl
  refine ⟨hcourse.trans (.of_moves hpassed.moves), hpassed.sound, hpassed.quiet, ?_⟩
  rintro e rfl
  by_cases hdone : ∃ r, t = .done r
  · obtain ⟨r, rfl⟩ := hdone
    rw [poll_done] at hpoll
    cases hpoll
    exact h.failed e rfl
  · exact failing hclosed h.mem hawake hsound h.expected
      (fun r hr => hdone ⟨r, hr⟩) hpoll

/-- What a pass of an execution leaves behind. -/
theorem Underway.pass (hclosed : Closed graph) (hw : w.Tidy)
    (h : Underway respond graph root t w) :
    Underway respond graph root (Execution.pass respond root t w).1
        (Execution.pass respond root t w).2 ∧
      Course respond graph w (Execution.pass respond root t w).2 := by
  obtain ⟨⟨t', w'⟩, hpoll⟩ :
      ∃ r, (actor respond root).poll [] t { w with next := [] } = r := ⟨_, rfl⟩
  obtain ⟨hcourse, hsound, hquiet, hfailed⟩ := h.poll hclosed hw hpoll
  by_cases hdone : ∃ r, t' = .done r
  · obtain ⟨r, rfl⟩ := hdone
    have hdone : Quiet root [] (.done r) { w' with next := [] } :=
      Quiet.single (by simp) trivial
    rw [pass_of_done hpoll]
    exact ⟨⟨h.mem, hsound, hdone.expected, hfailed⟩, hcourse⟩
  · rw [pass_of_not_done hpoll fun r hr => hdone ⟨r, hr⟩]
    obtain ⟨hturns, hmemo, hcalls⟩ := resume_same w'
    refine ⟨⟨h.mem, hsound.of_same hturns hmemo, hquiet.resume, fun e he => ?_⟩,
      hcourse.rest hturns hmemo hcalls⟩
    exact absurd ⟨_, he⟩ hdone

/-- Where nobody stands, nobody has a turn. -/
theorem Absent.turns (h : Absent w []) (hw : w.Tidy) : w.turns = [] := by
  cases hturns : w.turns with
  | nil => rfl
  | cons s ss =>
      have hmem : s ∈ w.turns := by
        rw [hturns]
        exact List.mem_cons_self
      exact absurd (Or.inl ⟨s, hw.turn?_eq_some hmem, rfl⟩)
        (h s.id s.owner List.nil_suffix)

namespace Context

/-- Dropping an execution leaves nobody behind. -/
theorem Ordered.cut (h : c.Ordered respond graph) :
    Course respond graph c.world (c.cut respond).world ∧
      Absent (c.cut respond).world [] := by
  unfold Context.cut
  cases hcurrent : c.current with
  | none => exact ⟨.refl, h.idle hcurrent⟩
  | some x =>
      obtain ⟨root, t⟩ := x
      obtain ⟨hmoves, habsent⟩ :=
        leaving respond graph root [] t c.world h.tidy (h.busy root t hcurrent).sound
      exact ⟨.of_moves hmoves, habsent⟩

/-- A context without an execution is in order whatever the backend and the graph
are. -/
theorem ordered_idle (hw : w.Tidy) (h : Absent w []) :
    (⟨w, none⟩ : Context).Ordered respond graph where
  tidy := hw
  idle := fun _ => h
  busy := by
    intro root t hcurrent
    cases hcurrent

/-- An execution that starts in a context where nobody stands. -/
theorem ordered_start (hw : w.Tidy) (h : Absent w []) (hroot : graph root) :
    (⟨w, some (root, .fresh)⟩ : Context).Ordered respond graph where
  tidy := hw
  idle := by
    intro hcurrent
    cases hcurrent
  busy := by
    intro root' t hcurrent
    cases hcurrent
    exact ⟨hroot, .absented h (by simp) trivial, Or.inl rfl, by simp⟩

/-- **Order.**  An event keeps a context in order. -/
theorem Ordered.step (hclosed : Closed graph) (h : c.Ordered respond graph) (e : Event)
    (hroot : ∀ root, e = .start root → graph root) :
    (c.step respond e).Ordered respond graph ∧
      Course respond graph c.world (c.step respond e).world := by
  obtain ⟨hcut, habsent⟩ := h.cut
  cases e with
  | start root =>
      exact ⟨ordered_start (hcut.tidy h.tidy) habsent (hroot root rfl), hcut⟩
  | drop =>
      have hnone : c.cut respond = ⟨(c.cut respond).world, none⟩ := by
        unfold Context.cut
        cases hcurrent : c.current with
        | none =>
            cases c
            cases hcurrent
            rfl
        | some x => rfl
      rw [Context.step, hnone]
      exact ⟨ordered_idle (hcut.tidy h.tidy) habsent, hcut⟩
  | pass =>
      rw [Context.step]
      cases hcurrent : c.current with
      | none => exact ⟨h, .refl⟩
      | some x =>
          obtain ⟨root, t⟩ := x
          obtain ⟨hunderway, hcourse⟩ := (h.busy root t hcurrent).pass hclosed h.tidy
          refine ⟨⟨hcourse.tidy h.tidy, by simp, ?_⟩, hcourse⟩
          intro root' t' hcurrent'
          cases hcurrent'
          exact hunderway

/-- Any events keep a context in order. -/
theorem Ordered.after (hclosed : Closed graph) (events : List Event) :
    ∀ {c : Context}, c.Ordered respond graph →
      (∀ root, .start root ∈ events → graph root) →
      (c.after respond events).Ordered respond graph ∧
        Course respond graph c.world (c.after respond events).world := by
  induction events with
  | nil => exact fun h _ => ⟨h, .refl⟩
  | cons e events ih =>
      intro c h hroots
      obtain ⟨hstep, hcourse⟩ := h.step hclosed e
        (fun root he => hroots root (he ▸ List.mem_cons_self))
      obtain ⟨hafter, hcourse'⟩ :=
        ih hstep fun root hmem => hroots root (List.mem_cons_of_mem e hmem)
      exact ⟨hafter, hcourse.trans hcourse'⟩

end Context

end SeriesQuery.Execution
