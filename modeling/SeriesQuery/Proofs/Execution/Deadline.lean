import SeriesQuery.Execution.Journal
import SeriesQuery.Proofs.Execution.Course
import SeriesQuery.Proofs.Execution.Requests

/-!
# The deadline of a statement

A run with a deadline is the run without one as far as the deadline lets it go.  Both
make the same passes as long as these are made in time; when the next reply comes in too
late, the run with the deadline stops, and what it has asked and received by then is
what the journal of the other run tells of the passes up to the deadline.  A pass at the
very moment of the deadline is still made.

## Main results

* `proceed_of_resume`: one pass of a run, with a deadline or without.
* `Told.pass`, `Cut.pass`: one more pass before those that a journal tells of.
* `Midway.told`: the run with a deadline compared with the journal of the run without.
* `deadline_only_cuts`: what a deadline does to the run of a plan.
-/

namespace SeriesQuery.Execution

open SeriesQuery.Backend (Request)
open World

variable {respond : Respond} {graph : Node → Prop} {q : Path} {w w' w'' : World}
  {root : Node} {t t' : Task} {o o' : Outcome} {es : List Entry} {moment : Nat}

/-! ## What passes add -/

/-- A move forgets nothing of what has been asked and received. -/
theorem Move.grows (h : Move respond graph q w w') (hw : w.Tidy) :
    w.calls <+: w'.calls ∧ w.finished <+: w'.finished := by
  have hcalls : w.calls <+: w'.calls := by
    rcases h.calls hw with hsame | ⟨n, request, -, -, -, hnew⟩
    · rw [hsame]
    · rw [hnew]
      exact List.prefix_append w.calls [request]
  refine ⟨hcalls, ?_⟩
  cases h with
  | receive request => exact List.prefix_append w.finished [request]
  | leave j =>
      unfold World.leave
      split <;> exact List.prefix_refl _
  | take n _ _ _ => exact List.prefix_refl _
  | queue n _ _ _ => exact List.prefix_refl _
  | settle n r _ _ _ => exact List.prefix_refl _
  | release j _ => exact List.prefix_refl _
  | call n request _ _ _ => exact List.prefix_refl _
  | await due _ => exact List.prefix_refl _
  | forget => exact List.prefix_refl _

private theorem Moves.grows {places : Path → Prop} (h : Moves respond graph places w w')
    (hw : w.Tidy) : w.calls <+: w'.calls ∧ w.finished <+: w'.finished :=
  (h.keeps (P := fun v => w.calls <+: v.calls ∧ w.finished <+: v.finished)
    (fun _ hm hv hgrows =>
      ⟨hgrows.1.trans (hm.grows hv).1, hgrows.2.trans (hm.grows hv).2⟩) hw
    ⟨List.prefix_refl _, List.prefix_refl _⟩).2

/-- What a run is like before a pass: all replies that are awaited are still to come
in. -/
structure Midway (respond : Respond) (graph : Node → Prop) (root : Node) (t : Task)
    (w : World) :
    Prop where
  ready : Ready respond graph root t { w with next := [] }
  awaits : ∀ s ∈ w.timers, w.now < s.due

/-- What a run is like after a pass that began in some world. -/
structure Stepped (respond : Respond) (graph : Node → Prop) (root : Node) (w : World)
    (t' : Task) (w' : World) : Prop where
  tidy : w'.Tidy
  founded : w'.Founded respond graph
  sound : Sound respond graph root [] t' w'
  quiet : Quiet root [] t' w'
  now : w'.now = w.now
  awaits : ∀ s ∈ w'.timers, w'.now < s.due
  calls : w.calls <+: w'.calls
  finished : w.finished <+: w'.finished

theorem Midway.pass (hclosed : Closed graph) (hroot : graph root)
    (h : Midway respond graph root t w)
    (hpoll : (actor respond root).poll [] t { w with next := [] } = (t', w')) :
    Stepped respond graph root w t' w' := by
  have hpassed :=
    passing respond hclosed root hroot [] t { w with next := [] } h.ready.tidy
    h.ready.sound h.ready.expected
  rw [hpoll] at hpassed
  have hgrows := hpassed.moves.grows h.ready.tidy
  exact ⟨hpassed.moves.tidy h.ready.tidy,
    hpassed.moves.founded h.ready.tidy h.ready.founded,
    hpassed.sound, hpassed.quiet, hpassed.moves.clock.1,
    hpassed.moves.awaits h.ready.tidy h.awaits, hgrows.1, hgrows.2⟩

private theorem finished_resume (w : World) : w.resume.finished = w.finished := by
  unfold World.resume World.advance?
  split
  · rfl
  · cases (w.timers.map Timer.due).min? with
    | none => rfl
    | some due => rfl

/-- The next pass is not made earlier, and what it waits for comes in later. -/
theorem clock_resume (h : ∀ s ∈ w.timers, w.now < s.due) :
    w.now ≤ w.resume.now ∧ ∀ s ∈ w.resume.timers, w.resume.now < s.due := by
  unfold World.resume
  split
  · exact ⟨Nat.le_refl _, h⟩
  · cases hlater : w.advance? with
    | none => exact ⟨Nat.le_refl _, h⟩
    | some w' =>
        have hclock := (Later.of_advance? hlater).clock
        rcases hclock with ⟨hnow, htimers⟩ | ⟨⟨s, hs, hnow⟩, -, hawaits⟩
        · exact ⟨Nat.le_of_eq hnow.symm, hnow ▸ htimers ▸ h⟩
        · exact ⟨Nat.le_of_lt (hnow ▸ h s hs), hawaits⟩

private theorem Stepped.resume (h : Stepped respond graph root w t' w') :
    Midway respond graph root t' w'.resume where
  ready :=
    { tidy := h.tidy.of_same (resume_same w').1 (resume_same w').2.1
      founded := h.founded.of_memo (resume_same w').2.1
      sound := h.sound.of_same (resume_same w').1 (resume_same w').2.1
      expected := h.quiet.resume }
  awaits := (clock_resume h.awaits).2

/-! ## One pass of a run -/

private theorem proceed_of_done {deadline : Option Nat}
    {result : Except StageFailure SeriesResult}
    (hpoll : (actor respond root).poll [] t { w with next := [] } =
      (.done result, w')) : proceed respond deadline root t w = ⟨some result, w'⟩ := by
  rw [proceed]
  split
  · rename_i hstep
    rw [hpoll] at hstep
    cases hstep
    rfl
  · rename_i hdone hstep
    rw [hpoll] at hstep
    cases hstep
    exact absurd rfl (hdone result)

/-- A run goes on with its next pass unless that would be made after the deadline. -/
theorem proceed_of_resume {deadline : Option Nat}
    (hpoll : (actor respond root).poll [] t { w with next := [] } = (t', w'))
    (hdone : ∀ r, t' ≠ .done r) (hgoes : w'.next = [] → w'.advance? ≠ none) :
    proceed respond deadline root t w =
      if w'.next = [] ∧ deadline.any (· < w'.resume.now) then ⟨none, w'⟩
      else proceed respond deadline root t' w'.resume := by
  fun_cases proceed respond deadline root t w with
  | case1 awake result v hstep =>
      cases hpoll.symm.trans hstep
      exact absurd rfl (hdone result)
  | case2 awake v' v hnot hstep hwoke =>
      cases hpoll.symm.trans hstep
      rw [if_neg fun hboth => hwoke hboth.1, World.resume, if_pos hwoke]
  | case3 awake v' v hnot hstep hwoke hnone =>
      cases hpoll.symm.trans hstep
      exact absurd hnone (hgoes (by simpa using hwoke))
  | case4 awake v' v hnot hstep hwoke later hsome hdeadline =>
      cases hpoll.symm.trans hstep
      have hresume : w'.resume = later := by rw [World.resume, if_neg hwoke, hsome]; rfl
      rw [hresume, if_pos ⟨by simpa using hwoke, hdeadline⟩]
  | case5 awake v' v hnot hstep hwoke later hsome hdeadline =>
      cases hpoll.symm.trans hstep
      have hresume : w'.resume = later := by rw [World.resume, if_neg hwoke, hsome]; rfl
      rw [hresume, if_neg fun hboth => hdeadline hboth.2]

/-! ## Journals of runs -/

/-- What a pass does, told by the worlds before it and after it. -/
def entry (w w' : World) : Entry :=
  ⟨w.now, w'.calls.drop w.calls.length, w'.finished.drop w.finished.length⟩

private theorem append_drop {α : Type} {xs ys : List α} (h : xs <+: ys) :
    xs ++ ys.drop xs.length = ys := by
  obtain ⟨zs, rfl⟩ := h
  rw [List.drop_left]

private theorem journal_succ {w' : World} (hpass : pass respond root t w = (t', w'))
    (passes : Nat) :
    journal respond root (passes + 1) t w =
      entry w w' :: journal respond root passes t' w' := by
  rw [journal, hpass]
  rfl

/-- A journal tells of a run that goes on from some world: all that it asks and
receives, pass by pass and up to its end. -/
structure Told (w : World) (o : Outcome) (es : List Entry) : Prop where
  calls : o.world.calls = w.calls ++ es.flatMap Entry.calls
  finished : o.world.finished = w.finished ++ es.flatMap Entry.finished
  ordered : (es.map Entry.moment).Pairwise (· ≤ ·)
  since : ∀ e ∈ es, w.now ≤ e.moment
  ends : es.getLast?.map Entry.moment = some o.world.now

private theorem Told.le_ends (h : Told w o es) : w.now ≤ o.world.now := by
  obtain ⟨e, he, hmoment⟩ := Option.map_eq_some_iff.1 h.ends
  rw [← hmoment]
  exact h.since e (List.mem_of_getLast? he)

/-- The last pass of a run. -/
theorem Told.last {result : Option (Except StageFailure SeriesResult)}
    (h : Stepped respond graph root w t' w') : Told w ⟨result, w'⟩ [entry w w'] where
  calls := by simpa [entry] using (append_drop h.calls).symm
  finished := by simpa [entry] using (append_drop h.finished).symm
  ordered := List.pairwise_singleton _ _
  since := by simp [entry]
  ends := by simp [entry, h.now]

/-- The entry of a pass adds what has been asked and received by the next one. -/
theorem Stepped.adds (h : Stepped respond graph root w t' w') :
    w.calls ++ (entry w w'.resume).calls = w'.resume.calls ∧
      w.finished ++ (entry w w'.resume).finished = w'.resume.finished := by
  rw [entry, (resume_same w').2.2, finished_resume]
  exact ⟨append_drop h.calls, append_drop h.finished⟩

/-- One more pass before those that a journal tells of. -/
theorem Told.pass (h : Told w'.resume o es)
    (hstep : Stepped respond graph root w t' w') :
    Told w o (entry w w'.resume :: es) := by
  have hclock : w.now ≤ w'.resume.now := by
    rw [← hstep.now]
    exact (clock_resume hstep.awaits).1
  refine ⟨?_, ?_, ?_, ?_, ?_⟩
  · rw [h.calls, List.flatMap_cons, ← List.append_assoc, hstep.adds.1]
  · rw [h.finished, List.flatMap_cons, ← List.append_assoc, hstep.adds.2]
  · rw [List.map_cons, List.pairwise_cons]
    refine ⟨fun moment hmem => ?_, h.ordered⟩
    obtain ⟨e, he, rfl⟩ := List.mem_map.1 hmem
    exact hclock.trans (h.since e he)
  · intro e he
    rcases List.mem_cons.1 he with rfl | he
    · exact Nat.le_refl _
    · exact hclock.trans (h.since e he)
  · have hends := h.ends
    cases es with
    | nil => cases hends
    | cons e es =>
        rw [List.getLast?_cons_cons]
        exact hends

/-! ## Runs that are cut off -/

/-- A run that has been cut off at some moment, having asked and received what a journal
tells of the passes up to then; what it still waits for comes in later. -/
structure CutOff (w : World) (moment : Nat) (o : Outcome) (es : List Entry) : Prop where
  result : o.result = none
  now : o.world.now ≤ moment
  calls : o.world.calls = w.calls ++ (entriesBy moment es).flatMap Entry.calls
  finished :
    o.world.finished = w.finished ++ (entriesBy moment es).flatMap Entry.finished
  awaits : ∀ s ∈ o.world.timers, moment < s.due

/-- What a deadline makes of a run that comes to some end without it. -/
structure Cut (w : World) (moment : Nat) (free cut : Outcome)
    (es : List Entry) : Prop where
  within : free.world.now ≤ moment → cut = free
  beyond : moment < free.world.now → CutOff w moment cut es

private theorem entriesBy_cons_of_le {e : Entry} (h : e.moment ≤ moment) :
    entriesBy moment (e :: es) = e :: entriesBy moment es := by
  simp [entriesBy, h]

private theorem entriesBy_eq_nil (h : ∀ e ∈ es, moment < e.moment) :
    entriesBy moment es = [] := by
  unfold entriesBy
  rw [List.filter_eq_nil_iff]
  intro e he
  have hlater := h e he
  simp only [decide_eq_true_eq]
  omega

/-- One more pass in time. -/
theorem Cut.pass (h : Cut w'.resume moment o o' es)
    (hstep : Stepped respond graph root w t' w') (hnow : w.now ≤ moment) :
    Cut w moment o o' (entry w w'.resume :: es) := by
  refine ⟨h.within, fun hlate => ?_⟩
  obtain ⟨hresult, hend, hcalls, hfinished, hawaits⟩ := h.beyond hlate
  refine ⟨hresult, hend, ?_, ?_, hawaits⟩
  · rw [hcalls, entriesBy_cons_of_le hnow, List.flatMap_cons, ← List.append_assoc,
      hstep.adds.1]
  · rw [hfinished, entriesBy_cons_of_le hnow, List.flatMap_cons, ← List.append_assoc,
      hstep.adds.2]

/-- The next pass would come too late. -/
theorem Cut.late (h : Told w'.resume o es) (hstep : Stepped respond graph root w t' w')
    (hnow : w.now ≤ moment) (hlate : moment < w'.resume.now)
    (hawaits : ∀ s ∈ w'.timers, w'.resume.now ≤ s.due) :
    Cut w moment o ⟨none, w'⟩ (entry w w'.resume :: es) := by
  have hends := h.le_ends
  have hrest : entriesBy moment es = [] :=
    entriesBy_eq_nil fun e he => Nat.lt_of_lt_of_le hlate (h.since e he)
  have hentries : entriesBy moment (entry w w'.resume :: es) = [entry w w'.resume] := by
    rw [entriesBy_cons_of_le hnow, hrest]
  refine ⟨fun hin => by omega,
    fun _ => ⟨rfl, by rw [hstep.now]; exact hnow, ?_, ?_, ?_⟩⟩
  · rw [hentries, List.flatMap_singleton, hstep.adds.1, (resume_same w').2.2]
  · rw [hentries, List.flatMap_singleton, hstep.adds.2, finished_resume]
  · intro s hs
    exact Nat.lt_of_lt_of_le hlate (hawaits s hs)

/-! ## The two runs -/

/-- When nobody has been woken, the next pass is made when the first reply comes in. -/
theorem resume_awaits (hnext : w.next = []) (hsome : w.advance? ≠ none) :
    ∀ s ∈ w.timers, w.resume.now ≤ s.due := by
  obtain ⟨w', hlater⟩ := Option.ne_none_iff_exists'.1 hsome
  have hresume : w.resume = w' := by
    rw [World.resume, if_neg (by simpa using hnext), hlater]
    rfl
  rw [hresume]
  rcases (Later.of_advance? hlater).clock with ⟨hnow, htimers⟩ | ⟨-, hleast, -⟩
  · intro s hs
    unfold World.advance? at hlater
    obtain ⟨due, hmin, rfl⟩ := Option.map_eq_some_iff.1 hlater
    exact (List.min?_eq_some_iff.1 hmin).2 _ (List.mem_map_of_mem hs)
  · exact hleast

/-- What a journal tells of a run, and of the same run with a deadline. -/
def Tells (respond : Respond) (root : Node) (moment : Nat) (t : Task) (w : World)
    (o : Outcome) :
    Prop :=
  ∃ passes, Told w o (journal respond root passes t w) ∧
    (w.now ≤ moment → Cut w moment o (proceed respond (some moment) root t w)
      (journal respond root passes t w))

/-- The run with the deadline makes the next pass, too, unless it would come too
late. -/
theorem Tells.pass (h : Tells respond root moment t' w'.resume o)
    (hstep : Stepped respond graph root w t' w')
    (hpoll : (actor respond root).poll [] t { w with next := [] } = (t', w'))
    (hdone : ∀ r, t' ≠ .done r) (hgoes : w'.next = [] → w'.advance? ≠ none) :
    Tells respond root moment t w o := by
  obtain ⟨passes, htold, hcut⟩ := h
  refine ⟨passes + 1, ?_, fun hnow => ?_⟩
  · rw [journal_succ (pass_of_not_done hpoll hdone)]
    exact htold.pass hstep
  · rw [journal_succ (pass_of_not_done hpoll hdone),
      proceed_of_resume hpoll hdone hgoes]
    by_cases hlate : w'.next = [] ∧ (some moment).any (· < w'.resume.now)
    · rw [if_pos hlate]
      exact .late htold hstep hnow (by simpa using hlate.2)
        (resume_awaits hlate.1 (hgoes hlate.1))
    · rw [if_neg hlate]
      have hintime : w'.resume.now ≤ moment := by
        by_cases hnext : w'.next = []
        · simpa [hnext] using hlate
        · rw [World.resume, if_pos hnext]
          exact hstep.now ▸ hnow
      exact (hcut hintime).pass hstep hnow

/-- **A run and its journal.**  A run without a deadline ends, a journal tells of all
its passes, and with a deadline it is cut as the journal says. -/
theorem Midway.told (hclosed : Closed graph) (hnumbered : Numbered graph)
    (hroot : graph root) (h : Midway respond graph root t w) (moment : Nat) :
    Tells respond root moment t w (proceed respond none root t w) := by
  fun_induction proceed respond none root t w with
  | case1 t w awake result w' hpoll =>
      have hstep := h.pass hclosed hroot hpoll
      refine ⟨1, ?_, fun hnow => ?_⟩
      · rw [journal_succ (pass_of_done hpoll), journal]
        exact .last hstep
      · rw [proceed_of_done hpoll]
        have hsame : w'.now = w.now := hstep.now
        exact ⟨fun _ => rfl, fun hlate => absurd hlate (by dsimp only; omega)⟩
  | case2 t w awake t' w' hdone hpoll hwoke ih =>
      have hstep := h.pass hclosed hroot hpoll
      have hresume : { w' with woken := w'.next } = w'.resume := by
        rw [World.resume, if_pos hwoke]
      rw [hresume] at ih ⊢
      exact (ih hstep.resume).pass hstep hpoll hdone fun hnext => absurd hnext hwoke
  | case3 t w awake t' w' hdone hpoll hwoke hnone =>
      have hstep := h.pass hclosed hroot hpoll
      exact absurd hnone
        (advance?_ne_none hclosed hnumbered hroot hstep.tidy hstep.sound
        hstep.quiet hdone (by simpa using hwoke))
  | case4 t w awake t' w' hdone hpoll hwoke w'' hsome hdeadline => cases hdeadline
  | case5 t w awake t' w' hdone hpoll hwoke w'' hsome hdeadline ih =>
      have hstep := h.pass hclosed hroot hpoll
      have hresume : w'' = w'.resume := by
        rw [World.resume, if_neg hwoke, hsome]
        rfl
      rw [hresume] at ih ⊢
      refine (ih hstep.resume).pass hstep hpoll hdone fun _ hnone => ?_
      rw [hsome] at hnone
      cases hnone

end SeriesQuery.Execution
