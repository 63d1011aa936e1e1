import SeriesQuery.Proofs.Execution.Join
import SeriesQuery.Proofs.Execution.Place

/-!
# Passes

Letting a task run until it waits makes moves at its place and below only, leaves the
task in order, and leaves nothing within it that could still go on: every task that is
not done is in a queue, waits for a reply, or joins such tasks.  Dropping a task leaves
nobody at its place or below.

The proofs follow the way a task runs: what ends a stage, one input, the inputs of a
join one after another, the stage itself, and then all stages of a graph by recursion on
them.

## Main results

* `leaving`: dropping a task leaves nobody behind.
* `passing`: letting a task run keeps it in order and leaves it quiet.
-/

namespace SeriesQuery.Execution

open SeriesQuery.Backend (Request Response)
open World

variable {respond : Respond} {graph : Node → Prop} {w w' w'' : World} {n m : Node}
  {p q : Path} {t u : Task} {ts : List Task} {i : Nat} {rs : List SeriesResult}

/-! ## The end of a stage -/

/-- What letting a task run guarantees. -/
structure Passed (respond : Respond) (graph : Node → Prop) (n : Node) (p : Path)
    (w : World) (t : Task) (w' : World) : Prop where
  moves : Moves respond graph (fun q => p <:+ q) w w'
  sound : Sound respond graph n p t w'
  quiet : Quiet n p t w'

private theorem Passed.after (h : Passed respond graph n p w' t w'')
    (hm : Moves respond graph (fun q => p <:+ q) w w') :
    Passed respond graph n p w t w'' :=
  ⟨hm.trans h.moves, h.sound, h.quiet⟩

/-- Nobody is left where the only task has passed its turn on. -/
theorem absent_release (hw : w.Tidy) (howns : w.Owns n.id p) (hsole : Sole w n p) :
    Absent (w.release n.id) p := by
  intro id q hq hr
  have hback : w.Owns id q ∨ w.Waits id q := by
    rw [owns_release hw, waits_release hw] at hr
    rcases hr with (⟨-, ho⟩ | ⟨rfl, s, hs, hhead⟩) | (⟨-, hwaits⟩ | ⟨rfl, s, hs, htail⟩)
    · exact Or.inl ho
    · exact Or.inr ⟨s, hs, List.mem_of_mem_head? hhead⟩
    · exact Or.inr hwaits
    · exact Or.inr ⟨s, hs, List.mem_of_mem_tail htail⟩
  obtain ⟨rfl, rfl⟩ := hsole id q hq hback
  rw [owns_release hw, waits_release hw] at hr
  rcases hr with (⟨hne, -⟩ | ⟨-, s, hs, hhead⟩) | (⟨hne, -⟩ | ⟨-, s, hs, htail⟩)
  · exact hne rfl
  · exact hw.not_waits howns ⟨s, hs, List.mem_of_mem_head? hhead⟩
  · exact hne rfl
  · exact hw.not_waits howns ⟨s, hs, List.mem_of_mem_tail htail⟩

/-- Nobody is left where the only task has kept its result. -/
theorem absent_settle {r : SeriesResult} (hsole : Sole w n p) :
    Absent (w.settle n.id r) p := by
  intro id q hq hr
  rw [owns_settle, waits_settle] at hr
  have hne : id ≠ n.id := by
    rcases hr with ⟨hne, -⟩ | ⟨hne, -⟩
    · exact hne
    · exact hne
  have hback : w.Owns id q ∨ w.Waits id q := by
    rcases hr with ⟨-, ho⟩ | ⟨-, hwaits⟩
    · exact Or.inl ho
    · exact Or.inr hwaits
  exact hne (hsole id q hq hback).2

/-- A stage that ends keeps what its work gives, or passes its turn on with a
failure. -/
theorem conclude_passed (hw : w.Tidy) (hn : graph n) (howns : w.Owns n.id p)
    (hsole : Sole w n p) {result : Except StageFailure SeriesResult}
    (hok : ∀ r, result = .ok r → w.Gives respond n (.ok r))
    (herror : ∀ e, result = .error e → ∃ m, graph m ∧ w.Gives respond m (.error e)) :
    Passed respond graph n p w (conclude n.id result w).1
      (conclude n.id result w).2 := by
  cases result with
  | ok r =>
      have hmove : Move respond graph p w (w.settle n.id r) :=
        .settle n r hn howns (hok r rfl)
      refine ⟨hmove.within, ?_, Quiet.single (by simp [conclude]) trivial⟩
      refine Sound.absented (absent_settle hsole) (by simp [conclude]) ?_
      show (w.settle n.id r).recalled? n.id = some r
      rw [recalled?_settle, if_pos rfl]
  | error e =>
      have hmove : Move respond graph p w (w.release n.id) := .release n.id howns
      refine ⟨hmove.within, ?_, Quiet.single (by simp [conclude]) trivial⟩
      refine Sound.absented (absent_release hw howns hsole) (by simp [conclude]) ?_
      obtain ⟨m, hm, hgives⟩ := herror e rfl
      exact ⟨m, hm, hgives⟩

/-- A reply that comes in is what the stage's work gives. -/
theorem replied_passed (hw : w.Tidy) (hn : graph n) (howns : w.Owns n.id p)
    (hsole : Sole w n p) {request : Request} (hwork : n.work = .ask request)
    (hrs : w.Recalls n.inputs rs) {outcome : Except BackendFault Response}
    (hk : ∃ k, (respond k request).outcome = outcome) :
    Passed respond graph n p w (replied n.id request outcome w).1
      (replied n.id request outcome w).2 := by
  have hgives : ∀ result,
      (outcome.map SeriesResult.ofResponse).mapError .remote = result →
      (w.receive request).Gives respond n result := by
    intro result hresult
    obtain ⟨k, hk⟩ := hk
    refine ⟨rs, hrs, ?_⟩
    rw [hwork]
    exact ⟨k, by rw [hk, hresult]⟩
  have hmove : Move respond graph p w (w.receive request) := .receive request
  have hpassed : Passed respond graph n p (w.receive request) _ _ :=
    conclude_passed (hmove.tidy hw) hn howns hsole (fun r hr => hgives _ hr)
      (fun e he => ⟨n, hn, hgives _ he⟩)
  exact hpassed.after hmove.within

/-- A stage that has the results of its inputs ends, or waits for a reply. -/
theorem act_passed (hw : w.Tidy) (hn : graph n) (howns : w.Owns n.id p)
    (hsole : Sole w n p) (hrs : w.Recalls n.inputs rs) :
    Passed respond graph n p w (act respond n.id n.work (n.inputs.map Node.id) p rs w).1
      (act respond n.id n.work (n.inputs.map Node.id) p rs w).2 := by
  cases hwork : n.work with
  | ask request =>
      have hmove : Move respond graph p w (w.call request) :=
        .call n request hn hwork howns
      unfold act
      dsimp only
      split
      · have hk : ∃ k,
            (respond k request).outcome = (respond w.calls.length request).outcome :=
          ⟨_, rfl⟩
        exact (replied_passed (hmove.tidy hw) hn howns hsole hwork hrs hk).after
          hmove.within
      · next hdelay =>
        have hawait : Move respond graph p (w.call request)
            ((w.call request).await
              (w.now + (respond w.calls.length request).delay) p) :=
          .await _ (Nat.lt_add_of_pos_right (Nat.pos_of_ne_zero hdelay))
        refine ⟨hmove.within.trans hawait.within, ?_, Quiet.single (by simp) ?_⟩
        · refine Sound.single hsole (by simp) trivial ?_
          exact ⟨howns, request, hwork, ⟨_, rfl⟩, rs, hrs⟩
        · show _ ∈ (w.call request).timers ++ _
          simp
  | combine c =>
      unfold act
      dsimp only
      have hgives : ∀ result,
          (inDeclaredOrder (n.inputs.map Node.id) rs >>= combine c) = result →
          w.Gives respond n result := by
        intro result hresult
        rw [inDeclaredOrder_of_recalls hrs] at hresult
        refine ⟨rs, hrs, ?_⟩
        rw [hwork]
        exact hresult
      exact conclude_passed hw hn howns hsole (fun r hr => hgives _ hr)
        (fun e he => ⟨n, hn, hgives _ he⟩)

/-! ## One input -/

/-- Letting the task of a stage run keeps it in order and leaves it quiet. -/
def Passing (respond : Respond) (graph : Node → Prop) (n : Node) : Prop :=
  ∀ p t w, w.Tidy → Sound respond graph n p t w → Expected n p t w →
    Passed respond graph n p w ((actor respond n).poll p t w).1
      ((actor respond n).poll p t w).2

/-- Dropping the task of a stage leaves nobody behind. -/
def Leaving (respond : Respond) (graph : Node → Prop) (n : Node) : Prop :=
  ∀ p t w, w.Tidy → Sound respond graph n p t w →
    Moves respond graph (fun q => p <:+ q) w ((actor respond n).drop p t w) ∧
      Absent ((actor respond n).drop p t w) p

variable {ts' : List Task} {order : List Nat}

theorem pollAt_joined (hpass : ∀ m ∈ n.inputs, Passing respond graph m) (hw : w.Tidy)
    (h : Joined respond graph n p ts w)
    (hexpected : ∀ m u, n.inputs[i]? = some m → ts[i]? = some u →
      Expected m (i :: p) u w)
    (hpoll : pollAt (actors respond n.inputs) p i ts w = (ts', w')) :
    Moves respond graph (fun q => (i :: p) <:+ q) w w' ∧
      Joined respond graph n p ts' w' ∧
      (∀ m u, n.inputs[i]? = some m → ts'[i]? = some u → Quiet m (i :: p) u w') ∧
      ∀ j, j ≠ i → ts'[j]? = ts[j]? := by
  unfold pollAt at hpoll
  rw [getElem?_actors] at hpoll
  cases hm : n.inputs[i]? with
  | none =>
      rw [hm] at hpoll
      cases hpoll
      exact ⟨.refl w, h, by simp, fun _ _ => rfl⟩
  | some m =>
      cases hu : ts[i]? with
      | none =>
          rw [hm, hu] at hpoll
          cases hpoll
          refine ⟨.refl w, h, ?_, fun _ _ => rfl⟩
          intro m' u _ hu'
          rw [hu] at hu'
          cases hu'
      | some u =>
          rw [hm, hu] at hpoll
          cases hpoll
          have hpassed :=
            hpass m (List.mem_of_getElem? hm) (i :: p) u w hw (h.input i m u hm hu)
            (hexpected m u hm hu)
          refine ⟨hpassed.moves, h.set hw hm hu hpassed.moves hpassed.sound, ?_, ?_⟩
          · intro m' u' hm' hu'
            obtain ⟨hi, -⟩ := List.getElem?_eq_some_iff.1 hu
            rw [List.getElem?_set_self hi, Option.some.injEq] at hu'
            rw [Option.some.injEq] at hm'
            subst hm' hu'
            exact hpassed.quiet
          · intro j hj
            exact List.getElem?_set_ne (Ne.symm hj)

/-! ## The inputs of a join -/

/-- Every input goes on waiting without help, or it can go on and is among those to be
looked at. -/
def Covered (n : Node) (p : Path) (order : List Nat) (ts : List Task)
    (w : World) : Prop :=
  ∀ i m u, n.inputs[i]? = some m → ts[i]? = some u →
    (i ∈ order ∧ Expected m (i :: p) u w) ∨ Quiet m (i :: p) u w

theorem Covered.expected (h : Covered n p order ts w) {m : Node} {u : Task}
    (hm : n.inputs[i]? = some m) (hu : ts[i]? = some u) : Expected m (i :: p) u w := by
  rcases h i m u hm hu with ⟨-, hexpected⟩ | hquiet
  · exact hexpected
  · exact hquiet.expected

/-- Once an input has been let run and is quiet, the others are left to be looked at. -/
theorem Covered.next (h : Covered n p (i :: order) ts w) (hw : w.Tidy)
    (hmoves : Moves respond graph (fun q => (i :: p) <:+ q) w w')
    (hquiet : ∀ m u, n.inputs[i]? = some m → ts'[i]? = some u → Quiet m (i :: p) u w')
    (hothers : ∀ j, j ≠ i → ts'[j]? = ts[j]?) : Covered n p order ts' w' := by
  intro j m u hm hu
  by_cases hj : j = i
  · subst hj
    exact Or.inr (hquiet m u hm hu)
  · rw [hothers j hj] at hu
    have hapart : ∀ q, (j :: p) <:+ q → ¬ (i :: p) <:+ q :=
      fun q hq hi => hj (eq_of_cons_suffix hq hi)
    rcases h j m u hm hu with ⟨hmem, hexpected⟩ | hold
    · rcases List.mem_cons.1 hmem with heq | hmem
      · exact absurd heq hj
      · exact Or.inl ⟨hmem, hexpected.frame hmoves hw hapart⟩
    · exact Or.inr (hold.frame hmoves hw hapart)

/-- Looking at some inputs one after another: those it looks at need to be expected to
go on, the others to be quiet, and in the end all are quiet unless one has failed. -/
theorem visit_joined (hpass : ∀ m ∈ n.inputs, Passing respond graph m)
    {failure : Option StageFailure} (order : List Nat) :
    ∀ {ts : List Task} {w : World}, w.Tidy → Joined respond graph n p ts w →
      (order = [] → joinFailure? (actors respond n.inputs) ts = none) →
      Covered n p order ts w →
      visit (actors respond n.inputs) p order ts w = (failure, ts', w') →
      Moves respond graph (Beneath p) w w' ∧ Joined respond graph n p ts' w' ∧
        joinFailure? (actors respond n.inputs) ts' = failure ∧
        (failure = none →
          ∀ i m u, n.inputs[i]? = some m → ts'[i]? = some u →
            Quiet m (i :: p) u w') := by
  induction order with
  | nil =>
      intro ts w hw h hempty hcovered hvisit
      cases hvisit
      refine ⟨.refl _, h, hempty rfl, ?_⟩
      intro _ i m u hm hu
      rcases hcovered i m u hm hu with ⟨hmem, -⟩ | hquiet
      · cases hmem
      · exact hquiet
  | cons i order ih =>
      intro ts w hw h hempty hcovered hvisit
      rw [visit] at hvisit
      obtain ⟨⟨ts₁, w₁⟩, hpoll⟩ : ∃ r, pollAt (actors respond n.inputs) p i ts w = r :=
        ⟨_, rfl⟩
      rw [hpoll] at hvisit
      obtain ⟨hmoves, hjoined, hquiet, hothers⟩ :=
        pollAt_joined hpass hw h (fun m u => hcovered.expected) hpoll
      have hbeneath : Moves respond graph (Beneath p) w w₁ :=
        hmoves.mono fun q => Beneath.of_cons
      dsimp only at hvisit
      cases hfail : joinFailure? (actors respond n.inputs) ts₁ with
      | some e =>
          rw [hfail] at hvisit
          cases hvisit
          exact ⟨hbeneath, hjoined, hfail, by simp⟩
      | none =>
          rw [hfail] at hvisit
          obtain ⟨hmoves', hjoined', hfail', hquiet'⟩ :=
            ih (hmoves.tidy hw) hjoined (fun _ => hfail)
              (hcovered.next hw hmoves hquiet hothers) hvisit
          exact ⟨hbeneath.trans hmoves', hjoined', hfail', hquiet'⟩

/-- Nobody appears at a place while others move. -/
theorem Absent.frame {places : Path → Prop} (h : Absent w p)
    (hm : Moves respond graph places w w') (hw : w.Tidy)
    (hapart : ∀ q, p <:+ q → ¬ places q) : Absent w' p :=
  fun id q hq hr => h id q hq (hm.role hw (hapart q hq) hr)

/-- Dropping inputs one after another leaves nobody at any of them. -/
theorem dropFrom_absent (ns : List Node) :
    ∀ {i : Nat} {ts : List Task} {w : World},
      (∀ m ∈ ns, Leaving respond graph m) → w.Tidy → ts.length = ns.length →
      (∀ j m u, ns[j]? = some m → ts[j]? = some u →
        Sound respond graph m ((i + j) :: p) u w) →
      Moves respond graph (fun q => ∃ j, i ≤ j ∧ j < i + ns.length ∧ (j :: p) <:+ q) w
          (dropFrom p i (actors respond ns) ts w) ∧
        ∀ j, i ≤ j → j < i + ns.length →
          Absent (dropFrom p i (actors respond ns) ts w) (j :: p) := by
  induction ns with
  | nil =>
      intro i ts w _ _ _ _
      rw [actors, dropFrom]
      · refine ⟨.refl w, ?_⟩
        intro j hij hj
        rw [List.length_nil] at hj
        omega
      · simp
  | cons m ns ih =>
      intro i ts w hleave hw hlen hsound
      cases ts with
      | nil => cases hlen
      | cons u ts =>
          rw [actors, dropFrom]
          obtain ⟨hmoves, habsent⟩ :=
            hleave m List.mem_cons_self (i :: p) u w hw (hsound 0 m u rfl rfl)
          have hrest : ∀ j m' u', ns[j]? = some m' → ts[j]? = some u' →
              Sound respond graph m' ((i + 1 + j) :: p) u'
                ((actor respond m).drop (i :: p) u w) := by
            intro j m' u' hm' hu'
            have hold := hsound (j + 1) m' u' (by simpa using hm') (by simpa using hu')
            rw [show i + (j + 1) = i + 1 + j by omega] at hold
            refine hold.frame hmoves hw ?_
            intro q hq hi
            have heq := eq_of_cons_suffix hq hi
            omega
          obtain ⟨hmoves', habsent'⟩ :=
            ih (fun m' hm' => hleave m' (List.mem_cons_of_mem _ hm'))
            (hmoves.tidy hw) (by simpa using hlen) hrest
          constructor
          · refine (hmoves.mono ?_).trans (hmoves'.mono ?_)
            · intro q hq
              exact ⟨i, by omega, by simp, hq⟩
            · rintro q ⟨j, hij, hj, hq⟩
              refine ⟨j, by omega, ?_, hq⟩
              rw [List.length_cons]
              omega
          · intro j hij hj
            by_cases hji : j = i
            · subst hji
              refine habsent.frame hmoves' (hmoves.tidy hw) ?_
              rintro q hq ⟨j', hj', -, hq'⟩
              have heq := eq_of_cons_suffix hq hq'
              omega
            · rw [List.length_cons] at hj
              exact habsent' j (by omega) (by omega)

/-- Once the inputs of a join have been dropped, the task that makes it is alone. -/
theorem dropFrom_sole (hleave : ∀ m ∈ n.inputs, Leaving respond graph m) (hw : w.Tidy)
    (h : Joined respond graph n p ts w) :
    Moves respond graph (Beneath p) w (dropFrom p 0 (actors respond n.inputs) ts w) ∧
      Sole (dropFrom p 0 (actors respond n.inputs) ts w) n p := by
  obtain ⟨hmoves, habsent⟩ := dropFrom_absent (i := 0) n.inputs hleave hw h.length (by
    intro j m u hm hu
    rw [Nat.zero_add]
    exact h.input j m u hm hu)
  constructor
  · refine hmoves.mono ?_
    rintro q ⟨j, -, -, hq⟩
    exact .of_cons hq
  · intro id q hq hr
    by_cases hbelow : ∃ j, 0 ≤ j ∧ j < 0 + n.inputs.length ∧ (j :: p) <:+ q
    · obtain ⟨j, hj, hlt, hqj⟩ := hbelow
      exact absurd hr (habsent j hj hlt id q hqj)
    · rcases h.role id q hq (hmoves.role hw hbelow hr) with hself | ⟨j, hj, hqj⟩
      · exact hself
      · exact absurd ⟨j, Nat.zero_le j, by omega, hqj⟩ hbelow

/-! ## Joins -/

/-- When all inputs are done with success their results are kept, and nobody stands
below them. -/
theorem Joined.recalls
    (h : Joined respond graph n p (rs.map fun r => .done (.ok r)) w) :
    w.Recalls n.inputs rs ∧ Sole w n p := by
  have hlen : rs.length = n.inputs.length := by
    rw [← h.length, List.length_map]
  have hinput : ∀ i (hi : i < n.inputs.length) (hi' : i < rs.length),
      Sound respond graph n.inputs[i] (i :: p) (.done (.ok rs[i])) w := by
    intro i hi hi'
    refine h.input i _ _ (List.getElem?_eq_getElem hi) ?_
    rw [List.getElem?_map, List.getElem?_eq_getElem hi', Option.map_some]
  constructor
  · refine List.forall₂_iff_get.2 ⟨hlen.symm, ?_⟩
    intro i hi hi'
    exact (hinput i hi hi').okay _ _ _ (.here _ _ _)
  · refine h.sole ?_
    intro i hi
    exact (hinput i hi (by omega)).absent (fun hlive => hlive)

/-- Letting a join run drops it after a failure, goes on with its results, or waits. -/
theorem pollJoin_passed (hpass : ∀ m ∈ n.inputs, Passing respond graph m)
    (hleave : ∀ m ∈ n.inputs, Leaving respond graph m) (hn : graph n) (hw : w.Tidy)
    (h : Joined respond graph n p ts w)
    (hempty : order = [] → joinFailure? (actors respond n.inputs) ts = none)
    (hcovered : Covered n p order ts w) :
    Passed respond graph n p w
      (pollJoin respond n.id n.work (n.inputs.map Node.id) (actors respond n.inputs)
        p order ts w).1
      (pollJoin respond n.id n.work (n.inputs.map Node.id) (actors respond n.inputs) p
        order ts w).2 := by
  unfold pollJoin
  obtain ⟨⟨failure, ts', w'⟩, hvisit⟩ :
      ∃ r, visit (actors respond n.inputs) p order ts w = r := ⟨_, rfl⟩
  obtain ⟨hmoves, hjoined, hfailure, hquiet⟩ :=
    visit_joined hpass order hw h hempty hcovered hvisit
  have hunder : ∀ q, Beneath p q → p <:+ q := fun q hq => hq.1
  have hw' := hmoves.tidy hw
  rw [hvisit]
  cases failure with
  | some e =>
      obtain ⟨hdrop, hsole⟩ := dropFrom_sole hleave hw' hjoined
      have howns := hdrop.owns hw' not_beneath_self hjoined.owns
      obtain ⟨i, hi, hu⟩ := List.mem_iff_getElem.1 (joinFailure?_mem hfailure)
      have hm :=
        List.getElem?_eq_getElem (l := n.inputs) (by rw [← hjoined.length]; exact hi)
      have hokay :=
        (hjoined.input i _ _ hm (List.getElem?_eq_getElem hi)).okay _ _ _ (.here _ _ _)
      rw [hu] at hokay
      obtain ⟨k, hk, hgives⟩ := hokay
      refine (conclude_passed (hdrop.tidy hw') hn howns hsole (by simp) ?_).after
        ((hmoves.mono hunder).trans (hdrop.mono hunder))
      intro e' he'
      cases he'
      exact ⟨k, hk, hdrop.gives hw' hgives⟩
  | none =>
      dsimp only
      cases hresults : results? ts' with
      | some rs =>
          have hts := results?_eq_some hresults
          subst hts
          obtain ⟨hrs, hsole⟩ := hjoined.recalls
          exact (act_passed hw' hn hjoined.owns hsole hrs).after (hmoves.mono hunder)
      | none =>
          refine ⟨hmoves.mono hunder, hjoined.sound hresults hfailure, ?_⟩
          intro k q v hv
          cases hv with
          | here => trivial
          | input i hm hu hv => exact hquiet rfl i _ _ hm hu k q v hv

/-- All inputs of a join that begins are looked at. -/
theorem covered_fresh :
    Covered n p (List.range n.inputs.length)
      (List.replicate n.inputs.length .fresh) w := by
  intro i m u hm hu
  obtain ⟨hi, -⟩ := List.getElem?_eq_some_iff.1 hm
  have hfresh : u = .fresh := List.eq_of_mem_replicate (List.mem_of_getElem? hu)
  exact Or.inl ⟨List.mem_range.2 hi, Or.inl hfresh⟩

/-- A join without inputs has not failed. -/
theorem joinFailure?_fresh {as : List Actor} {size : Nat} (h : List.range size = []) :
    joinFailure? as (List.replicate size .fresh) = none := by
  rw [List.range_eq_nil] at h
  rw [h, List.replicate_zero, joinFailure?]
  split
  · rfl
  · rfl

/-- Starting a stage. -/
theorem begin_passed (hpass : ∀ m ∈ n.inputs, Passing respond graph m)
    (hleave : ∀ m ∈ n.inputs, Leaving respond graph m) (hn : graph n) (hw : w.Tidy)
    (howns : w.Owns n.id p) (hsole : Sole w n p) :
    Passed respond graph n p w
      (begin respond n.id n.work (n.inputs.map Node.id) (actors respond n.inputs) p w).1
      (begin respond n.id n.work (n.inputs.map Node.id)
        (actors respond n.inputs) p w).2 := by
  unfold begin
  rw [length_actors]
  exact pollJoin_passed hpass hleave hn hw (.fresh howns hsole)
    joinFailure?_fresh covered_fresh

/-! ## Stages -/

/-- A place below an input is one through which the task is woken. -/
theorem inputToward?_of_suffix (h : (i :: p) <:+ q) : inputToward? p q = some i := by
  obtain ⟨above, rfl⟩ := h
  have hlen : (above ++ i :: p).length = above.length + 1 + p.length := by
    simp
    omega
  unfold inputToward?
  dsimp only
  rw [hlen, show above.length + 1 + p.length - p.length = above.length + 1 by omega]
  have hdrop : (above ++ i :: p).drop (above.length + 1) = p := by
    rw [List.drop_append]
    simp
  have hget : (above ++ i :: p)[above.length + 1 - 1]? = some i := by simp
  rw [hdrop, hget, if_pos]
  simp

/-- The pass looks at every input that does not go on waiting without help. -/
theorem Expected.covered (h : Expected n p (.joining ts) w) :
    Covered n p (visitOrder (actors respond n.inputs) p w) ts w := by
  intro i m u hm hu
  have hall : ∀ k q v, Holds m (i :: p) u k q v → Rests w k q v ∨ Roused w q v := by
    rcases h with hfresh | hall
    · cases hfresh
    · exact fun k q v hv => hall k q v (.input i hm hu hv)
  by_cases hmem : i ∈ visitOrder (actors respond n.inputs) p w
  · exact Or.inl ⟨hmem, Or.inr hall⟩
  · right
    intro k q v hv
    rcases hall k q v hv with hrests | hroused
    · exact hrests
    · exfalso
      apply hmem
      have hwoken : q ∈ w.woken := by
        cases v with
        | fresh => cases hroused
        | queued => exact hroused
        | joining us => cases hroused
        | calling due outcome => exact hroused.1
        | done result => cases hroused
      unfold visitOrder
      split
      · obtain ⟨hi, -⟩ := List.getElem?_eq_some_iff.1 hm
        rw [length_actors]
        exact List.mem_range.2 hi
      · rw [List.mem_eraseDups, List.mem_filterMap]
        exact ⟨q, hwoken, inputToward?_of_suffix hv.suffix⟩

/-- A task that takes a turn where nobody stood is alone there. -/
theorem Absent.take (h : Absent w p) (hnone : w.turn? n.id = none) :
    Sole (w.take n.id p) n p := by
  intro id q hq hr
  rw [owns_take hnone, waits_take hnone] at hr
  rcases hr with (ho | ⟨hid, hqp⟩) | hold
  · exact absurd (Or.inl ho) (h id q hq)
  · exact ⟨hqp, hid⟩
  · exact absurd (Or.inr hold) (h id q hq)

/-- A task that has not begun finds the result kept, queues, or takes the turn. -/
theorem fresh_passed (hpass : ∀ m ∈ n.inputs, Passing respond graph m)
    (hleave : ∀ m ∈ n.inputs, Leaving respond graph m) (hn : graph n) (hw : w.Tidy)
    (h : Sound respond graph n p .fresh w) :
    Passed respond graph n p w
      (pollStage respond n.id n.work (n.inputs.map Node.id)
        (actors respond n.inputs) p .fresh w).1
      (pollStage respond n.id n.work (n.inputs.map Node.id) (actors respond n.inputs) p
        .fresh w).2 := by
  have habsent : Absent w p := h.absent (fun hlive => hlive)
  rw [pollStage]
  cases hr : w.recalled? n.id with
  | some r =>
      exact ⟨.refl w, .absented habsent (by simp) hr, Quiet.single (by simp) trivial⟩
  | none =>
      dsimp only
      by_cases hturn : (w.turn? n.id).isSome = true
      · rw [if_pos hturn]
        have hmove : Move respond graph p w (w.queue n.id p) := .queue n hn
          (fun ho => habsent _ p (List.suffix_refl p) (Or.inl ho))
          (fun hq => habsent _ p (List.suffix_refl p) (Or.inr hq))
        have hwaits : (w.queue n.id p).Waits n.id p :=
          waits_queue.2 (Or.inr ⟨rfl, rfl, hturn⟩)
        have hsole : Sole (w.queue n.id p) n p := by
          intro id q hq hr
          rw [owns_queue, waits_queue] at hr
          rcases hr with ho | (hold | ⟨hid, hqp, -⟩)
          · exact absurd (Or.inl ho) (habsent id q hq)
          · exact absurd (Or.inr hold) (habsent id q hq)
          · exact ⟨hqp, hid⟩
        exact ⟨hmove.within,
          .single hsole (by simp) trivial (Or.inl hwaits),
          Quiet.single (by simp) (Or.inl hwaits)⟩
      · rw [if_neg hturn]
        have hnone : w.turn? n.id = none := by simpa using hturn
        have hmove : Move respond graph p w (w.take n.id p) := .take n hn hr hnone
        have howns : (w.take n.id p).Owns n.id p :=
          (owns_take hnone).2 (Or.inr ⟨rfl, rfl⟩)
        exact (begin_passed hpass hleave hn (hmove.tidy hw) howns
          (habsent.take hnone)).after hmove.within

/-- A task that queues finds the result kept, has the turn now, or goes on queueing. -/
theorem queued_passed (hpass : ∀ m ∈ n.inputs, Passing respond graph m)
    (hleave : ∀ m ∈ n.inputs, Leaving respond graph m) (hn : graph n) (hw : w.Tidy)
    (h : Sound respond graph n p .queued w) :
    Passed respond graph n p w
      (pollStage respond n.id n.work (n.inputs.map Node.id) (actors respond n.inputs)
        p .queued w).1
      (pollStage respond n.id n.work (n.inputs.map Node.id) (actors respond n.inputs) p
        .queued w).2 := by
  have hsole : Sole w n p := h.sole (by simp)
  have hokay : w.Waits n.id p ∨ w.Owns n.id p ∨ (w.recalled? n.id).isSome = true :=
    h.okay _ _ _ (.here n p _)
  rw [pollStage]
  cases hr : w.recalled? n.id with
  | some r =>
      have habsent : Absent w p := by
        intro id q hq hrole
        obtain ⟨rfl, rfl⟩ := hsole id q hq hrole
        have hnone := hw.unkept n.id r hr
        rcases hrole with ho | hwaits
        · exact ho.turn?_ne_none hnone
        · exact hwaits.turn?_ne_none hnone
      exact ⟨.refl w, .absented habsent (by simp) hr, Quiet.single (by simp) trivial⟩
  | none =>
      dsimp only
      by_cases howns : w.owns n.id p = true
      · rw [if_pos howns]
        exact begin_passed hpass hleave hn hw (owns_eq_true.1 howns) hsole
      · rw [if_neg howns]
        refine ⟨.refl w, h, Quiet.single (by simp) ?_⟩
        rcases hokay with hwaits | ho | hkept
        · exact Or.inl hwaits
        · exact absurd (owns_eq_true.2 ho) howns
        · rw [hr] at hkept
          cases hkept

private theorem pollStage_passed (hpass : ∀ m ∈ n.inputs, Passing respond graph m)
    (hleave : ∀ m ∈ n.inputs, Leaving respond graph m) (hn : graph n) (hw : w.Tidy)
    (h : Sound respond graph n p t w) (hexpected : Expected n p t w) :
    Passed respond graph n p w
      (pollStage respond n.id n.work (n.inputs.map Node.id)
        (actors respond n.inputs) p t w).1
      (pollStage respond n.id n.work (n.inputs.map Node.id) (actors respond n.inputs)
        p t w).2 := by
  cases t with
  | fresh => exact fresh_passed hpass hleave hn hw h
  | queued => exact queued_passed hpass hleave hn hw h
  | joining ts =>
      rw [pollStage]
      obtain ⟨-, -, -, hfailure⟩ := h.okay n p _ (.here n p _)
      exact pollJoin_passed hpass hleave hn hw h.joined (fun _ => hfailure)
        hexpected.covered
  | calling due outcome =>
      obtain ⟨howns, request, hwork, hk, rs, hrs⟩ := h.okay n p _ (.here n p _)
      rw [hwork, pollStage]
      by_cases hdue : due ≤ w.now
      · rw [if_pos hdue]
        exact replied_passed hw hn howns (h.sole (by simp)) hwork hrs hk
      · rw [if_neg hdue]
        refine ⟨.refl w, h, Quiet.single (by simp) ?_⟩
        rcases hexpected with hfresh | hall
        · cases hfresh
        · rcases hall n p _ (.here n p _) with hrests | hroused
          · exact hrests
          · exact absurd hroused.2 hdue
  | done result =>
      rw [pollStage]
      exact ⟨.refl w, h, Quiet.single (by simp) trivial⟩

/-- A task that is dropped leaves its turn or its place in the queue, after all tasks
below it. -/
theorem dropStage_absent
    (hleave : ∀ m ∈ n.inputs, Leaving respond graph m) (hw : w.Tidy)
    (h : Sound respond graph n p t w) :
    Moves respond graph (fun q => p <:+ q) w
        (dropStage n.id (actors respond n.inputs) p t w) ∧
      Absent (dropStage n.id (actors respond n.inputs) p t w) p := by
  cases t with
  | fresh => exact ⟨.refl w, h.absent (fun hlive => hlive)⟩
  | queued =>
      have hmove : Move respond graph p w (w.leave n.id p) := .leave n.id
      refine ⟨hmove.within, ?_⟩
      have hsole : Sole w n p := h.sole (by simp)
      rw [dropStage]
      by_cases howns : w.Owns n.id p
      · rw [leave_of_owns howns]
        exact absent_release hw howns hsole
      · intro id q hq hr
        rw [owns_leave_of_not_owns howns, waits_leave_of_not_owns howns] at hr
        rcases hr with ho | ⟨hwaits, hne⟩
        · obtain ⟨rfl, rfl⟩ := hsole id q hq (Or.inl ho)
          exact howns ho
        · obtain ⟨rfl, rfl⟩ := hsole id q hq (Or.inr hwaits)
          exact hne rfl rfl
  | joining ts =>
      obtain ⟨hmoves, hsole⟩ := dropFrom_sole hleave hw h.joined
      have howns := hmoves.owns hw not_beneath_self h.joined.owns
      have hmove : Move respond graph p (dropFrom p 0 (actors respond n.inputs) ts w)
          ((dropFrom p 0 (actors respond n.inputs) ts w).release n.id) :=
        .release n.id howns
      exact ⟨(hmoves.mono fun q hq => hq.1).trans hmove.within,
        absent_release (hmoves.tidy hw) howns hsole⟩
  | calling due outcome =>
      have howns := (h.okay n p _ (.here n p _)).1
      have hforget : Move respond graph p w (w.forget p) := .forget
      have hrelease : Move respond graph p (w.forget p) ((w.forget p).release n.id) :=
        .release n.id howns
      exact ⟨hforget.within.trans hrelease.within,
        absent_release (hforget.tidy hw) howns (h.sole (by simp))⟩
  | done result => exact ⟨.refl w, h.absent (fun hlive => hlive)⟩

/-! ## All stages of a graph -/

mutual

/-- **Leaving.**  Dropping a task leaves nobody behind. -/
theorem leaving (respond : Respond) (graph : Node → Prop) : (n : Node) →
    Leaving respond graph n
  | .mk id name work inputs => by
      intro p t w hw h
      rw [actor]
      exact dropStage_absent (n := .mk id name work inputs)
        (leavingAll respond graph inputs) hw h

/-- The same of several stages. -/
theorem leavingAll (respond : Respond) (graph : Node → Prop) :
    (ns : List Node) → ∀ n ∈ ns, Leaving respond graph n
  | [], _, h => by cases h
  | m :: ns, n, h => by
      rcases List.mem_cons.1 h with same | rest
      · exact same ▸ leaving respond graph m
      · exact leavingAll respond graph ns n rest

end

mutual

/-- **Passing.**  Letting a task run keeps it in order and leaves it quiet. -/
theorem passing (respond : Respond) {graph : Node → Prop} (hclosed : Closed graph) :
    (n : Node) → graph n → Passing respond graph n
  | .mk id name work inputs => by
      intro hn p t w hw h hexpected
      rw [actor]
      exact pollStage_passed
        (passingAll respond hclosed inputs fun m hm => hclosed _ hn m hm)
        (leavingAll respond graph inputs) hn hw h hexpected

/-- The same of several stages. -/
theorem passingAll (respond : Respond) {graph : Node → Prop} (hclosed : Closed graph) :
    (ns : List Node) → (∀ n ∈ ns, graph n) → ∀ n ∈ ns, Passing respond graph n
  | [], _, _, h => by cases h
  | m :: ns, hns, n, h => by
      rcases List.mem_cons.1 h with same | rest
      · exact same ▸ passing respond hclosed m (hns m List.mem_cons_self)
      · exact passingAll respond hclosed ns
          (fun k hk => hns k (List.mem_cons_of_mem _ hk)) n rest

end

end SeriesQuery.Execution
