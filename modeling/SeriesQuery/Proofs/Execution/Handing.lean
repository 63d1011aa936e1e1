import SeriesQuery.Execution.Handover
import SeriesQuery.Proofs.Execution.Course

/-!
# Logs of what is handed over

A **log** lists all that joins have handed to their stages.  Its entries agree with the
results that are kept: a result that is handed over for an input is the one kept for the
number of that input, and what is kept stays.  So a stage that looks the results up by
number finds each where it was.  And the log leaves nothing out: whatever is kept, and
whatever a task has failed with, comes of the work of a stage over an entry.

The proofs follow the way a task runs.  They ask nothing of the order in which tasks are
let run and woken, so other executions may go on in the same world.

## Main results

* `Logged.inDeclaredOrder`: results that are handed over are found again in their order.
* `handing`: letting a task run keeps the log in order.
-/

namespace SeriesQuery.Execution

open SeriesQuery.Backend (Request Response)
open World

variable {respond : Respond} {memo : Memo} {w w' w'' : World} {n m k : Node}
  {p q : Path} {t u : Task} {ts ts' : List Task} {i : Nat} {rs : List SeriesResult}
  {r : SeriesResult} {hs hs' : List Handover} {h : Handover}

/-! ## Logs -/

/-- The graph of all stages. -/
def AnyStage (_ : Node) : Prop := True

private theorem closed_anyStage : Closed AnyStage := fun _ _ _ _ => trivial

namespace Handover

/-- What comes of the stage's work over the results that have been handed over. -/
def Gives (respond : Respond) (h : Handover)
    (result : Except StageFailure SeriesResult) : Prop :=
  Execution.Gives respond h.stage.work h.results result

/-- The results that have been handed over are kept for the inputs of the stage. -/
def Kept (h : Handover) (w : World) : Prop := w.Recalls h.stage.inputs h.results

end Handover

/-- A log agrees with the results that are kept, beside those that were there from the
start. -/
structure Logged (respond : Respond) (memo : Memo) (hs : List Handover)
    (w : World) : Prop where
  kept : ∀ h ∈ hs, h.Kept w
  complete :
    ∀ id r, w.recalled? id = some r → (World.start memo).recalled? id = some r ∨
    ∃ h ∈ hs, h.stage.id = id ∧ h.Gives respond (.ok r)

/-- What a task has come to, or waits for, follows from a log. -/
def Shown (respond : Respond) (hs : List Handover) (n : Node) : Task → Prop
  | .fresh => True
  | .queued => True
  | .joining _ => True
  | .calling _ _ => ∃ h ∈ hs, h.stage = n
  | .done (.ok _) => True
  | .done (.error e) => ∃ h ∈ hs, h.Gives respond (.error e)

/-- The same of a task and all tasks below it. -/
def Traced (respond : Respond) (hs : List Handover) (n : Node) (p : Path)
    (t : Task) : Prop :=
  ∀ k q v, Holds n p t k q v → Shown respond hs k v

/-- The same of the inputs of a join. -/
def TracedAll (respond : Respond) (hs : List Handover) (n : Node) (p : Path)
    (ts : List Task) :
    Prop :=
  ∀ i m u, n.inputs[i]? = some m → ts[i]? = some u → Traced respond hs m (i :: p) u

private theorem Shown.append (hshown : Shown respond hs n t) :
    Shown respond (hs ++ hs') n t := by
  cases t with
  | fresh => trivial
  | queued => trivial
  | joining ts => trivial
  | calling due outcome =>
      obtain ⟨h, hmem, hstage⟩ := hshown
      exact ⟨h, List.mem_append_left _ hmem, hstage⟩
  | done result =>
      cases result with
      | ok r => trivial
      | error e =>
          obtain ⟨h, hmem, hgives⟩ := hshown
          exact ⟨h, List.mem_append_left _ hmem, hgives⟩

theorem Traced.append (htraced : Traced respond hs n p t) :
    Traced respond (hs ++ hs') n p t :=
  fun k q v hv => (htraced k q v hv).append

theorem Traced.single (ht : ∀ ts, t ≠ .joining ts) (hshown : Shown respond hs n t) :
    Traced respond hs n p t := by
  intro k q v hv
  cases hv with
  | here => exact hshown
  | input i _ _ _ => exact absurd rfl (ht _)

private theorem traced_joining : Traced respond hs n p (.joining ts) ↔
    TracedAll respond hs n p ts := by
  constructor
  · exact fun htraced i m u hm hu k q v hv => htraced k q v (.input i hm hu hv)
  · intro htraced k q v hv
    cases hv with
    | here => trivial
    | input i hm hu hv => exact htraced i _ _ hm hu k q v hv

private theorem tracedAll_fresh :
    TracedAll respond hs n p (List.replicate n.inputs.length .fresh) := by
  intro i m u _ hu
  rw [List.eq_of_mem_replicate (List.mem_of_getElem? hu)]
  exact Traced.single (by simp) trivial

theorem Logged.of_memo (hlog : Logged respond memo hs w) (hmemo : w'.memo = w.memo) :
    Logged respond memo hs w' where
  kept := fun h hmem => (hlog.kept h hmem).mono fun id r hr => by
    rw [recalled?_of_memo hmemo]
    exact hr
  complete := by
    intro id r hr
    rw [recalled?_of_memo hmemo] at hr
    exact hlog.complete id r hr

/-- What is handed over next is kept as well. -/
theorem Logged.append (hlog : Logged respond memo hs w) (hkept : h.Kept w) :
    Logged respond memo (hs ++ [h]) w where
  kept := by
    intro h' hmem
    rcases List.mem_append.1 hmem with hmem | hmem
    · exact hlog.kept h' hmem
    · rw [List.mem_singleton.1 hmem]
      exact hkept
  complete := by
    intro id r hr
    rcases hlog.complete id r hr with hold | ⟨h', hmem, hid, hgives⟩
    · exact Or.inl hold
    · exact Or.inr ⟨h', List.mem_append_left _ hmem, hid, hgives⟩

/-- A stage that keeps a result has been handed the results of its inputs. -/
theorem Logged.settle (hlog : Logged respond memo hs w) (hw : w.Tidy)
    (howns : w.Owns h.stage.id p) (hmem : h ∈ hs) (hgives : h.Gives respond (.ok r)) :
    Logged respond memo hs (w.settle h.stage.id r) where
  kept := by
    intro h' hmem'
    -- The stage has its turn, so no result was kept for its number, and none is
    -- replaced.
    have hmove : Move respond AnyStage p w (w.settle h.stage.id r) :=
      .settle h.stage r trivial howns ⟨h.results, hlog.kept h hmem, hgives⟩
    exact (hlog.kept h' hmem').mono fun _ _ => hmove.recalled? hw
  complete := by
    intro id r' hr
    rw [recalled?_settle] at hr
    by_cases hid : h.stage.id = id
    · rw [if_pos hid, Option.some.injEq] at hr
      subst hr
      exact Or.inr ⟨h, hmem, hid, hgives⟩
    · rw [if_neg hid] at hr
      exact hlog.complete id r' hr

/-- Results that are handed over are found again by the numbers of the inputs. -/
theorem Logged.inDeclaredOrder (hlog : Logged respond memo hs w) (hmem : h ∈ hs) :
    Execution.inDeclaredOrder (h.stage.inputs.map Node.id) h.results = .ok h.results :=
  inDeclaredOrder_of_recalls (hlog.kept h hmem)

/-! ## The end of a stage -/

/-- What letting a task run guarantees, with the log after it. -/
structure Handed (respond : Respond) (memo : Memo) (hs : List Handover) (n : Node)
    (p : Path) (w : World) (t : Task) (w' : World) : Prop where
  moves : Moves respond AnyStage (fun q => p <:+ q) w w'
  sound : Sound respond AnyStage n p t w'
  traced : Traced respond hs n p t
  logged : Logged respond memo hs w'

private theorem Handed.after (hhanded : Handed respond memo hs n p w' t w'')
    (hm : Moves respond AnyStage (fun q => p <:+ q) w w') :
    Handed respond memo hs n p w t w'' :=
  ⟨hm.trans hhanded.moves, hhanded.sound, hhanded.traced, hhanded.logged⟩

/-- A stage that ends does so with what its work gives over what it has been handed, or
with the failure of another. -/
theorem conclude_handed (hw : w.Tidy) (howns : w.Owns n.id p) (hsole : Sole w n p)
    (hlog : Logged respond memo hs w) {result : Except StageFailure SeriesResult}
    (hok : ∀ r, result = .ok r → ∃ h ∈ hs, h.stage = n ∧ h.Gives respond (.ok r))
    (herror : ∀ e, result = .error e → ∃ h ∈ hs, h.Gives respond (.error e)) :
    Handed respond memo hs n p w (conclude n.id result w).1
      (conclude n.id result w).2 := by
  have hpassed : Passed respond AnyStage n p w (conclude n.id result w).1
      (conclude n.id result w).2 := by
    refine conclude_passed hw trivial howns hsole (fun r hr => ?_) fun e he => ?_
    · obtain ⟨h, hmem, rfl, hgives⟩ := hok r hr
      exact ⟨h.results, hlog.kept h hmem, hgives⟩
    · obtain ⟨h, hmem, hgives⟩ := herror e he
      exact ⟨h.stage, trivial, h.results, hlog.kept h hmem, hgives⟩
  refine ⟨hpassed.moves, hpassed.sound, ?_, ?_⟩
  · cases result with
    | ok r => exact Traced.single (by simp [conclude]) trivial
    | error e => exact Traced.single (by simp [conclude]) (herror e rfl)
  · cases result with
    | ok r =>
        obtain ⟨h, hmem, rfl, hgives⟩ := hok r rfl
        exact hlog.settle hw howns hmem hgives
    | error e => exact hlog.of_memo rfl

/-- A reply that comes in ends a stage that has been handed the results of its
inputs. -/
theorem replied_handed (hw : w.Tidy) (howns : w.Owns n.id p) (hsole : Sole w n p)
    (hlog : Logged respond memo hs w) {request : Request}
    (hwork : n.work = .ask request) {outcome : Except BackendFault Response}
    (hk : ∃ k, (respond k request).outcome = outcome) (hmem : ∃ h ∈ hs, h.stage = n) :
    Handed respond memo hs n p w (replied n.id request outcome w).1
      (replied n.id request outcome w).2 := by
  obtain ⟨h, hmem, rfl⟩ := hmem
  obtain ⟨k, hk⟩ := hk
  have hgives : ∀ result,
      (outcome.map SeriesResult.ofResponse).mapError .remote = result →
      h.Gives respond result := by
    intro result hresult
    rw [Handover.Gives, hwork]
    exact ⟨k, by rw [hk, hresult]⟩
  have hmove : Move respond AnyStage p w (w.receive request) := .receive request
  have hhanded : Handed respond memo hs h.stage p (w.receive request) _ _ :=
    conclude_handed (hmove.tidy hw) howns hsole (hlog.of_memo rfl)
      (fun r hr => ⟨h, hmem, rfl, hgives _ hr⟩) (fun e he => ⟨h, hmem, hgives _ he⟩)
  exact hhanded.after hmove.within

/-- A stage that has been handed the results of its inputs works on them as they are. -/
theorem act_handed (hw : w.Tidy) (howns : w.Owns n.id p) (hsole : Sole w n p)
    (hlog : Logged respond memo hs w) (hmem : ⟨n, rs⟩ ∈ hs) :
    Handed respond memo hs n p w
      (act respond n.id n.work (n.inputs.map Node.id) p rs w).1
      (act respond n.id n.work (n.inputs.map Node.id) p rs w).2 := by
  have hpassed : Passed respond AnyStage n p w _ _ :=
    act_passed hw trivial howns hsole (hlog.kept _ hmem)
  cases hwork : n.work with
  | ask request =>
      rw [hwork] at hpassed
      unfold act at hpassed ⊢
      dsimp only at hpassed ⊢
      split at hpassed
      · rename_i hdelay
        rw [if_pos hdelay]
        have hmove : Move respond AnyStage p w (w.call request) :=
          .call n request trivial hwork howns
        exact (replied_handed (hmove.tidy hw) howns hsole (hlog.of_memo rfl)
          hwork ⟨_, rfl⟩ ⟨_, hmem, rfl⟩).after hmove.within
      · rename_i hdelay
        rw [if_neg hdelay]
        exact ⟨hpassed.moves, hpassed.sound, Traced.single (by simp) ⟨_, hmem, rfl⟩,
          hlog.of_memo rfl⟩
  | combine c =>
      have hgives : ∀ result,
          (inDeclaredOrder (n.inputs.map Node.id) rs >>= combine c) = result →
          Handover.Gives respond ⟨n, rs⟩ result := by
        intro result hresult
        have horder := hlog.inDeclaredOrder hmem
        dsimp only at horder
        rw [horder] at hresult
        rw [Handover.Gives, hwork]
        exact hresult
      unfold act
      dsimp only
      exact conclude_handed hw howns hsole hlog
        (fun r hr => ⟨_, hmem, rfl, hgives _ hr⟩)
        (fun e he => ⟨_, hmem, hgives _ he⟩)

/-! ## The inputs of a join -/

/-- Letting the task of a stage run keeps it and the log in order, whoever has been
woken. -/
def Handing (respond : Respond) (n : Node) : Prop :=
  ∀ memo hs p t w, w.Tidy → Sound respond AnyStage n p t w → Traced respond hs n p t →
    Logged respond memo hs w →
    Handed respond memo (hs ++ handovers respond n p t w) n p w
      ((actor respond n).poll p t w).1
      ((actor respond n).poll p t w).2

/-- What holds of a join while its inputs run. -/
structure Joining (respond : Respond) (memo : Memo) (hs : List Handover) (n : Node)
    (p : Path) (ts : List Task) (w : World) : Prop where
  tidy : w.Tidy
  joined : Joined respond AnyStage n p ts w
  traced : TracedAll respond hs n p ts
  logged : Logged respond memo hs w

private theorem getElem?_handoversAll (respond : Respond) (ns : List Node) (i : Nat) :
    (handoversAll respond ns)[i]? = ns[i]?.map (handovers respond) := by
  induction ns generalizing i with
  | nil =>
      rw [handoversAll]
      simp
  | cons n ns ih =>
      rw [handoversAll]
      cases i with
      | zero => simp
      | succ i => simpa using ih i

/-- Letting one input of a join run. -/
theorem Joining.pollAt (hhand : ∀ m ∈ n.inputs, Handing respond m)
    (hjoin : Joining respond memo hs n p ts w)
    (hpoll : Execution.pollAt (actors respond n.inputs) p i ts w = (ts', w')) :
    Joining respond memo (hs ++ handoversAt (handoversAll respond n.inputs) p i ts w) n
      p ts' w' ∧ Moves respond AnyStage (Beneath p) w w' := by
  unfold Execution.pollAt at hpoll
  rw [getElem?_actors] at hpoll
  unfold handoversAt
  rw [getElem?_handoversAll]
  cases hm : n.inputs[i]? with
  | none =>
      rw [hm] at hpoll
      cases hpoll
      simp only [Option.map_none, List.append_nil]
      exact ⟨hjoin, .refl w⟩
  | some m =>
      cases hu : ts[i]? with
      | none =>
          rw [hm, hu] at hpoll
          cases hpoll
          simp only [Option.map_some, List.append_nil]
          exact ⟨hjoin, .refl w⟩
      | some u =>
          rw [hm, hu] at hpoll
          cases hpoll
          obtain ⟨hmoves, hsound, htraced, hlog⟩ :=
            hhand m (List.mem_of_getElem? hm) memo hs (i :: p) u w hjoin.tidy
              (hjoin.joined.input i m u hm hu)
              (hjoin.traced i m u hm hu) hjoin.logged
          refine ⟨⟨hmoves.tidy hjoin.tidy,
            hjoin.joined.set hjoin.tidy hm hu hmoves hsound, ?_, hlog⟩,
            hmoves.mono fun q => Beneath.of_cons⟩
          intro j m' u' hm' hu'
          by_cases hj : i = j
          · subst hj
            obtain ⟨hi, -⟩ := List.getElem?_eq_some_iff.1 hu
            rw [List.getElem?_set_self hi, Option.some.injEq] at hu'
            rw [hm, Option.some.injEq] at hm'
            subst hm' hu'
            exact htraced
          · rw [List.getElem?_set_ne hj] at hu'
            exact (hjoin.traced j m' u' hm' hu').append

/-- Looking at some inputs one after another. -/
theorem Joining.visit (hhand : ∀ m ∈ n.inputs, Handing respond m)
    {failure : Option StageFailure} (order : List Nat) :
    ∀ {hs : List Handover} {ts : List Task} {w : World},
      Joining respond memo hs n p ts w →
      (order = [] → joinFailure? (actors respond n.inputs) ts = none) →
      Execution.visit (actors respond n.inputs) p order ts w = (failure, ts', w') →
      Joining respond memo
          (hs ++ visitHandovers (handoversAll respond n.inputs)
            (actors respond n.inputs) p order ts w) n p ts' w' ∧
        Moves respond AnyStage (Beneath p) w w' ∧
        joinFailure? (actors respond n.inputs) ts' = failure := by
  induction order with
  | nil =>
      intro hs ts w hjoin hempty hvisit
      cases hvisit
      rw [visitHandovers, List.append_nil]
      exact ⟨hjoin, .refl _, hempty rfl⟩
  | cons i order ih =>
      intro hs ts w hjoin hempty hvisit
      rw [Execution.visit] at hvisit
      rw [visitHandovers]
      obtain ⟨⟨ts₁, w₁⟩, hpoll⟩ :
          ∃ x, Execution.pollAt (actors respond n.inputs) p i ts w = x := ⟨_, rfl⟩
      rw [hpoll] at hvisit ⊢
      obtain ⟨hjoin₁, hmoves⟩ := hjoin.pollAt hhand hpoll
      dsimp only at hvisit ⊢
      cases hfail : joinFailure? (actors respond n.inputs) ts₁ with
      | some e =>
          rw [hfail] at hvisit
          cases hvisit
          exact ⟨hjoin₁, hmoves, hfail⟩
      | none =>
          rw [hfail] at hvisit
          obtain ⟨hjoin', hmoves', hfail'⟩ := ih hjoin₁ (fun _ => hfail) hvisit
          rw [List.append_assoc] at hjoin'
          exact ⟨hjoin', hmoves.trans hmoves', hfail'⟩

/-! ## Joins -/

/-- Letting a join run: what it hands over comes last, and is kept. -/
theorem pollJoin_handed (hhand : ∀ m ∈ n.inputs, Handing respond m)
    (hjoin : Joining respond memo hs n p ts w) {order : List Nat}
    (hempty : order = [] → joinFailure? (actors respond n.inputs) ts = none) :
    Handed respond memo
      (hs ++ joinHandovers n (handoversAll respond n.inputs)
        (actors respond n.inputs) p order ts w) n p w
      (pollJoin respond n.id n.work (n.inputs.map Node.id) (actors respond n.inputs)
        p order ts w).1
      (pollJoin respond n.id n.work (n.inputs.map Node.id) (actors respond n.inputs) p
        order ts w).2 := by
  unfold pollJoin joinHandovers
  obtain ⟨⟨failure, ts', w'⟩, hvisit⟩ :
      ∃ x, visit (actors respond n.inputs) p order ts w = x := ⟨_, rfl⟩
  obtain ⟨hjoin', hmoves, hfailure⟩ := hjoin.visit hhand order hempty hvisit
  have hunder : ∀ q, Beneath p q → p <:+ q := fun q hq => hq.1
  rw [hvisit]
  cases failure with
  | some e =>
      -- Dropping the inputs keeps no result, and the failure of an input is in the log
      -- already.
      obtain ⟨hdrop, hsole⟩ :=
        dropFrom_sole (leavingAll respond AnyStage n.inputs) hjoin'.tidy hjoin'.joined
      have howns := hdrop.owns hjoin'.tidy not_beneath_self hjoin'.joined.owns
      obtain ⟨i, hi, hu⟩ := List.mem_iff_getElem.1 (joinFailure?_mem hfailure)
      have hm :=
        List.getElem?_eq_getElem (l := n.inputs)
          (by rw [← hjoin'.joined.length]; exact hi)
      have hshown :=
        hjoin'.traced i _ _ hm (List.getElem?_eq_getElem hi) _ _ _ (.here _ _ _)
      rw [hu] at hshown
      dsimp only
      rw [List.append_nil]
      refine (conclude_handed (hdrop.tidy hjoin'.tidy) howns hsole
        (hjoin'.logged.of_memo (idles_dropFrom respond n.inputs p 0 ts' w').1)
        (by simp) ?_).after ((hmoves.mono hunder).trans (hdrop.mono hunder))
      intro e' he'
      cases he'
      exact hshown
  | none =>
      dsimp only
      cases hresults : results? ts' with
      | some rs =>
          have hts := results?_eq_some hresults
          subst hts
          -- Every input is done, so its result is the one kept for its number.
          obtain ⟨hrs, hsole⟩ := hjoin'.joined.recalls
          have hkept : Handover.Kept ⟨n, rs⟩ w' := hrs
          rw [Option.map_some, Option.toList_some, ← List.append_assoc]
          exact (act_handed hjoin'.tidy hjoin'.joined.owns hsole
            (hjoin'.logged.append hkept) (by simp)).after (hmoves.mono hunder)
      | none =>
          rw [Option.map_none, Option.toList_none, List.append_nil]
          exact ⟨hmoves.mono hunder, hjoin'.joined.sound hresults hfailure,
            traced_joining.2 hjoin'.traced, hjoin'.logged⟩

/-- A task that has a join holds the turn at its stage. -/
theorem joining_of_joinOf? (hw : w.Tidy) (hsound : Sound respond AnyStage n p t w)
    (htraced : Traced respond hs n p t) (hlog : Logged respond memo hs w)
    {order : List Nat}
    (hjoin : joinOf? n.id (actors respond n.inputs) p t w = some (order, ts, w')) :
    Joining respond memo hs n p ts w' ∧ Moves respond AnyStage (fun q => p <:+ q) w w' ∧
      (order = [] → joinFailure? (actors respond n.inputs) ts = none) := by
  cases t with
  | fresh =>
      rw [joinOf?] at hjoin
      split at hjoin
      · cases hjoin
      · rename_i hfree
        cases hjoin
        simp only [Bool.or_eq_true, Option.isSome_iff_ne_none, not_or, not_not] at hfree
        obtain ⟨hr, hturn⟩ := hfree
        have hmove : Move respond AnyStage p w (w.take n.id p) :=
          .take n trivial hr hturn
        have howns : (w.take n.id p).Owns n.id p :=
          (owns_take hturn).2 (Or.inr ⟨rfl, rfl⟩)
        have habsent : Absent w p := hsound.absent (fun hlive => hlive)
        rw [length_actors]
        exact ⟨⟨hmove.tidy hw, .fresh howns (habsent.take hturn), tracedAll_fresh,
          hlog.of_memo rfl⟩, hmove.within, joinFailure?_fresh⟩
  | queued =>
      rw [joinOf?] at hjoin
      split at hjoin
      · cases hjoin
      · rename_i hfree
        cases hjoin
        simp only [Bool.or_eq_true, Bool.not_eq_true', not_or,
          Bool.not_eq_false] at hfree
        rw [length_actors]
        exact ⟨⟨hw, .fresh (owns_eq_true.1 hfree.2) (hsound.sole (by simp)),
          tracedAll_fresh, hlog⟩, .refl _, joinFailure?_fresh⟩
  | joining us =>
      cases hjoin
      obtain ⟨-, -, -, hfailure⟩ := hsound.okay n p _ (.here n p _)
      exact ⟨⟨hw, hsound.joined, traced_joining.1 htraced, hlog⟩, .refl _,
        fun _ => hfailure⟩
  | calling due outcome => cases hjoin
  | done result => cases hjoin

/-! ## Stages -/

/-- A task without a join finds the result kept, queues, or goes on waiting; a reply may
come in. -/
theorem pollStage_handed_of_none (hw : w.Tidy) (hsound : Sound respond AnyStage n p t w)
    (htraced : Traced respond hs n p t) (hlog : Logged respond memo hs w)
    (hjoin : joinOf? n.id (actors respond n.inputs) p t w = none) :
    Handed respond memo hs n p w
      (pollStage respond n.id n.work (n.inputs.map Node.id)
        (actors respond n.inputs) p t w).1
      (pollStage respond n.id n.work (n.inputs.map Node.id) (actors respond n.inputs)
        p t w).2 := by
  have hpass := passingAll respond closed_anyStage n.inputs fun _ _ => trivial
  have hleave := leavingAll respond AnyStage n.inputs
  cases t with
  | fresh =>
      have hpassed := fresh_passed hpass hleave trivial hw hsound
      rw [pollStage] at hpassed ⊢
      cases hr : w.recalled? n.id with
      | some r =>
          rw [hr] at hpassed
          exact ⟨hpassed.moves, hpassed.sound, Traced.single (by simp) trivial, hlog⟩
      | none =>
          cases hturn : w.turn? n.id with
          | none => simp [joinOf?, hr, hturn] at hjoin
          | some turn =>
              rw [hr, hturn] at hpassed
              exact ⟨hpassed.moves, hpassed.sound, Traced.single (by simp) trivial,
                hlog.of_memo rfl⟩
  | queued =>
      have hpassed := queued_passed hpass hleave trivial hw hsound
      rw [pollStage] at hpassed ⊢
      cases hr : w.recalled? n.id with
      | some r =>
          rw [hr] at hpassed
          exact ⟨hpassed.moves, hpassed.sound, Traced.single (by simp) trivial, hlog⟩
      | none =>
          cases howns : w.owns n.id p with
          | true => simp [joinOf?, hr, howns] at hjoin
          | false => exact ⟨.refl w, hsound, htraced, hlog⟩
  | joining us => cases hjoin
  | calling due outcome =>
      obtain ⟨howns, request, hwork, hk, -⟩ := hsound.okay n p _ (.here n p _)
      rw [hwork, pollStage]
      split
      · exact replied_handed hw howns (hsound.sole (by simp)) hlog hwork hk
          (htraced n p _ (.here n p _))
      · exact ⟨.refl w, hsound, htraced, hlog⟩
  | done result =>
      rw [pollStage]
      exact ⟨.refl w, hsound, htraced, hlog⟩

mutual

/-- **Handing.**  Letting a task run keeps it and the log in order. -/
theorem handing (respond : Respond) : (n : Node) → Handing respond n
  | .mk id name work inputs => by
      intro memo hs p t w hw hsound htraced hlog
      have hhand := handingAll respond inputs
      rw [actor, handovers]
      dsimp only
      cases hjoin : joinOf? id (actors respond inputs) p t w with
      | none =>
          rw [List.append_nil]
          exact pollStage_handed_of_none (n := .mk id name work inputs) hw hsound
            htraced hlog hjoin
      | some x =>
          obtain ⟨order, ts, w'⟩ := x
          rw [pollStage_of_joinOf? hjoin]
          obtain ⟨hjoining, hmoves, hempty⟩ :=
            joining_of_joinOf? (n := .mk id name work inputs) hw hsound
              htraced hlog hjoin
          exact (pollJoin_handed (n := .mk id name work inputs) hhand hjoining
            hempty).after hmoves

/-- The same of several stages. -/
theorem handingAll (respond : Respond) : (ns : List Node) → ∀ n ∈ ns, Handing respond n
  | [], _, h => by cases h
  | m :: ns, n, h => by
      rcases List.mem_cons.1 h with same | rest
      · exact same ▸ handing respond m
      · exact handingAll respond ns n rest

end

end SeriesQuery.Execution
