import SeriesQuery.Proofs.Execution.Handing
import SeriesQuery.Proofs.Execution.History

/-!
# Delivery

What a join hands over reaches the work of its stage as it is.  The stage looks the
results up by the numbers of its inputs, in a table that has one result for a number,
though it may read stages of one number more than once.  This loses nothing: stages of
one number share what is kept in their context, however many executions go on in it.

## Main results

* `Hosting.hosted`: executions that share a context keep it and its log in order.
* `hosting_after`: whatever happens in a context is a course of executions that share
  it.
* `results_delivered`: results reach the work of a stage in the order of its inputs.
-/

namespace SeriesQuery.Execution

open SeriesQuery.Backend (Point Request)
open World

variable {respond : Respond} {memo : Memo} {w w' : World} {f : Executions}
  {hs : List Handover} {n root : Node} {p q : Path} {t : Task} {c : Context}

/-! ## Places of executions -/

namespace Executions

private theorem put_self {e : Option (Node × Task)} : f.put p e p = e := if_pos rfl

private theorem put_of_ne {e : Option (Node × Task)} (hne : q ≠ p) :
    f.put p e q = f q := if_neg hne

/-- An execution is the one that was put at its place, or it was there before. -/
theorem put_eq_some {e : Option (Node × Task)} {x : Node × Task}
    (h : f.put p e q = some x) : (q = p ∧ e = some x) ∨ (q ≠ p ∧ f q = some x) := by
  by_cases hqp : q = p
  · subst hqp
    rw [put_self] at h
    exact Or.inl ⟨rfl, h⟩
  · rw [put_of_ne hqp] at h
    exact Or.inr ⟨hqp, h⟩

/-- Of two places above a third, one is above the other. -/
theorem Apart.not_suffix (h : f.Apart p) (hq : f q ≠ none) {q' : Path} (hp : p <:+ q') :
    ¬ q <:+ q' := by
  intro hq'
  rcases List.suffix_or_suffix_of_suffix hp hq' with hpq | hqp
  · exact (h q hq).1 hpq
  · exact (h q hq).2 hqp

/-- Executions all stand apart from each other. -/
def Scattered (f : Executions) : Prop :=
  ∀ p q, f p ≠ none → f q ≠ none → p <:+ q → p = q

/-- Nothing is both below an execution and below another one. -/
theorem Scattered.not_suffix (h : f.Scattered) (hp : f p ≠ none) (hq : f q ≠ none)
    (hne : q ≠ p) {q' : Path} (hq' : q <:+ q') : ¬ p <:+ q' := by
  intro hp'
  rcases List.suffix_or_suffix_of_suffix hp' hq' with hpq | hqp
  · exact hne (h p q hp hq hpq).symm
  · exact hne (h q p hq hp hqp)

/-- What goes on at a place leaves the places of executions as they are. -/
theorem Scattered.put (h : f.Scattered) (hp : f p ≠ none) (e : Option (Node × Task)) :
    (f.put p e).Scattered := by
  have hback : ∀ q, f.put p e q ≠ none → f q ≠ none := by
    intro q hq
    by_cases hqp : q = p
    · rwa [hqp]
    · rwa [put_of_ne hqp] at hq
  exact fun q q' hq hq' => h q q' (hback q hq) (hback q' hq')

private theorem Scattered.start (h : f.Scattered) (hapart : f.Apart p)
    (e : Option (Node × Task)) : (f.put p e).Scattered := by
  intro q q' hq hq' hsuffix
  by_cases hqp : q = p
  · by_cases hqp' : q' = p
    · rw [hqp, hqp']
    · rw [put_of_ne hqp'] at hq'
      rw [hqp] at hsuffix
      exact absurd hsuffix (hapart q' hq').1
  · rw [put_of_ne hqp] at hq
    by_cases hqp' : q' = p
    · rw [hqp'] at hsuffix
      exact absurd hsuffix (hapart q hq).2
    · rw [put_of_ne hqp'] at hq'
      exact h q q' hq hq' hsuffix

end Executions

/-! ## Executions that share a context -/

/-- What holds of a context that executions share, and of its log. -/
structure Hosted (respond : Respond) (memo : Memo) (w : World) (f : Executions)
    (hs : List Handover) : Prop where
  tidy : w.Tidy
  scattered : f.Scattered
  sound : ∀ p n t, f p = some (n, t) → Sound respond AnyStage n p t w
  traced : ∀ p n t, f p = some (n, t) → Traced respond hs n p t
  /-- Whoever stands in a turn or a queue belongs to an execution. -/
  home : ∀ id q, w.Owns id q ∨ w.Waits id q → ∃ p, f p ≠ none ∧ p <:+ q
  logged : Logged respond memo hs w

private theorem hosted_fresh :
    Hosted respond memo (.start memo) (fun _ => none) [] where
  tidy := ⟨List.nodup_nil, by simp [World.start], fun _ _ _ => rfl⟩
  scattered := fun p q hp => absurd rfl hp
  sound := by simp
  traced := by simp
  home := by
    rintro id q (ho | hwaits)
    · exact absurd rfl ho.turn?_ne_none
    · exact absurd rfl hwaits.turn?_ne_none
  logged := ⟨by simp, fun id r hr => Or.inl hr⟩

/-- An execution that starts finds nobody at its place. -/
theorem Hosted.start (h : Hosted respond memo w f hs) (hapart : f.Apart p)
    (root : Node) :
    Hosted respond memo w (f.put p (some (root, .fresh))) hs where
  tidy := h.tidy
  scattered := h.scattered.start hapart _
  sound := by
    intro q n t hq
    rcases Executions.put_eq_some hq with ⟨rfl, he⟩ | ⟨-, hold⟩
    · cases he
      refine .absented (fun id q' hq' hr => ?_) (by simp) trivial
      obtain ⟨p', hp', hsuffix⟩ := h.home id q' hr
      exact hapart.not_suffix hp' hq' hsuffix
    · exact h.sound q n t hold
  traced := by
    intro q n t hq
    rcases Executions.put_eq_some hq with ⟨rfl, he⟩ | ⟨-, hold⟩
    · cases he
      exact Traced.single (by simp) trivial
    · exact h.traced q n t hold
  home := by
    intro id q hr
    obtain ⟨p', hp', hsuffix⟩ := h.home id q hr
    refine ⟨p', ?_, hsuffix⟩
    by_cases heq : p' = p
    · subst heq
      rw [Executions.put_self]
      simp
    · rwa [Executions.put_of_ne heq]
  logged := h.logged

/-- Moves of one execution leave the others as they are. -/
theorem Hosted.sound_of_moves (h : Hosted respond memo w f hs) (hp : f p ≠ none)
    (hmoves : Moves respond AnyStage (fun q => p <:+ q) w w') (hne : q ≠ p)
    (hq : f q = some (n, t)) : Sound respond AnyStage n q t w' :=
  (h.sound q n t hq).frame hmoves h.tidy fun _ hq' =>
    h.scattered.not_suffix hp (by rw [hq]; simp) hne hq'

private theorem Hosted.home_of_moves (h : Hosted respond memo w f hs)
    (hmoves : Moves respond AnyStage (fun q => p <:+ q) w w') {id : Nat}
    (hq : ¬ p <:+ q) (hr : w'.Owns id q ∨ w'.Waits id q) {e : Option (Node × Task)} :
    ∃ p', f.put p e p' ≠ none ∧ p' <:+ q := by
  obtain ⟨p', hp', hsuffix⟩ := h.home id q (hmoves.role h.tidy hq hr)
  refine ⟨p', ?_, hsuffix⟩
  rw [Executions.put_of_ne]
  · exact hp'
  · rintro rfl
    exact hq hsuffix

/-- An execution that goes on adds to the log. -/
theorem Hosted.go (h : Hosted respond memo w f hs) (hp : f p = some (root, t)) :
    Hosted respond memo ((actor respond root).poll p t w).2
      (f.put p (some (root, ((actor respond root).poll p t w).1)))
      (hs ++ handovers respond root p t w) := by
  have hne : f p ≠ none := by
    rw [hp]
    simp
  obtain ⟨hmoves, hsound, htraced, hlog⟩ := handing respond root memo hs p t w h.tidy
    (h.sound p root t hp) (h.traced p root t hp) h.logged
  refine ⟨hmoves.tidy h.tidy, h.scattered.put hne _, ?_, ?_, ?_, hlog⟩
  -- Its moves are made at its place and below, where no other execution stands.
  · intro q n t' hq
    rcases Executions.put_eq_some hq with ⟨rfl, he⟩ | ⟨hqp, hold⟩
    · cases he
      exact hsound
    · exact h.sound_of_moves hne hmoves hqp hold
  · intro q n t' hq
    rcases Executions.put_eq_some hq with ⟨rfl, he⟩ | ⟨-, hold⟩
    · cases he
      exact htraced
    · exact (h.traced q n t' hold).append
  · intro id q hr
    by_cases hq : p <:+ q
    · exact ⟨p, by rw [Executions.put_self]; simp, hq⟩
    · exact h.home_of_moves hmoves hq hr

/-- An execution that is dropped leaves nobody behind. -/
theorem Hosted.drop (h : Hosted respond memo w f hs) (hp : f p = some (root, t)) :
    Hosted respond memo ((actor respond root).drop p t w) (f.put p none) hs := by
  have hne : f p ≠ none := by
    rw [hp]
    simp
  obtain ⟨hmoves, habsent⟩ :=
    leaving respond AnyStage root p t w h.tidy (h.sound p root t hp)
  have hothers : ∀ q n t', f.put p none q = some (n, t') → q ≠ p ∧ f q = some (n, t') :=
    fun q n t' hq => (Executions.put_eq_some hq).resolve_left (by simp)
  refine ⟨hmoves.tidy h.tidy, h.scattered.put hne _, ?_, ?_, ?_,
    h.logged.of_memo (idles_drop respond root p t w).1⟩
  · intro q n t' hq
    obtain ⟨hqp, hq⟩ := hothers q n t' hq
    exact h.sound_of_moves hne hmoves hqp hq
  · intro q n t' hq
    exact h.traced q n t' (hothers q n t' hq).2
  · intro id q hr
    by_cases hq : p <:+ q
    · exact absurd hr (habsent id q hq)
    · exact h.home_of_moves hmoves hq hr

private theorem Hosted.rest (h : Hosted respond memo w f hs)
    (hturns : w'.turns = w.turns)
    (hmemo : w'.memo = w.memo) : Hosted respond memo w' f hs where
  tidy := h.tidy.of_same hturns hmemo
  scattered := h.scattered
  sound := fun p n t hp => (h.sound p n t hp).of_same hturns hmemo
  traced := h.traced
  home := by
    intro id q hr
    refine h.home id q ?_
    unfold Owns Waits World.turn? at hr ⊢
    rwa [hturns] at hr
  logged := h.logged.of_memo hmemo

/-- **Hosting.**  Executions that share a context keep it and its log in order. -/
theorem Hosting.hosted (h : Hosting respond memo w f hs) :
    Hosted respond memo w f hs := by
  induction h with
  | fresh => exact hosted_fresh
  | start p root _ hapart ih => exact ih.start hapart root
  | go p root t _ hp ih => exact ih.go hp
  | drop p root t _ hp ih => exact ih.drop hp
  | rest _ hturns hmemo ih => exact ih.rest hturns hmemo

/-! ## Executions one after another -/

namespace Context

/-- A context has its execution at the topmost place, and no other. -/
theorem executions_put (c : Context) (w : World) (e : Option (Node × Task)) :
    c.executions.put [] e = (⟨w, e⟩ : Context).executions := by
  funext p
  by_cases hp : p = []
  · rw [hp, Executions.put_self]
    rfl
  · rw [Executions.put_of_ne hp, executions, executions, if_neg hp, if_neg hp]

private theorem apart_of_idle (hidle : c.current = none) : c.executions.Apart [] := by
  intro q hq
  rw [executions, hidle, ite_self] at hq
  exact absurd rfl hq

/-- Dropping the execution in a context. -/
theorem hosting_cut (h : Hosting respond memo c.world c.executions hs) :
    Hosting respond memo (c.cut respond).world (c.cut respond).executions hs ∧
      (c.cut respond).current = none := by
  unfold Context.cut
  cases hcurrent : c.current with
  | none => exact ⟨h, hcurrent⟩
  | some x =>
      obtain ⟨root, t⟩ := x
      have hdrop := h.drop [] root t hcurrent
      rw [c.executions_put ((actor respond root).drop [] t c.world)] at hdrop
      exact ⟨hdrop, rfl⟩

/-- Letting the execution in a context go on. -/
theorem hosting_pass (h : Hosting respond memo c.world c.executions hs)
    (hcurrent : c.current = some (root, t)) :
    Hosting respond memo (c.step respond .pass).world (c.step respond .pass).executions
      (hs ++ handovers respond root [] t { c.world with next := [] }) := by
  have hawake : Hosting respond memo { c.world with next := [] } c.executions hs :=
    h.rest rfl rfl
  have hgo := hawake.go [] root t hcurrent
  rw [after_pass hcurrent]
  obtain ⟨⟨t', w'⟩, hpoll⟩ :
      ∃ x, (actor respond root).poll [] t { c.world with next := [] } = x := ⟨_, rfl⟩
  rw [hpoll] at hgo
  by_cases hdone : ∃ r, t' = .done r
  · obtain ⟨r, rfl⟩ := hdone
    rw [pass_of_done hpoll, ← c.executions_put]
    exact hgo
  · rw [pass_of_not_done hpoll fun r hr => hdone ⟨r, hr⟩, ← c.executions_put]
    exact hgo.rest (resume_same w').1 (resume_same w').2.1

/-- An event in a context is one in the course of executions that share it. -/
theorem hosting_step (h : Hosting respond memo c.world c.executions hs) (e : Event) :
    ∃ hs', Hosting respond memo (c.step respond e).world (c.step respond e).executions
      (hs ++ hs') := by
  obtain ⟨hcut, hidle⟩ := hosting_cut h
  cases e with
  | start root =>
      have hstart := hcut.start [] root (apart_of_idle hidle)
      rw [(c.cut respond).executions_put (c.cut respond).world] at hstart
      exact ⟨[], by rw [List.append_nil]; exact hstart⟩
  | drop => exact ⟨[], by rw [List.append_nil]; exact hcut⟩
  | pass =>
      cases hcurrent : c.current with
      | none =>
          rw [Context.step, hcurrent]
          exact ⟨[], by rw [List.append_nil]; exact h⟩
      | some x => exact ⟨_, hosting_pass h hcurrent⟩

/-- So is whatever happens in a context. -/
theorem hosting_after (events : List Event) :
    ∀ {c : Context} {hs : List Handover}, Hosting respond memo c.world c.executions hs →
      ∃ hs',
        Hosting respond memo (c.after respond events).world
          (c.after respond events).executions
        (hs ++ hs') := by
  induction events with
  | nil => exact fun {c hs} h => ⟨[], by rw [List.append_nil]; exact h⟩
  | cons e events ih =>
      intro c hs h
      obtain ⟨first, hstep⟩ := hosting_step h e
      obtain ⟨rest, hafter⟩ := ih hstep
      exact ⟨first ++ rest, by rw [← List.append_assoc]; exact hafter⟩

private theorem hosting_fresh (respond : Respond) :
    Hosting respond [] fresh.world fresh.executions [] := by
  have hnone : fresh.executions = fun _ => none := funext fun p => ite_self none
  rw [hnone]
  exact .fresh

/-- An execution of a stage that starts in a context with some results. -/
theorem hosting_start (respond : Respond) (memo : Memo) (root : Node) :
    Hosting respond memo (.start memo)
      (⟨.start memo, some (root, .fresh)⟩ : Context).executions [] := by
  have hnone : (⟨.start memo, none⟩ : Context).executions = fun _ => none :=
    funext fun p => ite_self none
  rw [← executions_put ⟨.start memo, none⟩, hnone]
  exact Hosting.fresh.start [] root fun q hq => absurd rfl hq

end Context

/-! ## Results in the order of the inputs -/

private theorem nonNumericMessage_ne_missing (point : Point) (id : Nat) :
    nonNumericMessage point ≠ s!"missing result for stage #{id}" := by
  show "non-numeric value " ++ _ ++ " at " ++ _ ≠ "missing result for stage #" ++ _
  intro h
  have hchars := congrArg String.toList h
  simp [String.toList_append] at hchars

/-- A threshold fails only because of a point. -/
theorem evaluate_eq_error {s : Threshold} {rs : List SeriesResult} {message : String}
    (h : s.evaluate rs = .error message) :
    ∃ point, message = nonNumericMessage point := by
  rw [Threshold.evaluate] at h
  cases hoffending : s.offending? rs with
  | none =>
      rw [hoffending] at h
      cases h
  | some point =>
      rw [hoffending] at h
      exact ⟨point, (Except.error.inj h).symm⟩

/-- The work of a stage over the results that it has been handed does not fail for want
of one. -/
theorem ne_missing_of_gives {h : Handover} {e : StageFailure}
    (hgives : h.Gives respond (.error e)) (id : Nat) :
    e ≠ .evaluation s!"missing result for stage #{id}" := by
  unfold Handover.Gives Execution.Gives at hgives
  cases hwork : h.stage.work with
  | ask request =>
      rw [hwork] at hgives
      obtain ⟨k, hk⟩ := hgives
      obtain ⟨fault, -, rfl⟩ := Fallible.mapError_eq_error.1 hk
      simp
  | combine c =>
      rw [hwork] at hgives
      cases c with
      | union => cases hgives
      | threshold s =>
          obtain ⟨message, hmessage, rfl⟩ := Fallible.mapError_eq_error.1 hgives
          obtain ⟨point, rfl⟩ := evaluate_eq_error hmessage
          rw [Ne, StageFailure.evaluation.injEq]
          exact nonNumericMessage_ne_missing point id

/-- What holds of everything that has been handed over in a context. -/
structure Delivered (respond : Respond) (memo : Memo) (w : World) (f : Executions)
    (hs : List Handover) : Prop where
  /-- Looked up by the numbers of the inputs, the results that a join hands over come as
  they are. -/
  ordered :
    ∀ h ∈ hs, inDeclaredOrder (h.stage.inputs.map Node.id) h.results = .ok h.results
  /-- Each of them is the one result that is kept for its input. -/
  kept : ∀ h ∈ hs, w.Recalls h.stage.inputs h.results
  /-- A result that is kept, if not from the start, is what a stage's work gives over
  them. -/
  succeeded :
    ∀ id r, w.recalled? id = some r → (World.start memo).recalled? id = some r ∨
    ∃ h ∈ hs, h.stage.id = id ∧ h.Gives respond (.ok r)
  /-- So is a failure, and it is never that a result is missing. -/
  failed : ∀ p root t, f p = some (root, t) → ∀ n q e,
    Holds root p t n q (.done (.error e)) → (∃ h ∈ hs, h.Gives respond (.error e)) ∧
      ∀ id : Nat, e ≠ .evaluation s!"missing result for stage #{id}"

private theorem Hosted.delivered (h : Hosted respond memo w f hs) :
    Delivered respond memo w f hs where
  ordered := fun h' hmem => h.logged.inDeclaredOrder hmem
  kept := h.logged.kept
  succeeded := h.logged.complete
  failed := by
    intro p root t hp n q e hv
    obtain ⟨h', hmem, hgives⟩ := h.traced p root t hp n q _ hv
    exact ⟨⟨h', hmem, hgives⟩, ne_missing_of_gives hgives⟩

/-- **Order of results.**  Whatever graphs are executed in a context, at the same time
or one after another, with stages that are read repeatedly and different stages of one
number: the results that a join hands over reach the work of its stage in the order of
its inputs, and no stage ever lacks one. -/
theorem results_delivered :
    (∀ (respond : Respond) (memo : Memo) (w : World) (f : Executions)
      (hs : List Handover),
      Hosting respond memo w f hs → Delivered respond memo w f hs) ∧
    (∀ (respond : Respond) (events : List Event), ∃ hs,
      Hosting respond [] (Context.fresh.after respond events).world
        (Context.fresh.after respond events).executions hs) ∧
    ∀ (respond : Respond) (deadline : Option Nat) (memo : Memo) (root : Node)
      (id : Nat),
      (run respond deadline memo root).result ≠
        some (.error (.evaluation s!"missing result for stage #{id}")) := by
  refine ⟨fun respond memo w f hs h => h.hosted.delivered, ?_, ?_⟩
  · intro respond events
    exact Context.hosting_after events (Context.hosting_fresh respond)
  · intro respond deadline memo root id hresult
    -- A run is an execution at the topmost place that makes some passes.
    obtain ⟨passes, hshows, -⟩ :=
      Context.exists_shows respond deadline root .fresh (.start memo)
    obtain ⟨hs, hafter⟩ := Context.hosting_after (List.replicate passes .pass)
      (c := ⟨.start memo, some (root, .fresh)⟩)
      (Context.hosting_start respond memo root)
    rw [run] at hresult
    rw [hresult, Context.result?_eq_some] at hshows
    obtain ⟨root', hcurrent⟩ := hshows
    exact (hafter.hosted.delivered.failed [] root' _ hcurrent root' []
      _ (.here _ _ _)).2 id rfl

/-- A backend that numbers its replies, each of which takes a millisecond. -/
def numberedReplies (k : Nat) (_ : Request) : Reply := ⟨1, .ok ⟨[⟨k, [], []⟩], []⟩⟩

/-- A stage of the number 1 that asks for a metric. -/
def twin (metric : String) : Node :=
  .mk 1 (some metric) (.ask ⟨⟨0, 0⟩, ⟨60, 0⟩, [⟨metric, ⟨[]⟩, [], []⟩]⟩) []

/-- Two stages of one number ask for different metrics.  One execution reads the first
of them, the second and the first again, and while the reply is awaited, another one in
the same context reads both.  One request is made, and all inputs have its result. -/
theorem results_delivered_twins : ∃ w f hs r, Hosting numberedReplies [] w f hs ∧
    hs.map (fun h => (h.stage.inputs.map Node.name, h.results)) =
      [([], []), ([some "cpu", some "mem", some "cpu"], [r, r, r]),
        ([some "mem", some "cpu"], [r, r])] ∧
    w.calls.length = 1 ∧ Delivered numberedReplies [] w f hs := by
  have hwait : ∀ w f hs, Hosting numberedReplies [] w f hs →
      Hosting numberedReplies [] { w with now := 1 } f hs :=
    fun w f hs h => h.rest rfl rfl
  have hfresh : Hosting numberedReplies [] (.start []) (fun _ => none) [] := .fresh
  have hasked :=
    (hfresh.start [0]
      (.mk 2 none (.combine .union) [twin "cpu", twin "mem", twin "cpu"])
    fun q hq => absurd rfl hq).go [0] _ _ rfl
  have hqueued :=
    (hasked.start [1] (.mk 3 none (.combine .union) [twin "mem", twin "cpu"])
    fun q hq => by
      by_cases h : q = [0]
      · rw [h]
        decide
      · rw [Executions.put_of_ne h, Executions.put_of_ne h] at hq
        exact absurd rfl hq).go [1] _ _ rfl
  have hended := ((hwait _ _ _ hqueued).go [0] _ _ rfl).go [1] _ _ rfl
  exact ⟨_, _, _, .ofResponse ⟨[⟨0, [], []⟩], []⟩, hended, rfl, rfl,
    results_delivered.1 _ _ _ _ _ hended⟩

end SeriesQuery.Execution
