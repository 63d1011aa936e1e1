import SeriesQuery.Proofs.Execution.Course
import SeriesQuery.Proofs.Execution.Requests
import SeriesQuery.Proofs.Execution.Splicing

/-!
# Histories of a context

Executions of stages of one graph follow one another in a context, and each of them
succeeds, fails or is dropped on the way.  Whatever has happened, every result that the
context keeps is a success of its own stage and stays as it is.  A stage whose result is
kept is not asked for again.  A stage that has failed, or at which somebody had the turn
when the execution was dropped, has no result.  So it is asked for again by an execution
that succeeds later on, and if the backend then answers, the result is the one without
sharing over what had been kept and what is answered.

What happens in one context does not depend on other contexts, except for what the
backend makes of their requests.  A compiled statement can be run any number of times.

## Main results

* `Context.kept`, `Context.executes`: what holds at any time, and of any execution from
  then on.
* `memo_sound`: the same of all histories, with the independence of contexts.
-/

namespace SeriesQuery.Execution

open SeriesQuery.Backend (Request Response)
open World

variable {respond respond' : Respond} {graph : Node → Prop} {w w' : World}
  {root n m : Node} {t : Task} {c : Context} {r : SeriesResult} {start passes : Nat}
  {calls : List Request}

/-! ## Successes of a stage -/

/-- A result is a success of its own stage: an answer to the stage's request, which has
been made as one of those from some number on, or what comes of combining the results
that are kept for its inputs. -/
def World.Earned (respond : Respond) (start : Nat) (w : World) (n : Node)
    (r : SeriesResult) : Prop :=
  ∃ rs, w.Recalls n.inputs rs ∧
    match n.work with
    | .ask request => ∃ k response, start ≤ k ∧ w.calls[k]? = some request ∧
        (respond k request).outcome = .ok response ∧ r = .ofResponse response
    | .combine c => combine c rs = .ok r

private theorem ok_of_outcome {outcome : Except BackendFault Response}
    (h : (outcome.map SeriesResult.ofResponse).mapError StageFailure.remote = .ok r) :
    ∃ response, outcome = .ok response ∧ r = .ofResponse response := by
  cases outcome with
  | error fault => cases h
  | ok response =>
      cases h
      exact ⟨response, rfl, rfl⟩

/-- A backend that gives the replies to the requests of a list, from one of them on, and
refuses all other requests. -/
theorem exists_concur (respond : Respond) (start : Nat) (calls : List Request) :
    ∃ respond', Concur respond respond' start calls ∧
      ∀ k request response, (respond' k request).outcome = .ok response →
        start ≤ k ∧ calls[k]? = some request ∧
          (respond k request).outcome = .ok response := by
  classical
  refine ⟨fun k request =>
    if start ≤ k ∧ calls[k]? = some request then respond k request
    else ⟨0, .error .unavailable⟩, fun k request hk hr => (if_pos ⟨hk, hr⟩).symm, ?_⟩
  intro k request response hresponse
  by_cases h : start ≤ k ∧ calls[k]? = some request
  · dsimp only at hresponse
    rw [if_pos h] at hresponse
    exact ⟨h.1, h.2, hresponse⟩
  · dsimp only at hresponse
    rw [if_neg h] at hresponse
    cases hresponse

/-- What such a backend brings about has been earned. -/
theorem World.Gives.earned
    (hreplies : ∀ k request response, (respond' k request).outcome = .ok response →
      start ≤ k ∧ w.calls[k]? = some request ∧
        (respond k request).outcome = .ok response)
    (h : w.Gives respond' n (.ok r)) : w.Earned respond start n r := by
  obtain ⟨rs, hrs, hgives⟩ := h
  refine ⟨rs, hrs, ?_⟩
  cases hwork : n.work with
  | combine c =>
      rw [hwork] at hgives
      exact hgives
  | ask request =>
      rw [hwork] at hgives
      obtain ⟨k, hk⟩ := hgives
      obtain ⟨response, hresponse, hr⟩ := ok_of_outcome hk
      obtain ⟨hstart, hcall, houtcome⟩ := hreplies k request response hresponse
      exact ⟨k, response, hstart, hcall, houtcome, hr⟩

/-! ## Agreement over what is kept -/

/-- A result that is kept is the result without sharing for all answers that what is
kept below shows. -/
theorem plainResult_of_kept {answer : Nat → Request → Response} (hclosed : Closed graph)
    (hnumbered : Numbered graph) (hf : w.Founded respond graph) (hn : graph n)
    (hanswer : ∀ k request r, n.Reaches k → k.work = .ask request →
      w.recalled? k.id = some r → answer k.id request = r.response)
    (hr : w.recalled? n.id = some r) : plainResult answer n = .ok r := by
  rw [← plainResult_of_recall hclosed hnumbered hf _ n r (Nat.lt_succ_self _) hn hr]
  apply plainResult_congr
  intro k request hk hwork
  obtain ⟨r', hr'⟩ := Option.isSome_iff_exists.1
    (recalled_of_reaches hnumbered hclosed hf hn hk (by rw [hr]; rfl))
  rw [hanswer k request r' hk hwork hr', replayed, hr']

/-- A result that is kept, or a failure that a stage has brought about, agrees with the
result without sharing if the backend has answered. -/
theorem agrees_of_kept {answer : Nat → Request → Response} (hclosed : Closed graph)
    (hnumbered : Numbered graph) (hf : w.Founded respond graph) (hroot : graph root)
    (hanswered : Answered respond root)
    (hanswer : ∀ n request r, root.Reaches n → n.work = .ask request →
      w.recalled? n.id = some r → answer n.id request = r.response)
    {result : Except StageFailure SeriesResult}
    (h : Okay respond root.Reaches w root [] (.done result)) :
    Agrees (plainResult answer root) result := by
  have hplain : ∀ m r, root.Reaches m → w.recalled? m.id = some r →
      plainResult answer m = .ok r :=
    fun m r hm =>
      plainResult_of_kept hclosed hnumbered hf (graph_of_reaches hclosed hroot hm)
      fun k request r hk => hanswer k request r (hm.trans hk)
  cases result with
  | ok r =>
      rw [hplain root r (.refl root) h]
      exact rfl
  | error e =>
      obtain ⟨m, hm, rs, hrs, hgives⟩ := h
      cases hwork : m.work with
      | ask request =>
          rw [hwork] at hgives
          obtain ⟨k, hk⟩ := hgives
          obtain ⟨response, hresponse⟩ := hanswered m request hm hwork k
          rw [hresponse] at hk
          cases hk
      | combine c =>
          rw [hwork] at hgives
          have hinputs : plainResults answer m.inputs = .ok rs := by
            refine plainResults_eq_ok.2
              (((List.forall₂_and_left _ _).2 ⟨fun k hk => hk, hrs⟩).imp ?_)
            rintro k r ⟨hk, hr⟩
            exact hplain k r (hm.trans (.input hk (.refl k))) hr
          have hfails : plainResult answer m = .error e := by
            rw [plainResult_eq, hinputs, hwork]
            exact hgives
          cases hroot : plainResult answer root with
          | error e' =>
              obtain ⟨message, rfl⟩ := combine_eq_error hgives
              exact ⟨message, rfl⟩
          | ok r =>
              obtain ⟨r', hr'⟩ := plainResult_of_reaches hm hroot
              rw [hfails] at hr'
              cases hr'

/-- A backend that has answered all requests up to some number. -/
def mended (respond : Respond) (start : Nat) : Respond := fun k request =>
  match (respond k request).outcome with
  | .ok _ => respond k request
  | .error _ => if k < start then ⟨0, .ok .empty⟩ else respond k request

private theorem mended_of_le {k : Nat} {request : Request} (h : start ≤ k) :
    mended respond start k request = respond k request := by
  unfold mended
  rw [if_neg (Nat.not_lt.2 h)]
  split
  · rfl
  · rfl

private theorem mended_of_ok {k : Nat} {request : Request} {response : Response}
    (h : (respond k request).outcome = .ok response) :
    mended respond start k request = respond k request := by
  unfold mended
  rw [h]

private theorem mended_answers
    (hanswers : ∀ n request, root.Reaches n → n.work = .ask request →
      ∀ k, start ≤ k → ∃ response, (respond k request).outcome = .ok response) :
    Answered (mended respond start) root := by
  intro n request hn hwork k
  by_cases hk : start ≤ k
  · rw [mended_of_le hk]
    exact hanswers n request hn hwork k hk
  · unfold mended
    rw [if_pos (Nat.not_le.1 hk)]
    cases houtcome : (respond k request).outcome with
    | ok response => exact ⟨response, houtcome⟩
    | error fault => exact ⟨.empty, rfl⟩

/-- What is founded on answers is founded on them still. -/
theorem World.Founded.mended (h : w.Founded respond graph) :
    w.Founded (Execution.mended respond start) graph := by
  intro id r hr
  obtain ⟨n, hn, hid, rs, hrs, hgives⟩ := h id r hr
  refine ⟨n, hn, hid, rs, hrs, ?_⟩
  cases hwork : n.work with
  | combine c =>
      rw [hwork] at hgives
      exact hgives
  | ask request =>
      rw [hwork] at hgives
      obtain ⟨k, hk⟩ := hgives
      obtain ⟨response, hresponse, -⟩ := ok_of_outcome hk
      exact ⟨k, by rw [mended_of_ok hresponse, hk]⟩

/-! ## What holds at any time -/

namespace Context

/-- What holds of a context. -/
structure Kept (respond : Respond) (graph : Node → Prop) (c : Context) : Prop where
  /-- Every result that is kept is a success of its own stage. -/
  earned : ∀ id r, c.world.recalled? id = some r →
    ∃ n, graph n ∧ n.id = id ∧ c.world.Earned respond 0 n r
  /-- A result that is kept stays, whatever happens. -/
  stays : ∀ events, (∀ root, .start root ∈ events → graph root) → ∀ id r,
    c.world.recalled? id = some r → (c.after respond events).world.recalled? id = some r
  succeeded : ∀ root r, c.current = some (root, .done (.ok r)) →
    c.world.recalled? root.id = some r
  failed : ∀ root e, c.current = some (root, .done (.error e)) →
    c.world.recalled? root.id = none
  /-- Dropping an execution keeps nothing, and leaves no turn behind. -/
  dropped : (c.step respond .drop).world.memo = c.world.memo ∧
    (c.step respond .drop).world.turns = []
  /-- A stage at which somebody has the turn has no result, also when the execution is
  dropped. -/
  flying : ∀ id, c.world.turn? id ≠ none →
    c.world.recalled? id = none ∧ (c.step respond .drop).world.recalled? id = none

private theorem fresh_recalled? (id : Nat) : fresh.world.recalled? id = none := rfl

/-- All that is kept after some events has been earned. -/
theorem after_earned (hclosed : Closed graph) (events : List Event)
    (hroots : ∀ root, .start root ∈ events → graph root) {id : Nat}
    (hr : (fresh.after respond events).world.recalled? id = some r) :
    ∃ n, graph n ∧ n.id = id ∧
      (fresh.after respond events).world.Earned respond 0 n r := by
  obtain ⟨respond', hconcur, hreplies⟩ :=
    exists_concur respond 0 (fresh.after respond events).world.calls
  have hsame : fresh.after respond' events = fresh.after respond events :=
    after_congr hconcur
  obtain ⟨-, hcourse⟩ := (ordered_fresh respond' graph).after hclosed events hroots
  rw [hsame] at hcourse
  rcases hcourse.earned tidy_fresh hr with hr | ⟨n, hn, hid, hgives⟩
  · rw [fresh_recalled?] at hr
    cases hr
  · exact ⟨n, hn, hid, hgives.earned hreplies⟩

/-- **Any time.**  Whatever has happened in a context, it keeps successes and nothing
else. -/
theorem kept (hclosed : Closed graph) (events : List Event)
    (hroots : ∀ root, .start root ∈ events → graph root) :
    (fresh.after respond events).Kept respond graph := by
  obtain ⟨hordered, -⟩ := (ordered_fresh respond graph).after hclosed events hroots
  obtain ⟨hcut, habsent⟩ := hordered.cut
  refine ⟨fun id r => after_earned hclosed events hroots, ?_, ?_, ?_, ?_, ?_⟩
  · intro later hlater id r hr
    exact (hordered.after hclosed later hlater).2.recalled? hordered.tidy hr
  · intro root r hcurrent
    exact (hordered.busy root _ hcurrent).sound.okay root [] _ (.here root [] _)
  · intro root e hcurrent
    exact (hordered.busy root _ hcurrent).failed e rfl
  · exact ⟨(idles_cut respond _).1, habsent.turns (hcut.tidy hordered.tidy)⟩
  · intro id hturn
    have hnone := hordered.tidy.recalled?_eq_none hturn
    refine ⟨hnone, ?_⟩
    rw [← hnone]
    exact recalled?_of_memo (idles_cut respond _).1

/-! ## What holds of an execution -/

/-- What holds of an execution that starts in a context. -/
structure Executes (respond : Respond) (root : Node) (c : Context) : Prop where
  /-- A result that is kept is given at once, and nothing is asked for it. -/
  recalls : ∀ r passes, c.world.recalled? root.id = some r →
    (c.execute respond root (passes + 1)).result? = some (.ok r) ∧
      (c.execute respond root (passes + 1)).world.memo = c.world.memo ∧
      (c.execute respond root (passes + 1)).world.calls = c.world.calls
  /-- Nothing is asked but for stages that are needed and had no result before. -/
  asks : ∀ passes, ∃ ns,
    (c.execute respond root passes).world.calls = c.world.calls ++ requestsOf ns ∧
      ∀ n ∈ ns, root.Reaches n ∧ c.world.recalled? n.id = none
  /-- A result that is new is a success of its own stage in this execution. -/
  earns : ∀ passes id r, (c.execute respond root passes).world.recalled? id = some r →
    c.world.recalled? id = some r ∨ ∃ n, root.Reaches n ∧ n.id = id ∧
      (c.execute respond root passes).world.Earned respond c.world.calls.length n r
  /-- A stage that has had no success has no result, nor has any stage that needs it. -/
  fails : ∀ passes n, root.Reaches n → c.world.recalled? n.id = none →
    (∀ r,
      ¬ (c.execute respond root passes).world.Earned respond c.world.calls.length n r) →
    ∀ m, root.Reaches m → m.Reaches n →
      (c.execute respond root passes).world.recalled? m.id = none
  /-- It ends unless it is dropped before. -/
  ends :
    ∃ least, ∀ passes, least ≤ passes → (c.execute respond root passes).result? ≠ none
  /-- When it succeeds, it has asked for all stages that are needed and had no result
  before. -/
  asksAgain : ∀ passes r, (c.execute respond root passes).result? = some (.ok r) →
    ∀ n request, root.Reaches n → n.work = .ask request →
      c.world.recalled? n.id = none → ∃ k, c.world.calls.length ≤ k ∧
        (c.execute respond root passes).world.calls[k]? = some request
  /-- If the backend answers from now on, the result is the one without sharing, over
  what had been kept and what is answered. -/
  agrees :
    (∀ n request, root.Reaches n → n.work = .ask request → ∀ k,
      c.world.calls.length ≤ k →
      ∃ response, (respond k request).outcome = .ok response) →
    ∀ passes result, (c.execute respond root passes).result? = some result →
      ∀ answer : Nat → Request → Response,
        (∀ n request r, root.Reaches n → n.work = .ask request →
          (c.execute respond root passes).world.recalled? n.id = some r →
          answer n.id request = r.response) →
        Agrees (plainResult answer root) result

/-- An execution when it has just started. -/
def started (respond : Respond) (c : Context) (root : Node) : Context :=
  ⟨(c.cut respond).world, some (root, .fresh)⟩

private theorem execute_eq : c.execute respond root passes =
    (c.started respond root).after respond (List.replicate passes .pass) := rfl

/-- Passes go on with the execution that is under way. -/
theorem after_pass (hcurrent : c.current = some (root, t)) :
    c.step respond .pass =
      ⟨(pass respond root t c.world).2,
        some (root, (pass respond root t c.world).1)⟩ := by
  rw [step, hcurrent]

private theorem after_passes_succ (c : Context) :
    c.after respond (List.replicate (passes + 1) .pass) =
    (c.step respond .pass).after respond (List.replicate passes .pass) := rfl

theorem result?_eq_some {result : Except StageFailure SeriesResult} :
    c.result? = some result ↔ ∃ root, c.current = some (root, .done result) := by
  unfold result?
  cases c.current with
  | none => simp
  | some x =>
      obtain ⟨root, t⟩ := x
      cases t with
      | done r => simp
      | fresh => simp
      | queued => simp
      | joining ts => simp
      | calling due outcome => simp

/-- An execution that has ended stays as it is. -/
theorem after_done {result : Except StageFailure SeriesResult} (respond : Respond)
    (passes : Nat) :
    ∀ {c : Context}, c.current = some (root, .done result) →
      (c.after respond (List.replicate passes .pass)).current =
        some (root, .done result) ∧
        Idles c.world (c.after respond (List.replicate passes .pass)).world := by
  induction passes with
  | zero => exact fun hcurrent => ⟨hcurrent, rfl, rfl⟩
  | succ passes ih =>
      intro c hcurrent
      have hstep : c.step respond .pass =
          ⟨{ c.world with next := [] }, some (root, .done result)⟩ := by
        rw [after_pass hcurrent, pass_of_done poll_done]
      rw [after_passes_succ, hstep]
      obtain ⟨hdone, hidles⟩ :=
        ih (c := ⟨{ c.world with next := [] }, some (root, .done result)⟩) rfl
      exact ⟨hdone, hidles⟩

/-- Passes go on with the stage for which the execution has started. -/
theorem after_current (passes : Nat) :
    ∀ {c : Context} {t : Task}, c.current = some (root, t) →
    ∃ t',
      (c.after respond (List.replicate passes .pass)).current = some (root, t') := by
  induction passes with
  | zero => exact fun hcurrent => ⟨_, hcurrent⟩
  | succ passes ih =>
      intro c t hcurrent
      rw [after_passes_succ, after_pass hcurrent]
      exact ih rfl

/-- An execution that starts leaves what is kept and what has been asked. -/
theorem started_same (respond : Respond) (c : Context) (root : Node) :
    Idles c.world (c.started respond root).world := idles_cut respond c

private theorem Ordered.cut_tidy (h : c.Ordered respond graph) :
    (c.cut respond).world.Tidy :=
  h.cut.1.tidy h.tidy

/-- An execution is in order for every backend that would have replied the same, and
touches only the stages that it needs. -/
theorem Ordered.execute (h : c.Ordered respond graph)
    (hconcur : Concur respond respond' c.world.calls.length
      (c.execute respond root passes).world.calls) :
    (c.execute respond root passes).Ordered respond' root.Reaches ∧
      Course respond' root.Reaches (c.started respond root).world
        (c.execute respond root passes).world := by
  have hsame : (c.started respond root).after respond' (List.replicate passes .pass) =
      c.execute respond root passes := by
    have hexecute : c.execute respond' root passes = c.execute respond root passes :=
      after_congr hconcur
    rw [← hexecute, execute_eq, started, started, cut_congr respond respond']
  have hstarted : (c.started respond root).Ordered respond' root.Reaches :=
    ordered_start h.cut_tidy h.cut.2 (.refl root)
  rw [← hsame]
  exact hstarted.after (closed_reaches root) _ fun k hk => by simp at hk

private theorem Ordered.asks (h : c.Ordered respond graph) (passes : Nat) :
    ∃ ns, (c.execute respond root passes).world.calls = c.world.calls ++ requestsOf ns ∧
      ∀ n ∈ ns, root.Reaches n ∧ c.world.recalled? n.id = none := by
  obtain ⟨hmemo, hcalls⟩ := started_same respond c root
  have hconcur : Concur respond respond c.world.calls.length
      (c.execute respond root passes).world.calls := fun _ _ _ _ => rfl
  obtain ⟨-, hcourse⟩ := h.execute hconcur
  obtain ⟨ns, hns, hnone⟩ := hcourse.asked h.cut_tidy
  refine ⟨ns, by rw [hns, hcalls], fun n hn => ?_⟩
  rw [← recalled?_of_memo hmemo]
  exact hnone n hn

private theorem Ordered.earns (h : c.Ordered respond graph) (passes : Nat) {id : Nat}
    (hr : (c.execute respond root passes).world.recalled? id = some r) :
    c.world.recalled? id = some r ∨ ∃ n, root.Reaches n ∧ n.id = id ∧
      (c.execute respond root passes).world.Earned respond
        c.world.calls.length n r := by
  obtain ⟨respond', hconcur, hreplies⟩ := exists_concur respond c.world.calls.length
    (c.execute respond root passes).world.calls
  obtain ⟨-, hcourse⟩ := h.execute hconcur
  rcases hcourse.earned h.cut_tidy hr with hold | ⟨n, hn, hid, hgives⟩
  · rw [recalled?_of_memo (started_same respond c root).1] at hold
    exact Or.inl hold
  · exact Or.inr ⟨n, hn, hid, hgives.earned hreplies⟩

private theorem poll_kept (hr : w.recalled? n.id = some r) :
    (actor respond n).poll [] .fresh w = (.done (.ok r), w) := by
  cases n with
  | mk id name work inputs =>
      rw [actor]
      show pollStage respond id work _ _ [] .fresh w = _
      have hr' : w.recalled? id = some r := hr
      rw [pollStage, hr']

/-- An execution of a stage whose result is kept ends in its first pass. -/
theorem execute_kept (hr : c.world.recalled? root.id = some r) (passes : Nat) :
    (c.execute respond root (passes + 1)).result? = some (.ok r) ∧
      Idles c.world (c.execute respond root (passes + 1)).world := by
  have hstarted : (c.started respond root).world.recalled? root.id = some r := by
    rw [recalled?_of_memo (started_same respond c root).1]
    exact hr
  have hstep : (c.started respond root).step respond .pass =
      ⟨{ (c.started respond root).world with next := [] },
        some (root, .done (.ok r))⟩ := by
    rw [after_pass rfl, pass_of_done (poll_kept hstarted)]
  have hcurrent : ((c.started respond root).step respond .pass).current =
      some (root, .done (.ok r)) := by rw [hstep]
  obtain ⟨hdone, hidles⟩ := after_done respond passes hcurrent
  rw [execute_eq, after_passes_succ]
  refine ⟨result?_eq_some.2 ⟨root, hdone⟩, (started_same respond c root).trans ?_⟩
  rw [hstep] at hidles ⊢
  exact hidles

/-! ## Runs as executions -/

/-- A context shows what a run has come to. -/
def Shows (c : Context) (o : Outcome) : Prop :=
  c.result? = o.result ∧ Idles o.world c.world

private theorem result?_of_not_done (hdone : ∀ r, t ≠ .done r) :
    (⟨w, some (root, t)⟩ : Context).result? = none := by
  refine Option.eq_none_iff_forall_ne_some.2 fun result hresult => ?_
  obtain ⟨root', hcurrent⟩ := result?_eq_some.1 hresult
  cases hcurrent
  exact hdone result rfl

/-- **Runs.**  What a run comes to, with a deadline or without, an execution shows after
some passes. -/
theorem exists_shows (respond : Respond) (deadline : Option Nat) (root : Node)
    (t : Task) (w : World) :
    ∃ passes,
      ((⟨w, some (root, t)⟩ : Context).after respond
        (List.replicate passes .pass)).Shows
      (proceed respond deadline root t w) := by
  fun_induction proceed respond deadline root t w with
  | case1 t w awake result w' hpoll =>
      refine ⟨1, ?_⟩
      rw [after_passes_succ, after_pass rfl, pass_of_done hpoll]
      exact ⟨rfl, rfl, rfl⟩
  | case2 t w awake t' w' hdone hpoll hwoke ih =>
      obtain ⟨passes, hshows⟩ := ih
      refine ⟨passes + 1, ?_⟩
      rw [after_passes_succ, after_pass rfl, pass_of_not_done hpoll hdone, World.resume,
        if_pos hwoke]
      exact hshows
  | case3 t w awake t' w' hdone hpoll hwoke hnone =>
      refine ⟨1, ?_⟩
      rw [after_passes_succ, after_pass rfl, pass_of_not_done hpoll hdone]
      exact ⟨result?_of_not_done hdone, (resume_same w').2⟩
  | case4 t w awake t' w' hdone hpoll hwoke w'' hsome hdeadline =>
      refine ⟨1, ?_⟩
      rw [after_passes_succ, after_pass rfl, pass_of_not_done hpoll hdone]
      exact ⟨result?_of_not_done hdone, (resume_same w').2⟩
  | case5 t w awake t' w' hdone hpoll hwoke w'' hsome hdeadline ih =>
      obtain ⟨passes, hshows⟩ := ih
      refine ⟨passes + 1, ?_⟩
      rw [after_passes_succ, after_pass rfl, pass_of_not_done hpoll hdone, World.resume,
        if_neg hwoke, hsome]
      exact hshows

/-- An execution that is not dropped ends. -/
theorem Ordered.ends (hclosed : Closed graph) (hnumbered : Numbered graph)
    (hroot : graph root) (h : c.Ordered respond graph)
    (hf : c.world.Founded respond graph) :
    ∃ least, ∀ passes,
      least ≤ passes → (c.execute respond root passes).result? ≠ none := by
  obtain ⟨hcourse, habsent⟩ := h.cut
  have hsound : Sound respond graph root [] .fresh (c.cut respond).world :=
    .absented habsent (by simp) trivial
  have hready :
      Ready respond graph root .fresh { (c.cut respond).world with next := [] } :=
    ⟨h.cut_tidy.of_same rfl rfl, fun id r hr => hcourse.founded h.tidy hf id r hr,
      hsound.of_same rfl rfl, Or.inl rfl⟩
  have hended : Ended respond graph root none
      (proceed respond none root .fresh (c.cut respond).world) :=
    hready.proceed hclosed hnumbered hroot
  obtain ⟨least, hresult, -⟩ :=
    exists_shows respond none root .fresh (c.cut respond).world
  refine ⟨least, fun passes hle hnone => ?_⟩
  obtain ⟨result, hsome⟩ :
      ∃ result, (c.execute respond root least).result? = some result := by
    refine Option.ne_none_iff_exists'.1 fun hnone => hended.ends ?_ rfl
    rw [← hresult]
    exact hnone
  obtain ⟨root', hcurrent⟩ := result?_eq_some.1 hsome
  obtain ⟨more, rfl⟩ := Nat.exists_eq_add_of_le hle
  have hafter : c.execute respond root (least + more) =
      (c.execute respond root least).after respond (List.replicate more .pass) := by
    rw [execute_eq, execute_eq, ← after_append, List.replicate_append_replicate]
  rw [hafter, result?_eq_some.2 ⟨root', (after_done respond more hcurrent).1⟩] at hnone
  cases hnone

/-! ## Results of executions -/

/-- Of all events of an execution, only its first one starts a stage. -/
theorem eq_of_mem_execute
    (h : .start n ∈ (.start root :: List.replicate passes .pass : List Event)) :
    n = root := by
  rcases List.mem_cons.1 h with h | h
  · cases h
    rfl
  · simp at h

/-- An execution in a graph keeps what is kept there. -/
theorem Ordered.execute_founded (hclosed : Closed graph) (hroot : graph root)
    (h : c.Ordered respond graph) (hf : c.world.Founded respond graph) :
    (c.execute respond root passes).world.Founded respond graph := by
  refine (h.after hclosed _ fun k hk => ?_).2.founded h.tidy hf
  rw [eq_of_mem_execute hk]
  exact hroot

/-- The result of an execution is kept, or it is a failure that some stage has brought
about. -/
theorem Ordered.okay (h : c.Ordered respond root.Reaches)
    {result : Except StageFailure SeriesResult}
    (hcurrent : c.current = some (root, .done result)) :
    Okay respond root.Reaches c.world root [] (.done result) :=
  (h.busy root _ hcurrent).sound.okay root [] _ (.here root [] _)

private theorem execute_current {result : Except StageFailure SeriesResult}
    (hresult : (c.execute respond root passes).result? = some result) :
    (c.execute respond root passes).current = some (root, .done result) := by
  obtain ⟨root', hcurrent⟩ := result?_eq_some.1 hresult
  obtain ⟨t, hcurrent'⟩ :
      ∃ t, (c.execute respond root passes).current = some (root, t) :=
    after_current passes rfl
  rw [hcurrent'] at hcurrent
  cases hcurrent
  exact hcurrent'

/-- A result that an execution has for a stage, and that was not there before, is a
success of that stage. -/
theorem Ordered.earned (hclosed : Closed graph) (hnumbered : Numbered graph)
    (hroot : graph root) (h : c.Ordered respond graph) (hn : root.Reaches n)
    (hnone : c.world.recalled? n.id = none)
    (hr : (c.execute respond root passes).world.recalled? n.id = some r) :
    (c.execute respond root passes).world.Earned respond c.world.calls.length n r := by
  rcases h.earns passes hr with hold | ⟨n', hn', hid, hearned⟩
  · rw [hnone] at hold
    cases hold
  · have hsame := hnumbered n' n (graph_of_reaches hclosed hroot hn')
      (graph_of_reaches hclosed hroot hn) hid
    rw [← hsame]
    exact hearned

private theorem Ordered.fails (hclosed : Closed graph) (hnumbered : Numbered graph)
    (hroot : graph root) (h : c.Ordered respond graph)
    (hf : c.world.Founded respond graph) (hn : root.Reaches n)
    (hnone : c.world.recalled? n.id = none)
    (hnever : ∀ r,
      ¬ (c.execute respond root passes).world.Earned respond c.world.calls.length n r)
    (hm : root.Reaches m) (hreach : m.Reaches n) :
    (c.execute respond root passes).world.recalled? m.id = none := by
  refine Option.eq_none_iff_forall_ne_some.2 fun r hr => ?_
  obtain ⟨r', hr'⟩ := Option.isSome_iff_exists.1 (recalled_of_reaches hnumbered hclosed
    (h.execute_founded hclosed hroot hf) (graph_of_reaches hclosed hroot hm) hreach
    (by rw [hr]; rfl))
  exact hnever r' (h.earned hclosed hnumbered hroot hn hnone hr')

private theorem Ordered.asksAgain (hclosed : Closed graph) (hnumbered : Numbered graph)
    (hroot : graph root) (h : c.Ordered respond graph)
    (hf : c.world.Founded respond graph)
    (hresult : (c.execute respond root passes).result? = some (.ok r))
    {request : Request} (hn : root.Reaches n) (hwork : n.work = .ask request)
    (hnone : c.world.recalled? n.id = none) :
    ∃ k, c.world.calls.length ≤ k ∧
      (c.execute respond root passes).world.calls[k]? = some request := by
  have hconcur : Concur respond respond c.world.calls.length
      (c.execute respond root passes).world.calls := fun _ _ _ _ => rfl
  have hkept : (c.execute respond root passes).world.recalled? root.id = some r :=
    (h.execute hconcur).1.okay (execute_current hresult)
  obtain ⟨r', hr'⟩ := Option.isSome_iff_exists.1 (recalled_of_reaches hnumbered hclosed
    (h.execute_founded hclosed hroot hf) hroot hn (by rw [hkept]; rfl))
  obtain ⟨rs, -, hearned⟩ := h.earned hclosed hnumbered hroot hn hnone hr'
  rw [hwork] at hearned
  obtain ⟨k, response, hstart, hcall, -⟩ := hearned
  exact ⟨k, hstart, hcall⟩

private theorem Ordered.agrees (hclosed : Closed graph) (hnumbered : Numbered graph)
    (hroot : graph root) (h : c.Ordered respond graph)
    (hf : c.world.Founded respond graph)
    (hanswers : ∀ n request, root.Reaches n → n.work = .ask request →
      ∀ k, c.world.calls.length ≤ k → ∃ response,
        (respond k request).outcome = .ok response)
    {result : Except StageFailure SeriesResult}
    (hresult : (c.execute respond root passes).result? = some result)
    {answer : Nat → Request → Response}
    (hanswer : ∀ n request r, root.Reaches n → n.work = .ask request →
      (c.execute respond root passes).world.recalled? n.id = some r →
      answer n.id request = r.response) : Agrees (plainResult answer root) result := by
  -- Failures of the backend before this execution do not matter to it.
  have hconcur : Concur respond (mended respond c.world.calls.length)
      c.world.calls.length (c.execute respond root passes).world.calls :=
    fun k request hk _ => (mended_of_le hk).symm
  exact agrees_of_kept hclosed hnumbered
    (h.execute_founded hclosed hroot hf).mended hroot (mended_answers hanswers) hanswer
    ((h.execute hconcur).1.okay (execute_current hresult))

/-- **Executions.**  What holds of an execution, whatever has happened in the context
before. -/
theorem executes (hclosed : Closed graph) (hnumbered : Numbered graph)
    (hroot : graph root) (events : List Event)
    (hroots : ∀ root, .start root ∈ events → graph root) :
    (fresh.after respond events).Executes respond root := by
  obtain ⟨hordered, hcourse⟩ :=
    (ordered_fresh respond graph).after hclosed events hroots
  have hf := hcourse.founded tidy_fresh fun id r hr => by cases hr
  exact {
    recalls := fun r passes hr => execute_kept hr passes
    asks := hordered.asks
    earns := fun passes id r hr => hordered.earns passes hr
    fails := fun passes n hn hnone hnever m hm hreach =>
      hordered.fails hclosed hnumbered hroot hf hn hnone hnever hm hreach
    ends := hordered.ends hclosed hnumbered hroot hf
    asksAgain := fun passes r hresult n request hn hwork hnone =>
      hordered.asksAgain hclosed hnumbered hroot hf hresult hn hwork hnone
    agrees := fun hanswers passes result hresult answer hanswer =>
      hordered.agrees hclosed hnumbered hroot hf hanswers hresult hanswer }

end Context

/-! ## Runs of a compiled statement -/

/-- A backend that gives the same reply to a request each time. -/
def Constant (respond : Respond) : Prop :=
  ∀ j k request, respond j request = respond k request

private theorem Constant.shift (h : Constant respond) (number : Nat → Nat) :
    (fun k => respond (number k)) = respond := by
  funext k request
  exact h (number k) k request

/-- Runs with a constant backend are all the same. -/
theorem runs_eq_replicate (h : Constant respond) (timeout : Nat) (p : Plan)
    (times : Nat) :
    ∀ sent, p.runs respond timeout sent times =
      List.replicate times (p.run respond timeout) := by
  induction times with
  | zero => exact fun sent => rfl
  | succ times ih =>
      intro sent
      rw [Plan.runs, h.shift fun k => sent + k, ih, List.replicate_succ]

/-- Successes over a backend that always answers the same way are the same, whenever it
answers. -/
theorem Consistent.succeeds (h : Consistent respond root) (hdistinct : root.Distinct)
    (j : Nat) {deadline : Option Nat}
    (hr : (run (fun k => respond (j + k)) deadline [] root).result = some (.ok r)) :
    plainResult (fun _ => consistentAnswer respond) root = .ok r := by
  have hshift : Consistent (fun k => respond (j + k)) root :=
    fun n request hn hwork i i' => h n request hn hwork (j + i) (j + i')
  have hanswered := hshift.answered hdistinct hr
  have hagrees := hshift.agrees hanswered hdistinct hr
  have hsame : plainResult (fun _ => consistentAnswer fun k => respond (j + k)) root =
      plainResult (fun _ => consistentAnswer respond) root := by
    apply plainResult_congr
    intro n request hn hwork
    rw [consistentAnswer, consistentAnswer, h n request hn hwork (j + 0) 0]
  rw [← hsame]
  exact hagrees.eq_ok

/-- **The memo is sound.**  Executions of stages of one graph follow one another in a
context, and succeed, fail or are dropped: then the context keeps successes only, and
any execution from then on does without what is kept and asks for what is not.  Of
several contexts that share a backend, each comes to what it comes to alone, with the
replies that the backend gives it.  A compiled statement is such a graph; with a backend
that gives a request the same reply each time, all of its runs are the same, and with
one that only answers the same way, all of its successes are. -/
theorem memo_sound :
    (∀ graph : Node → Prop, Closed graph → Numbered graph →
      ∀ (respond : Respond) (events : List Event),
        (∀ root, .start root ∈ events → graph root) →
        (Context.fresh.after respond events).Kept respond graph ∧
        ∀ root,
          graph root → (Context.fresh.after respond events).Executes respond root) ∧
    (∀ (respond : Respond) (events : List (Nat × Event)) (i : Nat),
      (∃ number : Nat → Nat, (Contexts.fresh.after respond events).context i =
        Context.fresh.after (fun k => respond (number k)) (Contexts.own i events)) ∧
      (Constant respond → (Contexts.fresh.after respond events).context i =
        Context.fresh.after respond (Contexts.own i events))) ∧
    ∀ (combiners : Combiners) (now : Time.Instant) (s : Statement) (p : Plan),
      s.plan combiners now = .ok p →
      Closed p.terminal.Reaches ∧ Numbered p.terminal.Reaches ∧
      ∀ (respond : Respond) (timeout : Nat),
        (∃ passes,
          (Context.fresh.execute respond p.terminal passes).Shows
          (p.run respond timeout)) ∧
        (Constant respond → ∀ sent times, p.runs respond timeout sent times =
          List.replicate times (p.run respond timeout)) ∧
        (Consistent respond p.terminal → ∀ j j' r r',
          (p.run (fun k => respond (j + k)) timeout).result = some (.ok r) →
          (p.run (fun k => respond (j' + k)) timeout).result = some (.ok r') →
          r = r' ∧ (p.run (fun k => respond (j + k)) timeout).world.calls.Perm
            (p.run (fun k => respond (j' + k)) timeout).world.calls) := by
  refine ⟨?_, ?_, ?_⟩
  · intro graph hclosed hnumbered respond events hroots
    exact ⟨Context.kept hclosed events hroots,
      fun root hroot => Context.executes hclosed hnumbered hroot events hroots⟩
  · intro respond events i
    obtain ⟨number, hnumber⟩ := Contexts.after_context respond events i
    refine ⟨⟨number, hnumber⟩, fun hconstant => ?_⟩
    rw [hnumber, hconstant.shift number]
  · intro combiners now s p hp
    have hplanned := planned_of_plan hp
    refine ⟨hplanned.closed, hplanned.numbered, fun respond timeout => ⟨?_, ?_, ?_⟩⟩
    · exact Context.exists_shows respond (some timeout) p.terminal .fresh (.start [])
    · exact fun hconstant sent times => runs_eq_replicate hconstant timeout p times sent
    · intro hconsistent j j' r r' hr hr'
      have hplain := hconsistent.succeeds hplanned.numbered j hr
      have hplain' := hconsistent.succeeds hplanned.numbered j' hr'
      rw [hplain, Except.ok.injEq] at hplain'
      exact ⟨hplain',
        (run_calls_perm hplanned hr).trans (run_calls_perm hplanned hr').symm⟩

/-- A run that succeeds within some passes succeeds. -/
theorem run_succeeds {deadline : Option Nat}
    (h : (proceedFor respond deadline root passes .fresh
      (.start [])).any (fun o => o.result.any Except.isOk) = true) :
    ∃ r, (run respond deadline [] root).result = some (.ok r) := by
  obtain ⟨o, ho, h⟩ := (Option.any_eq_true _ _).1 h
  obtain ⟨result, hresult, h⟩ := (Option.any_eq_true _ _).1 h
  cases result with
  | error e => cases h
  | ok r => exact ⟨r, by rw [run, proceed_eq_of_proceedFor passes ho, hresult]⟩

/-- A backend that answers all requests but its second one, each later than the one
before. -/
def failsOnce (k : Nat) (_ : Request) : Reply :=
  ⟨k + 1, if k = 1 then .error .timedOut else .ok ⟨[], []⟩⟩

private theorem failsOnce_eq_ok {k : Nat} {request : Request} {response : Response}
    (h : (failsOnce k request).outcome = .ok response) : response = ⟨[], []⟩ := by
  rw [failsOnce] at h
  split at h
  · cases h
  · cases h
    rfl

/-- A statement that joins two requests. -/
def twoRequests : Statement :=
  ⟨[⟨some "a", .select ⟨"cpu", none, [], []⟩, ⟨1, 1⟩⟩,
    ⟨some "b", .select ⟨"mem", none, [], []⟩, ⟨1, 17⟩⟩,
    ⟨none, .aggregate ⟨"union", some ["a", "b"], []⟩, ⟨1, 33⟩⟩]⟩

/-- A union of two requests, the second of which fails when it is made for the first
time: the next execution in the context asks for stages without a result only, and
succeeds.  In contexts of their own, with a backend that always answers, the statement
comes to the same each time. -/
theorem memo_sound_retried :
    ∃ p e r c c', twoRequests.plan .standard ⟨0, 0⟩ = .ok p ∧
      c = Context.fresh.execute failsOnce p.terminal 3 ∧
      c' = c.execute failsOnce p.terminal 2 ∧
      c.result? = some (.error e) ∧ c.world.recalled? p.terminal.id = none ∧
      c'.result? = some (.ok r) ∧ plainResult (fun _ _ => ⟨[], []⟩) p.terminal = .ok r ∧
      (∃ ns, c'.world.calls = c.world.calls ++ requestsOf ns ∧
        ∀ n ∈ ns, c.world.recalled? n.id = none) ∧
      p.runs (fun _ _ => ⟨1, .ok ⟨[], []⟩⟩) 9 0 3 =
        List.replicate 3 (p.run (fun _ _ => ⟨1, .ok ⟨[], []⟩⟩) 9) ∧
      (p.run (fun k _ => ⟨0 + k, .ok ⟨[], []⟩⟩) 9).result =
        (p.run (fun k _ => ⟨2 + k, .ok ⟨[], []⟩⟩) 9).result := by
  have hcheck : (twoRequests.plan .standard ⟨0, 0⟩).toOption.any (fun p =>
      (Context.fresh.execute failsOnce p.terminal 3).result?.any (fun r => !r.isOk) &&
      (2 ≤ (Context.fresh.execute failsOnce p.terminal 3).world.calls.length &&
      (((Context.fresh.execute failsOnce p.terminal 3).execute failsOnce p.terminal
        2).result?.any Except.isOk &&
      [0, 2].all fun j =>
        (proceedFor (fun k _ => ⟨j + k, .ok ⟨[], []⟩⟩) (some 9) p.terminal 3
        .fresh (.start [])).any fun o => o.result.any Except.isOk))) = true := by
          decide +kernel
  cases hp : twoRequests.plan .standard ⟨0, 0⟩ with
  | error f =>
      rw [hp] at hcheck
      cases hcheck
  | ok p =>
      obtain ⟨hhistory, -, hplan⟩ := memo_sound
      obtain ⟨hclosed, hnumbered, hruns⟩ := hplan .standard ⟨0, 0⟩ _ p hp
      have hroots : ∀ passes root,
          .start root ∈
          (.start p.terminal :: List.replicate passes .pass : List Event) →
          p.terminal.Reaches root := by
        intro passes root hmem
        rw [Context.eq_of_mem_execute hmem]
        exact .refl _
      obtain ⟨c, hc⟩ : ∃ c, c = Context.fresh.execute failsOnce p.terminal 3 := ⟨_, rfl⟩
      obtain ⟨c', hc'⟩ : ∃ c', c' = c.execute failsOnce p.terminal 2 := ⟨_, rfl⟩
      rw [hp] at hcheck
      simp only [Except.toOption, Option.any_some, ← hc, ← hc', Bool.and_eq_true,
        decide_eq_true_eq, Option.any_eq_true] at hcheck
      obtain ⟨⟨result, hresult, hfailed⟩, hcalls, ⟨result', hresult', hok⟩,
          hall⟩ := hcheck
      obtain ⟨e, rfl⟩ : ∃ e, result = .error e := by
        cases result with
        | ok r => cases hfailed
        | error e => exact ⟨e, rfl⟩
      obtain ⟨r, rfl⟩ : ∃ r, result' = .ok r := by
        cases result' with
        | ok r => exact ⟨r, rfl⟩
        | error e => cases hok
      obtain ⟨hkept, hexecutes⟩ : c.Kept failsOnce p.terminal.Reaches ∧
          ∀ root, p.terminal.Reaches root → c.Executes failsOnce root := by
        rw [hc]
        exact hhistory p.terminal.Reaches hclosed hnumbered failsOnce _ (hroots 3)
      obtain ⟨hkept', -⟩ : c'.Kept failsOnce p.terminal.Reaches ∧
          ∀ root, p.terminal.Reaches root → c'.Executes failsOnce root := by
        have hafter : c' = Context.fresh.after failsOnce
            ((.start p.terminal :: List.replicate 3 .pass) ++
              (.start p.terminal :: List.replicate 2 .pass)) := by
          rw [hc', hc, Context.after_append]
          rfl
        rw [hafter]
        refine hhistory p.terminal.Reaches hclosed hnumbered failsOnce
          _ fun root hmem => ?_
        rcases List.mem_append.1 hmem with hmem | hmem
        · exact hroots 3 root hmem
        · exact hroots 2 root hmem
      have hplain : Agrees (plainResult (fun _ _ => ⟨[], []⟩) p.terminal) (.ok r) := by
        refine (hexecutes p.terminal (.refl _)).agrees ?_ 2 (.ok r)
          (hc' ▸ hresult') _ ?_
        · intro n request _ _ k hk
          exact ⟨⟨[], []⟩, by rw [failsOnce, if_neg (by omega)]⟩
        · intro n request r' hn hwork hr'
          rw [← hc'] at hr'
          obtain ⟨n', hn', hid, rs, -, hearned⟩ := hkept'.earned n.id r' hr'
          have hsame := hnumbered n' n hn' hn hid
          subst hsame
          rw [hwork] at hearned
          obtain ⟨k, response, -, -, houtcome, rfl⟩ := hearned
          rw [failsOnce_eq_ok houtcome]
          rfl
      obtain ⟨ns, hns, hnone⟩ := (hexecutes p.terminal (.refl _)).asks 2
      simp only [List.all_cons, List.all_nil, Bool.and_true, Bool.and_eq_true] at hall
      obtain ⟨r₀, hr₀⟩ := run_succeeds hall.1
      obtain ⟨r₂, hr₂⟩ := run_succeeds hall.2
      obtain ⟨hsame, -⟩ :=
        (hruns (fun k _ => ⟨k, .ok ⟨[], []⟩⟩) 9).2.2 (fun _ _ _ _ _ _ => rfl) 0 2
        r₀ r₂ hr₀ hr₂
      refine ⟨p, e, r, c, c', rfl, hc, hc', hresult, ?_, hresult', ?_,
        ⟨ns, ?_, ?_⟩, ?_, ?_⟩
      · refine hkept.failed p.terminal e ?_
        rw [hc] at hresult ⊢
        exact Context.execute_current hresult
      · exact hplain.eq_ok
      · rw [hc']
        exact hns
      · exact fun n hn => (hnone n hn).2
      · exact (hruns (fun _ _ => ⟨1, .ok ⟨[], []⟩⟩) 9).2.1 (fun _ _ _ => rfl) 0 3
      · rw [Plan.run, Plan.run, hr₀, hr₂, hsame]

end SeriesQuery.Execution
