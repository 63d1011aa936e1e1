import SeriesQuery.Execution.Plain
import SeriesQuery.Proofs.Plan.Sharing
import SeriesQuery.Proofs.Execution.Ending

/-!
# Runs agree with results without sharing

When a run ends, every result that is kept is founded on others that are kept, so it is
what working its stage out without sharing gives, with the answers that have come in.
The result of the last stage is kept, or it is a failure that some stage has brought
about.  If the backend answers every request, only a threshold can fail, and then
working out the last stage without sharing fails too.  None of this depends on when
replies come in.

## Main results

* `plainResult_of_recall`: a result that is kept is the result without sharing.
* `runs_agree`: a run gives the result without sharing, or an evaluation error if there
  is none.
-/

namespace SeriesQuery.Execution

open SeriesQuery.Backend (Request Response)
open World

variable {respond : Respond} {graph : Node → Prop} {w : World} {root n m : Node}
  {answer answer' : Nat → Request → Response} {rs : List SeriesResult}
  {r : SeriesResult}

/-! ## Results without sharing -/

theorem plainResult_eq : plainResult answer n =
    plainResults answer n.inputs >>= workResult (answer n.id) n.work := by
  cases n with
  | mk id name work inputs => rw [plainResult]; rfl

theorem plainResults_eq_ok {ns : List Node} :
    plainResults answer ns = .ok rs ↔
      List.Forall₂ (fun n r => plainResult answer n = .ok r) ns rs := by
  induction ns generalizing rs with
  | nil =>
      rw [plainResults]
      constructor
      · intro h
        cases h
        exact .nil
      · intro h
        cases h
        rfl
  | cons n ns ih =>
      rw [plainResults]
      constructor
      · intro h
        obtain ⟨r, hr, h⟩ := Fallible.bind_eq_ok_iff.1 h
        obtain ⟨rs', hrs', h⟩ := Fallible.bind_eq_ok_iff.1 h
        cases h
        exact .cons hr (ih.1 hrs')
      · intro h
        cases h with
        | cons hr hrs =>
            rw [hr, ih.2 hrs]
            rfl

/-- When a stage has a result without sharing, so has every stage that it needs. -/
theorem plainResult_of_reaches (h : root.Reaches n)
    (hr : plainResult answer root = .ok r) : ∃ r', plainResult answer n = .ok r' := by
  induction h generalizing r with
  | refl n => exact ⟨r, hr⟩
  | input hm _ ih =>
      rw [plainResult_eq] at hr
      obtain ⟨rs, hrs, -⟩ := Fallible.bind_eq_ok_iff.1 hr
      have hall := plainResults_eq_ok.1 hrs
      obtain ⟨i, hi, rfl⟩ := List.mem_iff_getElem.1 hm
      exact ih
        ((List.forall₂_iff_get.1 hall).2 i hi (by rw [← hall.length_eq]; exact hi))

mutual

/-- Only the answers to stages that are needed count. -/
theorem plainResult_congr : (n : Node) →
    (∀ k request, n.Reaches k → k.work = .ask request →
      answer k.id request = answer' k.id request) →
    plainResult answer n = plainResult answer' n
  | .mk id name work inputs, h => by
      rw [plainResult, plainResult,
        plainResults_congr inputs fun m hm k request hk hwork =>
          h k request (.input hm hk) hwork]
      cases work with
      | combine c => rfl
      | ask request =>
          have hsame : answer id request = answer' id request :=
            h (.mk id name (.ask request) inputs) request (.refl _) rfl
          cases plainResults answer' inputs with
          | error e => rfl
          | ok rs =>
              show workResult (answer id) (.ask request) rs =
                workResult (answer' id) (.ask request) rs
              rw [workResult, workResult, hsame]

/-- The same of several stages. -/
theorem plainResults_congr : (ns : List Node) →
    (∀ m ∈ ns, ∀ k request, m.Reaches k → k.work = .ask request →
      answer k.id request = answer' k.id request) →
    plainResults answer ns = plainResults answer' ns
  | [], _ => by rw [plainResults, plainResults]
  | n :: ns, h => by
      rw [plainResults, plainResults, plainResult_congr n (h n List.mem_cons_self),
        plainResults_congr ns fun m hm => h m (List.mem_cons_of_mem _ hm)]

end

/-! ## Results that are kept -/

/-- The answers that the kept results of a run show; for the others, what the backend
would say. -/
def replayed (respond : Respond) (w : World) (id : Nat)
    (request : Request) : Response :=
  match w.recalled? id with
  | some r => r.response
  | none =>
    match (respond 0 request).outcome with
    | .ok response => response
    | .error _ => .empty

/-- **Agreement.**  A result that is kept is the result without sharing. -/
theorem plainResult_of_recall (hclosed : Closed graph) (hnumbered : Numbered graph)
    (hf : w.Founded respond graph) :
    ∀ size n r, cost n < size → graph n → w.recalled? n.id = some r →
      plainResult (replayed respond w) n = .ok r := by
  intro size
  induction size with
  | zero => intro n r hsize; omega
  | succ size ih =>
      intro n r hsize hn hr
      obtain ⟨n', hn', hid, rs, hrs, hgives⟩ := hf n.id r hr
      have hsame := hnumbered n' n hn' hn hid
      subst hsame
      have hinputs : plainResults (replayed respond w) n'.inputs = .ok rs := by
        refine plainResults_eq_ok.2
          (((List.forall₂_and_left _ _).2 ⟨fun m hm => hm, hrs⟩).imp ?_)
        rintro m r' ⟨hm, hr'⟩
        have hcost := cost_lt_of_mem hm
        exact ih m r' (by omega) (hclosed n' hn' m hm) hr'
      rw [plainResult_eq, hinputs]
      show workResult (replayed respond w n'.id) n'.work rs = .ok r
      cases hwork : n'.work with
      | combine c =>
          rw [hwork] at hgives
          exact hgives
      | ask request =>
          rw [hwork] at hgives
          obtain ⟨k, hk⟩ := hgives
          have hresponse : r = .ofResponse r.response := by
            cases houtcome : (respond k request).outcome with
            | error fault =>
                rw [houtcome] at hk
                cases hk
            | ok response =>
                rw [houtcome] at hk
                cases hk
                rfl
          rw [workResult, replayed, hr]
          exact congrArg Except.ok hresponse.symm

/-- What a result that is kept is founded on is kept as well. -/
theorem recalled_of_reaches (hnumbered : Numbered graph) (hclosed : Closed graph)
    (hf : w.Founded respond graph) (hn : graph n) (hreach : n.Reaches m)
    (hr : (w.recalled? n.id).isSome = true) : (w.recalled? m.id).isSome = true := by
  induction hreach with
  | refl n => exact hr
  | input hm _ ih =>
      obtain ⟨r, hr⟩ := Option.isSome_iff_exists.1 hr
      obtain ⟨n', hn', hid, rs, hrs, -⟩ := hf _ r hr
      have hsame := hnumbered n' _ hn' hn hid
      subst hsame
      obtain ⟨i, hi, rfl⟩ := List.mem_iff_getElem.1 hm
      have hkept :=
        (List.forall₂_iff_get.1 hrs).2 i hi (by rw [← hrs.length_eq]; exact hi)
      rw [List.get_eq_getElem] at hkept
      exact ih (hclosed _ hn _ hm) (by rw [hkept]; rfl)

/-- Kept results of inputs are their results without sharing. -/
theorem plainResults_of_recalls (hclosed : Closed graph) (hnumbered : Numbered graph)
    (hf : w.Founded respond graph) (hn : graph n) (hrs : w.Recalls n.inputs rs) :
    plainResults (replayed respond w) n.inputs = .ok rs := by
  refine plainResults_eq_ok.2
    (((List.forall₂_and_left _ _).2 ⟨fun m hm => hm, hrs⟩).imp ?_)
  rintro m r ⟨hm, hr⟩
  exact plainResult_of_recall hclosed hnumbered hf _ m r (Nat.lt_succ_self _)
    (hclosed n hn m hm) hr

/-! ## Backends that answer -/

/-- A backend answers every request of the stages that a stage needs, whenever it is
asked. -/
def Answered (respond : Respond) (root : Node) : Prop :=
  ∀ n request, root.Reaches n → n.work = .ask request →
    ∀ k, ∃ response, (respond k request).outcome = .ok response

/-- All answers to the stages that a stage needs are answers of the backend. -/
def Replies (respond : Respond) (root : Node)
    (answer : Nat → Request → Response) : Prop :=
  ∀ n request, root.Reaches n → n.work = .ask request →
    ∃ k, (respond k request).outcome = .ok (answer n.id request)

/-- A result says the same as the result without sharing: all of it when there is one,
and else that a stage could not be evaluated. -/
def Agrees (plain result : Except StageFailure SeriesResult) : Prop :=
  match plain with
  | .ok r => result = .ok r
  | .error _ => ∃ message, result = .error (.evaluation message)

theorem closed_reaches (root : Node) : Closed root.Reaches :=
  fun _ hn _ hm => hn.trans (.input hm (.refl _))

/-- What a run shows is what the backend has answered. -/
theorem replies_replayed (hnumbered : Numbered root.Reaches)
    (hf : w.Founded respond root.Reaches) (hanswered : Answered respond root) :
    Replies respond root (replayed respond w) := by
  intro n request hn hwork
  unfold replayed
  cases hr : w.recalled? n.id with
  | some r =>
      obtain ⟨n', hn', hid, rs, hrs, hgives⟩ := hf n.id r hr
      have hsame := hnumbered n' n hn' hn hid
      subst hsame
      rw [hwork] at hgives
      obtain ⟨k, hk⟩ := hgives
      obtain ⟨response, hresponse⟩ := hanswered n' request hn hwork k
      rw [hresponse] at hk
      cases hk
      exact ⟨k, hresponse⟩
  | none =>
      obtain ⟨response, hresponse⟩ := hanswered n request hn hwork 0
      rw [hresponse]
      exact ⟨0, hresponse⟩

/-- Combining results fails only in evaluating a threshold. -/
theorem combine_eq_error {c : Combination} {e : StageFailure}
    (h : combine c rs = .error e) : ∃ message, e = .evaluation message := by
  cases c with
  | union => cases h
  | threshold t =>
      rw [combine] at h
      cases heval : t.evaluate rs with
      | ok r =>
          rw [heval] at h
          cases h
      | error message =>
          rw [heval] at h
          cases h
          exact ⟨message, rfl⟩

/-- A failure that a stage has brought about is an evaluation error, and then the last
stage has no result without sharing either. -/
theorem exists_plainResult_error (hnumbered : Numbered root.Reaches)
    (hf : w.Founded respond root.Reaches) (hanswered : Answered respond root)
    {e : StageFailure} (hn : root.Reaches n) (hgives : w.Gives respond n (.error e)) :
    (∃ message, e = .evaluation message) ∧
      ∃ e', plainResult (replayed respond w) root = .error e' := by
  obtain ⟨rs, hrs, hgives⟩ := hgives
  have hinputs := plainResults_of_recalls (closed_reaches root) hnumbered hf hn hrs
  cases hwork : n.work with
  | ask request =>
      rw [hwork] at hgives
      obtain ⟨k, hk⟩ := hgives
      obtain ⟨response, hresponse⟩ := hanswered n request hn hwork k
      rw [hresponse] at hk
      cases hk
  | combine c =>
      rw [hwork] at hgives
      refine ⟨combine_eq_error hgives, ?_⟩
      have hplain : plainResult (replayed respond w) n = .error e := by
        rw [plainResult_eq, hinputs, hwork]
        exact hgives
      cases hroot : plainResult (replayed respond w) root with
      | error e' => exact ⟨e', rfl⟩
      | ok r =>
          obtain ⟨r', hr'⟩ := plainResult_of_reaches hn hroot
          rw [hplain] at hr'
          cases hr'

/-- A run that has ended with a result agrees with the result without sharing. -/
theorem Ended.agrees {deadline : Option Nat} {o : Outcome}
    (h : Ended respond root.Reaches root deadline o) (hnumbered : Numbered root.Reaches)
    (hanswered : Answered respond root) {result : Except StageFailure SeriesResult}
    (hresult : o.result = some result) :
    Agrees (plainResult (replayed respond o.world) root) result := by
  have hokay := h.okay result hresult
  cases result with
  | ok r =>
      rw [plainResult_of_recall (closed_reaches root) hnumbered h.founded _ root r
        (Nat.lt_succ_self _) (.refl root) hokay]
      exact rfl
  | error e =>
      obtain ⟨n, hn, hgives⟩ := hokay
      obtain ⟨⟨message, rfl⟩, e', he'⟩ :=
        exists_plainResult_error hnumbered h.founded hanswered hn hgives
      rw [he']
      exact ⟨message, rfl⟩

/-- **Agreement of runs.**  Stages of a compiled plan have one number each, and for any
such graph and any backend that answers its requests, sooner or later, a run ends
without a deadline.  Whenever it ends, with a deadline or without, its result agrees
with the result without sharing: for the answers that the backend has given in this run,
and so for the answers of a backend that always gives the same.  A plan adds to a
success its own warnings, after those of the run. -/
theorem runs_agree :
    (∀ (combiners : Combiners) (now : Time.Instant) (s : Statement) (p : Plan),
      s.plan combiners now = .ok p → p.terminal.Distinct) ∧
    ∀ (respond : Respond) (root : Node), root.Distinct → Answered respond root →
      (run respond none [] root).result ≠ none ∧
      ∀ deadline result, (run respond deadline [] root).result = some result →
        (∃ answer,
          Replies respond root answer ∧ Agrees (plainResult answer root) result) ∧
        (∀ answer : Request → Response,
          (∀ n request, root.Reaches n → n.work = .ask request →
            ∀ k, (respond k request).outcome = .ok (answer request)) →
          Agrees (plainResult (fun _ => answer) root) result) ∧
        ∀ (p : Plan) (timeout : Nat), p.terminal = root → deadline = some timeout →
          p.outcome timeout (p.run respond timeout) =
            match result with
            | .ok r => .ok { r with warnings := r.warnings ++ p.warnings }
            | .error e => .error (.stage e) := by
  refine ⟨fun combiners now s p hp => Statement.plan_distinct hp, ?_⟩
  intro respond root hdistinct hanswered
  have hnumbered : Numbered root.Reaches := hdistinct
  have hfounded : (World.start []).Founded respond root.Reaches := by
    intro id r hr
    cases hr
  have hended := run_ended (closed_reaches root) hnumbered (.refl root) hfounded
  refine ⟨fun hnone => (hended none).ends hnone rfl, ?_⟩
  intro deadline result hresult
  have hagrees := (hended deadline).agrees hnumbered hanswered hresult
  have hreplies := replies_replayed hnumbered (hended deadline).founded hanswered
  refine ⟨⟨_, hreplies, hagrees⟩, ?_, ?_⟩
  · intro answer hanswer
    have hsame : plainResult
        (replayed respond (run respond deadline [] root).world) root =
        plainResult (fun _ => answer) root := by
      apply plainResult_congr
      intro n request hn hwork
      obtain ⟨k, hk⟩ := hreplies n request hn hwork
      rw [hanswer n request hn hwork k] at hk
      exact (Except.ok.inj hk).symm
    rw [← hsame]
    exact hagrees
  · rintro p timeout rfl rfl
    rw [Plan.outcome, Plan.run, hresult]
    cases result with
    | ok r => rfl
    | error e => rfl

/-- A request shared by two unions and read again beside them, asked of a backend whose
replies take the longer the earlier they are asked for. -/
theorem runs_agree_shared :
    ∃ p r, Statement.plan .standard ⟨0, 0⟩
        ⟨[⟨some "a", .select ⟨"cpu", none, [], []⟩, ⟨1, 1⟩⟩,
          ⟨some "b", .select ⟨"mem", none, [], []⟩, ⟨1, 17⟩⟩,
          ⟨some "u", .aggregate ⟨"union", some ["a", "b", "a"], []⟩, ⟨1, 33⟩⟩,
          ⟨some "v", .aggregate ⟨"union", some ["b", "a"], []⟩, ⟨1, 57⟩⟩,
          ⟨none, .aggregate ⟨"union", some ["v", "a", "u"], []⟩, ⟨1, 78⟩⟩]⟩ = .ok p ∧
      plainResult (fun _ _ => ⟨[⟨0, [], []⟩], []⟩) p.terminal = .ok r ∧
      (run (fun k _ => ⟨9 - k, .ok ⟨[⟨0, [], []⟩], []⟩⟩) none [] p.terminal).result =
        some (.ok r) := by
  -- Said of any statement, so that this one is worked out only for its plan and its
  -- result.
  have hrun : ∀ s : Statement,
      (∃ p r, s.plan .standard ⟨0, 0⟩ = .ok p ∧
        plainResult (fun _ _ => ⟨[⟨0, [], []⟩], []⟩) p.terminal = .ok r) →
      ∃ p r, s.plan .standard ⟨0, 0⟩ = .ok p ∧
        plainResult (fun _ _ => ⟨[⟨0, [], []⟩], []⟩) p.terminal = .ok r ∧
        (run (fun k _ => ⟨9 - k, .ok ⟨[⟨0, [], []⟩], []⟩⟩) none [] p.terminal).result =
          some (.ok r) := by
    rintro s ⟨p, r, hp, hr⟩
    obtain ⟨hends, hall⟩ :=
      runs_agree.2 (fun k _ => ⟨9 - k, .ok ⟨[⟨0, [], []⟩], []⟩⟩) p.terminal
      (runs_agree.1 .standard ⟨0, 0⟩ s p hp) (fun _ _ _ _ _ => ⟨_, rfl⟩)
    obtain ⟨result, hresult⟩ := Option.ne_none_iff_exists'.1 hends
    have hagrees := (hall none result hresult).2.1 (fun _ => ⟨[⟨0, [], []⟩], []⟩)
      (fun _ _ _ _ _ => rfl)
    rw [hr] at hagrees
    refine ⟨p, r, hp, hr, ?_⟩
    rw [hresult]
    exact congrArg some hagrees
  exact hrun _ ⟨_, _, rfl, rfl⟩

end SeriesQuery.Execution
