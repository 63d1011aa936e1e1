import SeriesQuery.Proofs.Execution.Agreement
import SeriesQuery.Proofs.Result.Concat

/-!
# Unions can be left out

A union among the inputs of a stage can be replaced by what it reads, wherever it stands
in the list: putting results together does not depend on how they are grouped, and a
threshold sees the same points.  So the stages of a plan keep their results without
sharing, and with them what runs of the plan come to, if only the backend answers a
request the same way each time it is asked.

## Main results

* `plainResult_splice`: leaving a union out changes no result without sharing, and no
  error.
* `Node.Distinct.splice`: stages of one number stay one stage.
* `splice_runs`: what a successful run gives, the plan without the union gives too.
* `unions_transparent`: putting results together is a monoid, and unions are
  transparent.
-/

namespace SeriesQuery

open SeriesQuery.Backend (Request Response)

/-! ## Leaving a union out -/

/-- What takes the place of a stage that is left out: what it reads, if it is a
union. -/
def Node.expanded : Node → List Node
  | mk _ _ (.combine .union) inputs => inputs
  | n => [n]

/-- Some inputs, with what the union at place `k` reads instead of that union. -/
def expandAt (k : Nat) (ns : List Node) : List Node :=
  ns.take k ++ ns[k]?.elim [] Node.expanded ++ ns.drop (k + 1)

mutual

/-- A plan in which the stage of number `i` reads, instead of the union at place `k`
among its inputs, what this union reads. -/
def Node.splice (i k : Nat) : Node → Node
  | mk id name work inputs =>
    mk id name work
      (if id = i then expandAt k (Node.spliceAll i k inputs)
        else Node.spliceAll i k inputs)

/-- The same of several stages. -/
def Node.spliceAll (i k : Nat) : List Node → List Node
  | [] => []
  | n :: ns => n.splice i k :: Node.spliceAll i k ns

end

namespace Node

variable {i k : Nat} {n m : Node} {ns : List Node}

private theorem spliceAll_eq (ns : List Node) :
    spliceAll i k ns = ns.map (splice i k) := by
  induction ns with
  | nil => rw [spliceAll, List.map_nil]
  | cons n ns ih => rw [spliceAll, List.map_cons, ih]

private theorem splice_id (n : Node) : (n.splice i k).id = n.id := by
  cases n with
  | mk id name work inputs => rw [splice]; rfl

private theorem splice_work (n : Node) : (n.splice i k).work = n.work := by
  cases n with
  | mk id name work inputs => rw [splice]; rfl

private theorem splice_inputs (n : Node) : (n.splice i k).inputs =
    if n.id = i then expandAt k (n.inputs.map (splice i k))
    else n.inputs.map (splice i k) := by
  cases n with
  | mk id name work inputs =>
      rw [splice, spliceAll_eq]
      rfl

private theorem expanded_eq (n : Node) :
    n.expanded = [n] ∨ n.work = .combine .union ∧ n.expanded = n.inputs := by
  cases n with
  | mk id name work inputs =>
      cases work with
      | ask request => exact Or.inl rfl
      | combine c =>
          cases c with
          | union => exact Or.inr ⟨rfl, rfl⟩
          | threshold t => exact Or.inl rfl

/-- Nothing is left out, or a union is. -/
theorem expandAt_cases (k : Nat) (ns : List Node) :
    expandAt k ns = ns ∨ ∃ before u after, ns = before ++ u :: after ∧
      u.work = .combine .union ∧ expandAt k ns = before ++ u.inputs ++ after := by
  unfold expandAt
  cases hu : ns[k]? with
  | none =>
      have hle := List.getElem?_eq_none_iff.1 hu
      left
      rw [List.take_of_length_le hle, List.drop_of_length_le (Nat.le_succ_of_le hle)]
      simp
  | some u =>
      have hsplit : ns = ns.take k ++ u :: ns.drop (k + 1) := by
        obtain ⟨hk, rfl⟩ := List.getElem?_eq_some_iff.1 hu
        rw [List.getElem_cons_drop, List.take_append_drop]
      rcases u.expanded_eq with hkept | ⟨hunion, hinputs⟩
      · left
        rw [Option.elim_some, hkept, List.append_assoc, List.singleton_append, ← hsplit]
      · right
        exact ⟨_, u, _, hsplit, hunion, by rw [Option.elim_some, hinputs]⟩

/-! ## What a plan needs without the union -/

mutual

/-- What a stage reads without the union are stages that it needed, each without the
union. -/
theorem exists_of_mem_splice_inputs : (n : Node) → ∀ m ∈ (n.splice i k).inputs,
    ∃ l, n.Reaches l ∧ m = l.splice i k
  | mk id name work inputs => by
      have hall := exists_of_mem_splice_all inputs
      intro m hm
      have hkept : ∀ l ∈ inputs.map (splice i k),
          ∃ l', (mk id name work inputs).Reaches l' ∧ l = l'.splice i k := by
        intro l hl
        obtain ⟨l', hl', rfl⟩ := List.mem_map.1 hl
        exact ⟨l', .input hl' (.refl l'), rfl⟩
      rw [splice_inputs] at hm
      split at hm
      · rcases expandAt_cases k ((mk id name work inputs).inputs.map (splice i k)) with
          heq | ⟨before, u, after, hsplit, -, heq⟩
        · rw [heq] at hm
          exact hkept m hm
        · rw [heq] at hm
          have hmem : ∀ l, l ∈ before ++ u :: after → l ∈ inputs.map (splice i k) :=
            fun l hl => hsplit ▸ hl
          rcases List.mem_append.1 hm with hm | hafter
          · rcases List.mem_append.1 hm with hbefore | hinput
            · exact hkept m (hmem m (List.mem_append_left _ hbefore))
            · obtain ⟨u', hu', rfl⟩ := List.mem_map.1 (hmem u (by simp))
              obtain ⟨l, hl, rfl⟩ := hall u' hu' m hinput
              exact ⟨l, .input hu' hl, rfl⟩
          · exact hkept m (hmem m (by simp [hafter]))
      · exact hkept m hm

/-- The same of several stages. -/
theorem exists_of_mem_splice_all : (ns : List Node) →
    ∀ n ∈ ns, ∀ m ∈ (n.splice i k).inputs, ∃ l, n.Reaches l ∧ m = l.splice i k
  | [] => fun n hn => by cases hn
  | n :: ns => by
      have hhead := exists_of_mem_splice_inputs n
      have htail := exists_of_mem_splice_all ns
      intro l hl
      rcases List.mem_cons.1 hl with rfl | hl
      · exact hhead
      · exact htail l hl

end

/-- What a plan needs without the union is what it needed, each stage without the
union. -/
theorem exists_of_splice_reaches {a b : Node} (h : a.Reaches b) :
    ∀ {n : Node}, a = n.splice i k → ∃ m : Node, n.Reaches m ∧ b = m.splice i k := by
  induction h with
  | refl a =>
      rintro n rfl
      exact ⟨n, .refl n, rfl⟩
  | input hmem _ ih =>
      rintro n rfl
      obtain ⟨l, hl, rfl⟩ := exists_of_mem_splice_inputs n _ hmem
      obtain ⟨m, hm, rfl⟩ := ih rfl
      exact ⟨m, hl.trans hm, rfl⟩

/-- Stages of one number stay one stage. -/
theorem Distinct.splice (h : n.Distinct) (i k : Nat) : (n.splice i k).Distinct := by
  intro a b ha hb hid
  obtain ⟨a', ha', rfl⟩ := exists_of_splice_reaches ha rfl
  obtain ⟨b', hb', rfl⟩ := exists_of_splice_reaches hb rfl
  rw [splice_id, splice_id] at hid
  rw [h a' b' ha' hb' hid]

end Node

namespace Execution

variable {respond : Respond} {graph : Node → Prop} {w : World} {root n m : Node}
  {i k : Nat} {answer : Nat → Request → Response} {answer' : Request → Response}
  {ns xs ys : List Node} {r : SeriesResult}

/-! ## Results without sharing -/

private theorem plainResults_append : plainResults answer (xs ++ ys) = do
    let rs ← plainResults answer xs
    let rs' ← plainResults answer ys
    return rs ++ rs' := by
  induction xs with
  | nil =>
      rw [List.nil_append, plainResults]
      cases plainResults answer ys <;> rfl
  | cons n xs ih =>
      rw [List.cons_append, plainResults, plainResults, ih]
      cases plainResult answer n with
      | error e => rfl
      | ok r =>
          cases plainResults answer xs with
          | error e => rfl
          | ok rs => cases plainResults answer ys <;> rfl

/-- The work of a stage does not depend on how the results of its inputs are grouped. -/
theorem workResult_grouped (work : Work) (rs rs' rs'' : List SeriesResult) :
    workResult answer' work (rs ++ SeriesResult.concat rs' :: rs'') =
      workResult answer' work (rs ++ rs' ++ rs'') := by
  cases work with
  | ask request => rfl
  | combine c =>
      cases c with
      | union => exact congrArg Except.ok (SeriesResult.concat_grouped rs rs' rs'')
      | threshold t =>
          show combine (.threshold t) _ = combine (.threshold t) _
          rw [combine, combine, t.evaluate_grouped]

private theorem plainResult_union (hu : m.work = .combine .union) :
    plainResult answer m = (plainResults answer m.inputs).map SeriesResult.concat := by
  rw [plainResult_eq, hu]
  cases plainResults answer m.inputs <;> rfl

/-- A stage comes to the same when a union among its inputs is left out. -/
theorem plainResults_expandAt (work : Work) (ns : List Node) :
    plainResults answer (expandAt k ns) >>= workResult answer' work =
      plainResults answer ns >>= workResult answer' work := by
  rcases Node.expandAt_cases k ns with heq | ⟨before, u, after, rfl, hunion, heq⟩
  · rw [heq]
  · rw [heq, plainResults_append, plainResults_append, plainResults_append,
      plainResults, plainResult_union hunion]
    cases plainResults answer before with
    | error e => rfl
    | ok rs =>
        cases plainResults answer u.inputs with
        | error e => rfl
        | ok rs' =>
            cases plainResults answer after with
            | error e => rfl
            | ok rs'' => exact (workResult_grouped work rs rs' rs'').symm

mutual

/-- **Transparency.**  A stage has the same result without sharing, or the same
error. -/
theorem plainResult_splice : (n : Node) →
    plainResult answer (n.splice i k) = plainResult answer n
  | .mk id name work inputs => by
      rw [Node.splice, plainResult, plainResult]
      split
      · rw [plainResults_expandAt, plainResults_splice inputs]
      · rw [plainResults_splice inputs]

/-- The same of several stages. -/
theorem plainResults_splice : (ns : List Node) →
    plainResults answer (Node.spliceAll i k ns) = plainResults answer ns
  | [] => by rw [Node.spliceAll]
  | n :: ns => by
      rw [Node.spliceAll, plainResults, plainResults, plainResult_splice n,
        plainResults_splice ns]

end

/-! ## Runs -/

/-- A backend answers a request of the stages that a stage needs the same way each
time. -/
def Consistent (respond : Respond) (root : Node) : Prop :=
  ∀ n request, root.Reaches n → n.work = .ask request →
    ∀ j j', (respond j request).outcome = (respond j' request).outcome

/-- A run of a plan that starts with no results comes to an end. -/
theorem run_ended_fresh (respond : Respond) (hdistinct : root.Distinct)
    (deadline : Option Nat) :
    Ended respond root.Reaches root deadline (run respond deadline [] root) := by
  refine run_ended (closed_reaches root) hdistinct (.refl root) ?_ deadline
  intro id r hr
  cases hr

/-- What a backend that always answers the same way answers, if it answers. -/
def consistentAnswer (respond : Respond) (request : Request) : Response :=
  match (respond 0 request).outcome with
  | .ok response => response
  | .error _ => .empty

private theorem Consistent.outcome (hconsistent : Consistent respond root)
    (hanswered : Answered respond root) (hn : root.Reaches n) {request : Request}
    (hwork : n.work = .ask request) (j : Nat) :
    (respond j request).outcome = .ok (consistentAnswer respond request) := by
  obtain ⟨response, hresponse⟩ := hanswered n request hn hwork 0
  rw [hconsistent n request hn hwork j 0, consistentAnswer, hresponse]

/-- A run of any plan over a backend that always answers, and always the same way,
agrees with the result without sharing. -/
theorem Consistent.agrees (hconsistent : Consistent respond root)
    (hanswered : Answered respond root) (hdistinct : root.Distinct)
    {deadline : Option Nat} {result : Except StageFailure SeriesResult}
    (hresult : (run respond deadline [] root).result = some result) :
    Agrees (plainResult (fun _ => consistentAnswer respond) root) result := by
  have hended := run_ended_fresh respond hdistinct deadline
  have hreplies := replies_replayed hdistinct hended.founded hanswered
  have hsame : plainResult
      (replayed respond (run respond deadline [] root).world) root =
      plainResult (fun _ => consistentAnswer respond) root := by
    apply plainResult_congr
    intro n request hn hwork
    obtain ⟨j, hj⟩ := hreplies n request hn hwork
    rw [hconsistent.outcome hanswered hn hwork j] at hj
    exact (Except.ok.inj hj).symm
  rw [← hsame]
  exact hended.agrees hdistinct hanswered hresult

/-- When a run succeeds, the backend has answered, and goes on to answer if it is
consistent. -/
theorem Consistent.answered (hconsistent : Consistent respond root)
    (hdistinct : root.Distinct) {deadline : Option Nat}
    (hr : (run respond deadline [] root).result = some (.ok r)) :
    Answered respond root := by
  have hended := run_ended_fresh respond hdistinct deadline
  have hkept : World.recalled? _ root.id = some r := hended.okay _ hr
  intro n request hn hwork
  obtain ⟨r', hr'⟩ := Option.isSome_iff_exists.1
    (recalled_of_reaches hdistinct (closed_reaches root) hended.founded (.refl root) hn
      (by rw [hkept]; rfl))
  obtain ⟨n', hn', hid, rs, -, hgives⟩ := hended.founded n.id r' hr'
  have hsame := hdistinct n' n hn' hn hid
  subst hsame
  rw [hwork] at hgives
  obtain ⟨j, hj⟩ := hgives
  intro j'
  rw [hconsistent n' request hn hwork j' j]
  cases houtcome : (respond j request).outcome with
  | ok response => exact ⟨response, rfl⟩
  | error fault =>
      rw [houtcome] at hj
      cases hj

theorem Agrees.eq_ok {plain : Except StageFailure SeriesResult}
    (h : Agrees plain (.ok r)) : plain = .ok r := by
  cases plain with
  | ok r' => exact congrArg Except.ok (Except.ok.inj h).symm
  | error e =>
      obtain ⟨message, hmessage⟩ := h
      cases hmessage

theorem Consistent.splice (hconsistent : Consistent respond root) (i k : Nat) :
    Consistent respond (root.splice i k) := by
  intro n request hn hwork
  obtain ⟨m, hm, rfl⟩ := Node.exists_of_splice_reaches hn rfl
  rw [Node.splice_work] at hwork
  exact hconsistent m request hm hwork

theorem Answered.splice (hanswered : Answered respond root) (i k : Nat) :
    Answered respond (root.splice i k) := by
  intro n request hn hwork
  obtain ⟨m, hm, rfl⟩ := Node.exists_of_splice_reaches hn rfl
  rw [Node.splice_work] at hwork
  exact hanswered m request hm hwork

/-- **Transparency of runs.**  What a successful run gives, with a deadline or without,
the plan without the union gives when it is run without a deadline, and whenever it
ends. -/
theorem splice_runs (hdistinct : root.Distinct) (hconsistent : Consistent respond root)
    {deadline : Option Nat} (hr : (run respond deadline [] root).result = some (.ok r))
    (i k : Nat) :
    (run respond none [] (root.splice i k)).result = some (.ok r) ∧
      ∀ deadline' result,
        (run respond deadline' [] (root.splice i k)).result = some result →
        result = .ok r := by
  have hanswered := hconsistent.answered hdistinct hr
  have hplain := (hconsistent.agrees hanswered hdistinct hr).eq_ok
  have hall : ∀ deadline' result,
      (run respond deadline' [] (root.splice i k)).result = some result →
      result = .ok r := by
    intro deadline' result hresult
    have hagrees :=
      (hconsistent.splice i k).agrees (hanswered.splice i k) (hdistinct.splice i k)
      hresult
    rw [plainResult_splice, hplain] at hagrees
    exact hagrees
  refine ⟨?_, hall⟩
  have hends := (run_ended_fresh respond (hdistinct.splice i k) none).ends
  cases hresult : (run respond none [] (root.splice i k)).result with
  | none => exact absurd rfl (hends hresult)
  | some result => rw [hall none result hresult]

open SeriesResult in
/-- **Unions.**  Putting results together is a monoid over results whose members have
rising keys, as all that are read have; what is put together has the parts of the
results in their order.  So a threshold does not tell a list of results from the results
put together, be it that it succeeds or fails.  And in every plan a union among the
inputs of a stage can be replaced by what it reads: over a backend that answers a
request the same way each time, what a run of the plan gives when it succeeds, the plan
without the union gives too. -/
theorem unions_transparent :
    (∀ xs ys : List SeriesResult, concat (xs ++ ys) = concat [concat xs, concat ys]) ∧
    concat [] = empty ∧
    (∀ r : SeriesResult, r.response.other.Ordered → concat [r] = r) ∧
    (∀ text response, Json.decodeText Response.decoder text = .ok response →
      response.other.Ordered) ∧
    (∀ rs : List SeriesResult, (concat rs).Parts rs) ∧
    (∀ (t : Threshold) (rs : List SeriesResult),
      t.evaluate [concat rs] = t.evaluate rs) ∧
    (∀ (combiners : Combiners) (now : Time.Instant) (s : Statement) (p : Plan),
      s.plan combiners now = .ok p → p.terminal.Distinct) ∧
    ∀ (respond : Respond) (root : Node), root.Distinct → Consistent respond root →
      ∀ deadline r, (run respond deadline [] root).result = some (.ok r) →
        ∀ i k, (run respond none [] (root.splice i k)).result = some (.ok r) ∧
          ∀ deadline' result,
            (run respond deadline' [] (root.splice i k)).result = some result →
            result = .ok r := by
  refine ⟨concat_append, rfl, fun r hr => concat_singleton hr,
    fun text response h => Response.ordered_of_decodeText h, concat_parts,
      fun t rs => ?_, fun combiners now s p hp => Statement.plan_distinct hp,
    fun respond root hdistinct hconsistent deadline r hr i k =>
      splice_runs hdistinct hconsistent hr i k⟩
  have hgrouped := t.evaluate_grouped [] rs []
  rwa [List.nil_append, List.nil_append, List.append_nil] at hgrouped

/-- A union within a union, over a backend whose replies take the longer the earlier
they are asked for: without the inner union, the outer one reads three requests and
gives the same. -/
theorem unions_transparent_nested :
    ∃ p r, Statement.plan .standard ⟨0, 0⟩
        ⟨[⟨some "a", .select ⟨"cpu", none, [], []⟩, ⟨1, 1⟩⟩,
          ⟨some "b", .select ⟨"mem", none, [], []⟩, ⟨1, 17⟩⟩,
          ⟨some "u", .aggregate ⟨"union", some ["a", "b"], []⟩, ⟨1, 33⟩⟩,
          ⟨none, .aggregate ⟨"union", some ["u", "a"], []⟩, ⟨1, 54⟩⟩]⟩ = .ok p ∧
      (p.terminal.splice 3 0).inputs.map Node.id = [0, 1, 0] ∧
      (run (fun k _ => ⟨9 - k, .ok ⟨[⟨0, [], []⟩], []⟩⟩) none [] p.terminal).result =
        some (.ok r) ∧
      (run (fun k _ => ⟨9 - k, .ok ⟨[⟨0, [], []⟩], []⟩⟩) none []
        (p.terminal.splice 3 0)).result = some (.ok r) ∧
      SeriesResult.concat [.ofResponse ⟨[⟨0, [], []⟩], [("unit", .null)]⟩] =
        .ofResponse ⟨[⟨0, [], []⟩], [("unit", .null)]⟩ := by
  have hrun : ∀ s : Statement,
      (∃ p r w, s.plan .standard ⟨0, 0⟩ = .ok p ∧
        (p.terminal.splice 3 0).inputs.map Node.id = [0, 1, 0] ∧
        proceedFor (fun k _ => ⟨9 - k, .ok ⟨[⟨0, [], []⟩], []⟩⟩) none
        p.terminal 9 .fresh (.start []) = some ⟨some (.ok r), w⟩) →
      ∃ p r, s.plan .standard ⟨0, 0⟩ = .ok p ∧
        (p.terminal.splice 3 0).inputs.map Node.id = [0, 1, 0] ∧
        (run (fun k _ => ⟨9 - k, .ok ⟨[⟨0, [], []⟩], []⟩⟩) none [] p.terminal).result =
          some (.ok r) ∧
        (run (fun k _ => ⟨9 - k, .ok ⟨[⟨0, [], []⟩], []⟩⟩) none []
          (p.terminal.splice 3 0)).result = some (.ok r) ∧
        SeriesResult.concat [.ofResponse ⟨[⟨0, [], []⟩], [("unit", .null)]⟩] =
          .ofResponse ⟨[⟨0, [], []⟩], [("unit", .null)]⟩ := by
    rintro s ⟨p, r, w, hp, hinputs, hpasses⟩
    have hr := congrArg Outcome.result (proceed_eq_of_proceedFor 9 hpasses)
    obtain ⟨-, -, hsingleton, -, -, -, hdistinct, hruns⟩ := unions_transparent
    have hspliced := hruns _ p.terminal (hdistinct .standard ⟨0, 0⟩ s p hp)
      (fun _ _ _ _ _ _ => rfl) none r hr 3 0
    exact ⟨p, r, hp, hinputs, hr, hspliced.1,
      hsingleton _ (List.pairwise_singleton _ _)⟩
  exact hrun _ ⟨_, _, _, rfl, rfl, rfl⟩

end Execution

end SeriesQuery
