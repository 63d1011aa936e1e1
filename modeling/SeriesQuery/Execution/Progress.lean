import SeriesQuery.Execution.Task

/-!
# Progress

How much a task has left to do is a number that depends on how far it has come.  Letting
a task run either changes nothing at all or makes this number smaller, so a run in which
something happens in every pass comes to an end.
-/

namespace SeriesQuery.Execution

mutual

/-- What is left to do for a task that has not begun. -/
def cost : Node → Nat
  | .mk _ _ _ inputs => 4 + costAll inputs

/-- What is left to do for tasks that have not begun. -/
def costAll : List Node → Nat
  | [] => 0
  | n :: ns => cost n + costAll ns

end

mutual

/-- What is left to do for a task. -/
def remaining : Node → Task → Nat
  | .mk _ _ _ inputs, t =>
    match t with
    | .fresh => 4 + costAll inputs
    | .queued => 3 + costAll inputs
    | .joining ts => 2 + remainingAll inputs ts
    | .calling _ _ => 1
    | .done _ => 0

/-- What is left to do for some tasks. -/
def remainingAll : List Node → List Task → Nat
  | n :: ns, t :: ts => remaining n t + remainingAll ns ts
  | _, _ => 0

end

private theorem remaining_fresh (n : Node) : remaining n .fresh = cost n := by
  cases n; rw [remaining, cost]

private theorem remainingAll_fresh (ns : List Node) :
    remainingAll ns (List.replicate ns.length .fresh) = costAll ns := by
  induction ns with
  | nil => rw [remainingAll, costAll]; simp
  | cons n ns ih =>
    rw [List.length_cons, List.replicate_succ, remainingAll, costAll, remaining_fresh,
      ih]

/-- Replacing one task changes the sum by the difference. -/
theorem remainingAll_set (ns : List Node) (ts : List Task) (i : Nat) (n : Node)
    (t t' : Task) (hn : ns[i]? = some n) (ht : ts[i]? = some t) :
    remainingAll ns (ts.set i t') + remaining n t =
      remainingAll ns ts + remaining n t' := by
  induction ns generalizing ts i with
  | nil => simp at hn
  | cons m ns ih =>
    cases ts with
    | nil => simp at ht
    | cons s ts =>
      cases i with
      | zero =>
        simp only [List.getElem?_cons_zero, Option.some.injEq] at hn ht
        subst hn ht
        simp only [List.set_cons_zero, remainingAll]
        omega
      | succ i =>
        simp only [List.getElem?_cons_succ] at hn ht
        have := ih ts i hn ht
        simp only [List.set_cons_succ, remainingAll]
        omega

theorem length_actors (respond : Respond) (ns : List Node) :
    (actors respond ns).length = ns.length := by
  induction ns with
  | nil => rw [actors]; rfl
  | cons n ns ih => rw [actors, List.length_cons, List.length_cons, ih]

theorem getElem?_actors (respond : Respond) (ns : List Node) (i : Nat) :
    (actors respond ns)[i]? = ns[i]?.map (actor respond) := by
  induction ns generalizing i with
  | nil => rw [actors]; simp
  | cons n ns ih => rw [actors]; cases i <;> simp [ih]

/-- Letting tasks of a stage run changes nothing or leaves less to do. -/
def Advances (respond : Respond) (n : Node) : Prop :=
  ∀ path t w, (actor respond n).poll path t w = (t, w) ∨
    remaining n ((actor respond n).poll path t w).1 < remaining n t

private theorem pollAt_advances (respond : Respond) (ns : List Node)
    (h : ∀ n ∈ ns, Advances respond n) (path : Path) (i : Nat) (ts : List Task)
    (w : World) :
    pollAt (actors respond ns) path i ts w = (ts, w) ∨
      remainingAll ns (pollAt (actors respond ns) path i ts w).1 <
        remainingAll ns ts := by
  unfold pollAt
  rw [getElem?_actors]
  cases hn : ns[i]? with
  | none => left; simp
  | some n =>
    cases ht : ts[i]? with
    | none => left; simp
    | some t =>
      simp only [Option.map_some]
      rcases h n (List.mem_of_getElem? hn) (i :: path) t w with same | less
      · left
        rw [same]
        obtain ⟨hi, rfl⟩ := List.getElem?_eq_some_iff.1 ht
        simp
      · right
        have := remainingAll_set ns ts i n t
          ((actor respond n).poll (i :: path) t w).1 hn ht
        omega

private theorem visit_advances (respond : Respond) (ns : List Node)
    (h : ∀ n ∈ ns, Advances respond n) (path : Path) (order : List Nat) (ts : List Task)
    (w : World) :
    (visit (actors respond ns) path order ts w).2 = (ts, w) ∨
      remainingAll ns (visit (actors respond ns) path order ts w).2.1 <
        remainingAll ns ts := by
  induction order generalizing ts w with
  | nil => left; rw [visit]
  | cons i order ih =>
    rw [visit]
    rcases pollAt_advances respond ns h path i ts w with same | less
    · rw [same]
      dsimp only
      split
      · left; rfl
      · exact ih ts w
    · right
      generalize pollAt (actors respond ns) path i ts w = p at less
      obtain ⟨ts', w'⟩ := p
      dsimp only at less ⊢
      split
      · exact less
      · rcases ih ts' w' with same' | less'
        · rw [same']; exact less
        · omega

private theorem remaining_conclude (n : Node) (id : Nat)
    (r : Except StageFailure SeriesResult) (w : World) :
    remaining n (conclude id r w).1 = 0 := by
  cases n; cases r <;> rw [conclude, remaining]

private theorem remaining_act (respond : Respond) (n : Node) (id : Nat) (work : Work)
    (ids : List Nat) (path : Path) (rs : List SeriesResult) (w : World) :
    remaining n (act respond id work ids path rs w).1 ≤ 1 := by
  unfold act
  cases work with
  | ask request =>
    dsimp only
    split
    · rw [replied, remaining_conclude]; omega
    · exact Nat.le_of_eq (by cases n; rw [remaining])
  | combine c => dsimp only; rw [remaining_conclude]; omega

private theorem pollJoin_advances (respond : Respond) (id : Nat) (name : Option String)
    (work : Work) (ns : List Node) (h : ∀ n ∈ ns, Advances respond n) (ids : List Nat)
    (path : Path) (order : List Nat) (ts : List Task) (w : World) :
    pollJoin respond id work ids (actors respond ns) path order ts w =
      (.joining ts, w) ∨ remaining (.mk id name work ns)
          (pollJoin respond id work ids (actors respond ns) path order ts w).1 <
        2 + remainingAll ns ts := by
  unfold pollJoin
  have := visit_advances respond ns h path order ts w
  generalize visit (actors respond ns) path order ts w = v at this
  obtain ⟨f, ts', w'⟩ := v
  dsimp only at this
  cases f with
  | some e => right; dsimp only; rw [remaining_conclude]; omega
  | none =>
    dsimp only
    cases results? ts' with
    | some rs =>
      right
      dsimp only
      have := remaining_act respond (.mk id name work ns) id work ids path rs w'
      omega
    | none =>
      dsimp only
      rcases this with same | less
      · left; simp only [Prod.mk.injEq] at same; simp [same]
      · right; rw [remaining]; omega

private theorem begin_advances (respond : Respond) (id : Nat) (name : Option String)
    (work : Work) (ns : List Node) (h : ∀ n ∈ ns, Advances respond n) (ids : List Nat)
    (path : Path) (w : World) :
    remaining (.mk id name work ns)
      (begin respond id work ids (actors respond ns) path w).1 < 3 + costAll ns := by
  unfold begin
  rw [length_actors]
  rcases pollJoin_advances respond id name work ns h ids path (List.range ns.length)
    (List.replicate ns.length .fresh) w with same | less
  · rw [same, remaining, remainingAll_fresh]; omega
  · rw [remainingAll_fresh] at less; omega

private theorem pollStage_advances (respond : Respond) (id : Nat) (name : Option String)
    (work : Work) (ns : List Node) (h : ∀ n ∈ ns, Advances respond n) :
    Advances respond (.mk id name work ns) := by
  intro path t w
  have start :=
    fun w => begin_advances respond id name work ns h (ns.map Node.id) path w
  rw [actor]
  dsimp only
  cases t with
  | done r => left; rw [pollStage]
  | fresh =>
    right
    rw [pollStage, remaining]
    cases w.recalled? id with
    | some r => dsimp only; rw [remaining]; omega
    | none =>
      dsimp only
      split
      · rw [remaining]; omega
      · have := start (w.take id path); omega
  | queued =>
    rw [pollStage]
    cases w.recalled? id with
    | some r => right; simp only [remaining]; omega
    | none =>
      dsimp only
      split
      · right; have := start w; rw [remaining]; omega
      · left; rfl
  | joining ts =>
    rw [pollStage, remaining]
    exact pollJoin_advances respond id name work ns h (ns.map Node.id) path _ ts w
  | calling due outcome =>
    cases work with
    | ask request =>
      rw [pollStage]
      split
      · right; rw [replied, remaining_conclude, remaining]; exact Nat.one_pos
      · left; rfl
    | combine c => left; rw [pollStage]

mutual

/-- Letting a task run changes nothing or leaves less to do. -/
theorem advances (respond : Respond) : (n : Node) → Advances respond n
  | .mk id name work inputs =>
    pollStage_advances respond id name work inputs (advancesAll respond inputs)

/-- The same of several stages. -/
theorem advancesAll (respond : Respond) : (ns : List Node) →
    ∀ n ∈ ns, Advances respond n
  | [], _, h => by simp at h
  | m :: ns, n, h => by
    rcases List.mem_cons.1 h with same | rest
    · exact same ▸ advances respond m
    · exact advancesAll respond ns n rest

end

end SeriesQuery.Execution
