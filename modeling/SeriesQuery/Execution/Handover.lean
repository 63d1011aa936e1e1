import SeriesQuery.Execution.Context

/-!
# Handovers

A join whose inputs have all succeeded hands their results to its stage, in the order in
which the stage declares them.  What is handed over while a task runs can be listed: one
follows the task, input by input, and notes every join that succeeds.

Executions may share a context.  Each stands at a place of its own, and they start, go
on and are dropped in any order, while time passes and others use the backend.
-/

namespace SeriesQuery.Execution

/-! ## What a task hands over -/

/-- What a join hands over: the stage that makes it, and the results of its inputs as
they are declared. -/
structure Handover where
  stage : Node
  results : List SeriesResult

/-- What is handed over while a task runs. -/
abbrev Teller := Path → Task → World → List Handover

/-- The join with which a task goes on: the inputs to be looked at, how far all inputs
have come, and the world.  A task has none as long as it queues, or when the result of
its stage is kept. -/
def joinOf? (id : Nat) (inputs : List Actor) (path : Path) (t : Task) (w : World) :
    Option (List Nat × List Task × World) :=
  match t with
  | .fresh =>
    if (w.recalled? id).isSome || (w.turn? id).isSome then none
    else some (List.range inputs.length, List.replicate inputs.length .fresh,
      w.take id path)
  | .queued =>
    if (w.recalled? id).isSome || !w.owns id path then none
    else some (List.range inputs.length, List.replicate inputs.length .fresh, w)
  | .joining ts => some (visitOrder inputs path w, ts, w)
  | .calling _ _ => none
  | .done _ => none

/-- What is handed over while one input runs. -/
def handoversAt (tellers : List Teller) (path : Path) (i : Nat) (ts : List Task)
    (w : World) : List Handover :=
  match tellers[i]?, ts[i]? with
  | some tell, some t => tell (i :: path) t w
  | _, _ => []

/-- What is handed over while some inputs run one after another. -/
def visitHandovers (tellers : List Teller) (inputs : List Actor) (path : Path) :
    List Nat → List Task → World → List Handover
  | [], _, _ => []
  | i :: is, ts, w =>
    let told := handoversAt tellers path i ts w
    let (ts, w) := pollAt inputs path i ts w
    match joinFailure? inputs ts with
    | some _ => told
    | none => told ++ visitHandovers tellers inputs path is ts w

/-- What is handed over while the join of a stage runs: last what the join itself hands
over. -/
def joinHandovers (n : Node) (tellers : List Teller) (inputs : List Actor) (path : Path)
    (order : List Nat) (ts : List Task) (w : World) : List Handover :=
  visitHandovers tellers inputs path order ts w ++
    match visit inputs path order ts w with
    | (some _, _, _) => []
    | (none, ts, _) => ((results? ts).map (Handover.mk n)).toList

mutual

/-- What is handed over while a task of a stage runs, in order. -/
def handovers (respond : Respond) : Node → Teller
  | .mk id name work inputs => fun path t w =>
    match joinOf? id (actors respond inputs) path t w with
    | some (order, ts, w) =>
      joinHandovers (.mk id name work inputs) (handoversAll respond inputs)
        (actors respond inputs) path order ts w
    | none => []

/-- The same of several stages. -/
def handoversAll (respond : Respond) : List Node → List Teller
  | [] => []
  | n :: ns => handovers respond n :: handoversAll respond ns

end

/-- A task that has a join goes on with it. -/
theorem pollStage_of_joinOf? {respond : Respond} {id : Nat} {work : Work}
    {ids : List Nat} {inputs : List Actor} {path : Path} {t : Task} {w w' : World}
    {order : List Nat} {ts : List Task}
    (h : joinOf? id inputs path t w = some (order, ts, w')) :
    pollStage respond id work ids inputs path t w =
      pollJoin respond id work ids inputs path order ts w' := by
  cases t with
  | fresh =>
      rw [pollStage]
      cases hr : w.recalled? id with
      | some r => simp [joinOf?, hr] at h
      | none =>
          cases hturn : w.turn? id with
          | some turn => simp [joinOf?, hr, hturn] at h
          | none =>
              simp only [joinOf?, hr, hturn, Option.isSome_none, Bool.or_self,
                Bool.false_eq_true, if_false, Option.some.injEq, Prod.mk.injEq] at h ⊢
              obtain ⟨rfl, rfl, rfl⟩ := h
              rfl
  | queued =>
      rw [pollStage]
      cases hr : w.recalled? id with
      | some r => simp [joinOf?, hr] at h
      | none =>
          cases howns : w.owns id path with
          | false => simp [joinOf?, hr, howns] at h
          | true =>
              simp only [joinOf?, hr, howns, Option.isSome_none, Bool.not_true,
                Bool.or_self, Bool.false_eq_true, if_false, Option.some.injEq,
                Prod.mk.injEq, if_true] at h ⊢
              obtain ⟨rfl, rfl, rfl⟩ := h
              rfl
  | joining us =>
      rw [joinOf?, Option.some.injEq] at h
      cases h
      rfl
  | calling due outcome => cases h
  | done result => cases h

/-! ## Executions that share a context -/

/-- Executions by the places where they stand, each with its stage and how far it has
come. -/
abbrev Executions := Path → Option (Node × Task)

namespace Executions

/-- Executions with another one, or none, at a place. -/
def put (f : Executions) (p : Path) (e : Option (Node × Task)) : Executions :=
  fun q => if q = p then e else f q

/-- A place that is neither below nor above that of any execution. -/
def Apart (f : Executions) (p : Path) : Prop := ∀ q, f q ≠ none → ¬ p <:+ q ∧ ¬ q <:+ p

end Executions

/-- What a context that starts with some results can come to while executions share it:
its world, the executions, and everything that has been handed over in it. -/
inductive Hosting (respond : Respond) (memo : Memo) : World → Executions →
    List Handover → Prop
  | fresh : Hosting respond memo (.start memo) (fun _ => none) []
  /-- An execution of a stage starts at a place of its own. -/
  | start {w : World} {f : Executions} {hs : List Handover} (p : Path) (root : Node) :
      Hosting respond memo w f hs → f.Apart p →
      Hosting respond memo w (f.put p (some (root, .fresh))) hs
  /-- An execution goes on. -/
  | go {w : World} {f : Executions} {hs : List Handover} (p : Path)
      (root : Node) (t : Task) :
      Hosting respond memo w f hs → f p = some (root, t) →
      Hosting respond memo ((actor respond root).poll p t w).2
        (f.put p (some (root, ((actor respond root).poll p t w).1)))
        (hs ++ handovers respond root p t w)
  /-- An execution is dropped. -/
  | drop {w : World} {f : Executions} {hs : List Handover} (p : Path)
      (root : Node) (t : Task) :
      Hosting respond memo w f hs → f p = some (root, t) →
      Hosting respond memo ((actor respond root).drop p t w) (f.put p none) hs
  /-- Time passes, tasks are woken, others use the backend: turns and results stay as
  they are. -/
  | rest {w w' : World} {f : Executions} {hs : List Handover} :
      Hosting respond memo w f hs → w'.turns = w.turns → w'.memo = w.memo →
      Hosting respond memo w' f hs

namespace Context

/-- The execution in a context. -/
def executions (c : Context) : Executions := fun p => if p = [] then c.current else none

end Context

end SeriesQuery.Execution
