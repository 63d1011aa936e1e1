import SeriesQuery.Execution.World

/-!
# Tasks

A task is a stage of a plan at one of the places where the plan mentions it.  It first
needs the results of its inputs, which it asks for in their declared order, each running
until it waits.  A join of up to thirty inputs looks at all of them in every pass and
fails with the first that fails.  A wider join looks only at those that were woken, in
the order of waking, and takes failures in the order of the inputs: one that comes in
while an earlier input still waits is held back.  What a join no longer needs is
dropped.
-/

namespace SeriesQuery.Execution

open SeriesQuery.Backend (Request Response)

/-- How far a task has come. -/
inductive Task where
  /-- Nothing has been done. -/
  | fresh
  /-- It queues for the turn at its stage. -/
  | queued
  /-- It has the turn and needs the results of its inputs. -/
  | joining (inputs : List Task)
  /-- It has the turn and waits for a reply. -/
  | calling (due : Nat) (outcome : Except BackendFault Response)
  | done (result : Except StageFailure SeriesResult)

/-- What can be done with a task: letting it run until it waits, and dropping it. -/
structure Actor where
  poll : Path → Task → World → Task × World
  drop : Path → Task → World → World

/-! ## Joins -/

/-- The largest number of inputs of a narrow join. -/
def narrowLimit : Nat := 30

/-- Whether a join over some inputs is narrow. -/
def isNarrow (inputs : List Actor) : Bool := inputs.length ≤ narrowLimit

/-- The failure of the first input that has failed. -/
def failed? : List Task → Option StageFailure
  | [] => none
  | .done (.error e) :: _ => some e
  | _ :: ts => failed? ts

/-- The failure of an input when all inputs before it have succeeded. -/
def surfaced? : List Task → Option StageFailure
  | .done (.ok _) :: ts => surfaced? ts
  | .done (.error e) :: _ => some e
  | _ => none

/-- The failure that ends a join. -/
def joinFailure? (inputs : List Actor) (ts : List Task) : Option StageFailure :=
  if isNarrow inputs then failed? ts else surfaced? ts

/-- The results of inputs that have all succeeded. -/
def results? : List Task → Option (List SeriesResult)
  | [] => some []
  | .done (.ok r) :: ts => (results? ts).map (r :: ·)
  | _ => none

/-- The input of the task at `path` through which a task below it was woken. -/
def inputToward? (path woken : Path) : Option Nat :=
  let above := woken.length - path.length
  if path.length < woken.length && woken.drop above == path then woken[above - 1]?
  else none

/-- The inputs that a pass looks at. -/
def visitOrder (inputs : List Actor) (path : Path) (w : World) : List Nat :=
  if isNarrow inputs then List.range inputs.length
  else (w.woken.filterMap (inputToward? path)).eraseDups

/-- Lets one input run. -/
def pollAt (inputs : List Actor) (path : Path) (i : Nat) (ts : List Task) (w : World) :
    List Task × World :=
  match inputs[i]?, ts[i]? with
  | some a, some t => (ts.set i (a.poll (i :: path) t w).1, (a.poll (i :: path) t w).2)
  | _, _ => (ts, w)

/-- Lets some inputs run one after another, until one of them ends the join. -/
def visit (inputs : List Actor) (path : Path) :
    List Nat → List Task → World → Option StageFailure × List Task × World
  | [], ts, w => (none, ts, w)
  | i :: is, ts, w =>
    let (ts, w) := pollAt inputs path i ts w
    match joinFailure? inputs ts with
    | some e => (some e, ts, w)
    | none => visit inputs path is ts w

/-- Drops inputs, the first of which stands at place `i`. -/
def dropFrom (path : Path) : Nat → List Actor → List Task → World → World
  | i, a :: as, t :: ts, w => dropFrom path (i + 1) as ts (a.drop (i :: path) t w)
  | _, _, _, w => w

/-! ## Stages -/

/-- The results of inputs, looked up by the number of each: of two inputs with one
number the later result counts. -/
def inDeclaredOrder (ids : List Nat) (rs : List SeriesResult) :
    Except StageFailure (List SeriesResult) :=
  let table := (ids.zip rs).reverse
  ids.mapM fun id =>
    match table.find? fun e => e.1 == id with
    | some e => .ok e.2
    | none => .error (.evaluation s!"missing result for stage #{id}")

/-- Combines results in the order given. -/
def combine (c : Combination) (rs : List SeriesResult) :
    Except StageFailure SeriesResult :=
  match c with
  | .union => .ok (.concat rs)
  | .threshold t => (t.evaluate rs).mapError .evaluation

/-- Ends a stage: a success is kept, after a failure the turn is passed on. -/
def conclude (id : Nat) (result : Except StageFailure SeriesResult) (w : World) :
    Task × World :=
  match result with
  | .ok r => (.done (.ok r), w.settle id r)
  | .error e => (.done (.error e), w.release id)

/-- Takes in a reply. -/
def replied (id : Nat) (request : Request) (outcome : Except BackendFault Response)
    (w : World) : Task × World :=
  conclude id ((outcome.map SeriesResult.ofResponse).mapError .remote)
    (w.receive request)

/-- What a stage does once it has the results of its inputs. -/
def act (respond : Respond) (id : Nat) (work : Work) (ids : List Nat) (path : Path)
    (rs : List SeriesResult) (w : World) : Task × World :=
  match work with
  | .ask request =>
    let reply := respond w.calls.length request
    if reply.delay = 0 then replied id request reply.outcome (w.call request)
    else
      let due := w.now + reply.delay
      (.calling due reply.outcome, (w.call request).await due path)
  | .combine c => conclude id (inDeclaredOrder ids rs >>= combine c) w

/-- Lets the join of a stage run. -/
def pollJoin (respond : Respond) (id : Nat) (work : Work) (ids : List Nat)
    (inputs : List Actor) (path : Path) (order : List Nat) (ts : List Task)
    (w : World) : Task × World :=
  match visit inputs path order ts w with
  | (some e, ts, w) => conclude id (.error e) (dropFrom path 0 inputs ts w)
  | (none, ts, w) =>
    match results? ts with
    | some rs => act respond id work ids path rs w
    | none => (.joining ts, w)

/-- Starts a stage whose turn a task has: all inputs are asked for. -/
def begin (respond : Respond) (id : Nat) (work : Work) (ids : List Nat)
    (inputs : List Actor) (path : Path) (w : World) : Task × World :=
  pollJoin respond id work ids inputs path (List.range inputs.length)
    (List.replicate inputs.length .fresh) w

/-- Lets a task run until it waits. -/
def pollStage (respond : Respond) (id : Nat) (work : Work) (ids : List Nat)
    (inputs : List Actor) (path : Path) (t : Task) (w : World) : Task × World :=
  match t with
  | .done r => (.done r, w)
  | .fresh =>
    match w.recalled? id with
    | some r => (.done (.ok r), w)
    | none =>
      if (w.turn? id).isSome then (.queued, w.queue id path)
      else begin respond id work ids inputs path (w.take id path)
  | .queued =>
    match w.recalled? id with
    | some r => (.done (.ok r), w)
    | none =>
      if w.owns id path then begin respond id work ids inputs path w else (.queued, w)
  | .joining ts =>
    pollJoin respond id work ids inputs path (visitOrder inputs path w) ts w
  | .calling due outcome =>
    match work with
    | .ask request =>
      if due ≤ w.now then replied id request outcome w else (.calling due outcome, w)
    | .combine _ => (.calling due outcome, w)

/-- Drops a task: its inputs first, then its reply, its turn or its place in the
queue. -/
def dropStage (id : Nat) (inputs : List Actor) (path : Path) (t : Task)
    (w : World) : World :=
  match t with
  | .fresh => w
  | .queued => w.leave id path
  | .joining ts => (dropFrom path 0 inputs ts w).release id
  | .calling _ _ => (w.forget path).release id
  | .done _ => w

mutual

/-- What can be done with the tasks of a stage. -/
def actor (respond : Respond) : Node → Actor
  | .mk id _ work inputs =>
    let as := actors respond inputs
    ⟨pollStage respond id work (inputs.map Node.id) as, dropStage id as⟩

/-- What can be done with the tasks of some stages. -/
def actors (respond : Respond) : List Node → List Actor
  | [] => []
  | n :: ns => actor respond n :: actors respond ns

end

end SeriesQuery.Execution
