import SeriesQuery.Execution.Failure

/-!
# The world of a run

While a plan runs, time stands still until every task waits, and then goes on to the
moment when the next reply comes in.  A stage of one number runs once: the first task
that reaches it has the turn, the others queue for it.  A success is kept and ends the
turn for all; a failure, or a task that is dropped, passes the turn on to the task that
has queued longest.
-/

namespace SeriesQuery.Execution

open SeriesQuery.Backend (Request Response)

/-- What the backend replies, and how long that takes, in milliseconds. -/
structure Reply where
  delay : Nat
  outcome : Except BackendFault Response

/-- A backend: its reply to a request, which may depend on how many came before. -/
abbrev Respond := Nat → Request → Reply

/-- Where a task stands: the places from it up to the last stage of the plan. -/
abbrev Path := List Nat

/-- The turn at a stage. -/
structure Turn where
  id : Nat
  owner : Path
  waiting : List Path
  deriving DecidableEq, Repr

/-- The moment when a task gets its reply. -/
structure Timer where
  due : Nat
  path : Path
  deriving DecidableEq, Repr

/-- Results by stage number. -/
abbrev Memo := List (Nat × SeriesResult)

/-- All that tasks share. -/
structure World where
  now : Nat
  memo : Memo
  turns : List Turn
  timers : List Timer
  /-- Tasks that this pass is for, in the order in which they were woken. -/
  woken : List Path
  /-- Tasks that the next pass is for. -/
  next : List Path
  /-- Requests in the order in which they were made. -/
  calls : List Request
  /-- Requests in the order in which their replies came in. -/
  finished : List Request

namespace World

/-- The world before a run that starts with some results. -/
def start (memo : Memo) : World := ⟨0, memo, [], [], [], [], [], []⟩

/-- The result kept for a stage. -/
def recalled? (w : World) (id : Nat) : Option SeriesResult :=
  (w.memo.find? fun e => e.1 == id).map (·.2)

/-- The turn at a stage, if a task has it. -/
def turn? (w : World) (id : Nat) : Option Turn := w.turns.find? fun t => t.id == id

/-- Whether a task has the turn at a stage. -/
def owns (w : World) (id : Nat) (path : Path) : Bool :=
  match w.turn? id with
  | some t => t.owner == path
  | none => false

/-- Takes the turn at a stage that nobody has. -/
def take (w : World) (id : Nat) (path : Path) : World :=
  { w with turns := ⟨id, path, []⟩ :: w.turns }

/-- Queues for the turn at a stage. -/
def queue (w : World) (id : Nat) (path : Path) : World :=
  { w with turns := w.turns.map fun t =>
      if t.id = id then { t with waiting := t.waiting ++ [path] } else t }

/-- The turns after the one at a stage has been passed on, and the task that has it
now. -/
def passOn (id : Nat) : List Turn → List Turn × List Path
  | [] => ([], [])
  | t :: ts =>
    if t.id = id then
      match t.waiting with
      | [] => (ts, [])
      | p :: rest => (⟨id, p, rest⟩ :: ts, [p])
    else ((t :: (passOn id ts).1), (passOn id ts).2)

/-- Gives the turn at a stage to the task that has queued longest. -/
def release (w : World) (id : Nat) : World :=
  { w with turns := (passOn id w.turns).1, next := w.next ++ (passOn id w.turns).2 }

/-- Gives up the turn at a stage, or the place in the queue for it. -/
def leave (w : World) (id : Nat) (path : Path) : World :=
  if w.owns id path then w.release id
  else
    { w with turns := w.turns.map fun t =>
        if t.id = id then { t with waiting := t.waiting.filter (· != path) } else t }

/-- Keeps the result of a stage, which ends the turn at it for all that queue. -/
def settle (w : World) (id : Nat) (r : SeriesResult) : World :=
  { w with
    memo := (id, r) :: w.memo
    turns := w.turns.filter fun t => t.id != id
    next := w.next ++ ((w.turn? id).map Turn.waiting).getD [] }

/-- Makes a request. -/
def call (w : World) (r : Request) : World := { w with calls := w.calls ++ [r] }

/-- Takes in the reply to a request. -/
def receive (w : World) (r : Request) : World :=
  { w with finished := w.finished ++ [r] }

/-- Lets a task wait until some moment. -/
def await (w : World) (due : Nat) (path : Path) : World :=
  { w with timers := w.timers ++ [⟨due, path⟩] }

/-- Lets a task wait no longer. -/
def forget (w : World) (path : Path) : World :=
  { w with timers := w.timers.filter fun t => t.path != path }

/-- Goes on to the moment when the next reply comes in, if one is awaited. -/
def advance? (w : World) : Option World :=
  (w.timers.map Timer.due).min?.map fun due =>
    { w with
      now := due
      woken := (w.timers.filter fun t => t.due ≤ due).map Timer.path
      timers := w.timers.filter fun t => due < t.due }

end World

end SeriesQuery.Execution
