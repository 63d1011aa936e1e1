import SeriesQuery.Execution.Run

/-!
# Contexts

A context keeps results from one execution to the next.  Executions in it follow one
another: one starts, goes on pass by pass, and may be dropped between two passes, as it
is when the next one starts.  What an execution has kept by then stays for those that
come after it.

Several contexts share a backend and nothing else.  Their executions go on at the same
time, in any order, and the backend may make its replies depend on all requests that it
has been sent so far.
-/

namespace SeriesQuery.Execution

/-- The world when the next pass begins: at once for tasks that have been woken, and
otherwise when the next reply comes in. -/
def World.resume (w : World) : World :=
  if w.next ≠ [] then { w with woken := w.next } else w.advance?.getD w

/-- A pass of an execution: its last stage runs until it waits. -/
def pass (respond : Respond) (root : Node) (t : Task) (w : World) : Task × World :=
  match (actor respond root).poll [] t { w with next := [] } with
  | (.done r, w') => (.done r, w')
  | (t', w') => (t', w'.resume)

/-- What happens in a context. -/
inductive Event where
  /-- An execution of a stage starts. -/
  | start (root : Node)
  /-- The execution goes on. -/
  | pass
  /-- The execution is dropped. -/
  | drop

/-- A context, with the stage of the execution in it and how far that has come. -/
structure Context where
  world : World
  current : Option (Node × Task)

namespace Context

/-- A context in which nothing has been executed. -/
def fresh : Context := ⟨.start [], none⟩

/-- The result of the execution, once it has ended. -/
def result? (c : Context) : Option (Except StageFailure SeriesResult) :=
  match c.current with
  | some (_, .done r) => some r
  | _ => none

/-- Drops the execution. -/
def cut (respond : Respond) (c : Context) : Context :=
  match c.current with
  | some (root, t) => ⟨(actor respond root).drop [] t c.world, none⟩
  | none => c

/-- A context after an event. -/
def step (respond : Respond) (c : Context) : Event → Context
  | .start root => ⟨(c.cut respond).world, some (root, .fresh)⟩
  | .pass =>
    match c.current with
    | some (root, t) =>
      ⟨(Execution.pass respond root t c.world).2,
        some (root, (Execution.pass respond root t c.world).1)⟩
    | none => c
  | .drop => c.cut respond

/-- A context after some events. -/
def after (respond : Respond) (c : Context) (events : List Event) : Context :=
  events.foldl (step respond) c

/-- A context after an execution of a stage has started and made some passes. -/
def execute (respond : Respond) (c : Context) (root : Node) (passes : Nat) : Context :=
  c.after respond (.start root :: List.replicate passes .pass)

end Context

/-- Contexts that share a backend, and how many requests it has been sent. -/
structure Contexts where
  context : Nat → Context
  calls : Nat

namespace Contexts

/-- Contexts in which nothing has been executed. -/
def fresh : Contexts := ⟨fun _ => .fresh, 0⟩

/-- The shared backend as a context sees it from now on. -/
def seen (respond : Respond) (s : Contexts) (c : Context) : Respond :=
  fun k => respond (k - c.world.calls.length + s.calls)

/-- All contexts after an event in one of them. -/
def step (respond : Respond) (s : Contexts) (e : Nat × Event) : Contexts :=
  let c := s.context e.1
  let c' := c.step (s.seen respond c) e.2
  ⟨fun i => if i = e.1 then c' else s.context i,
    s.calls + (c'.world.calls.length - c.world.calls.length)⟩

/-- All contexts after some events. -/
def after (respond : Respond) (s : Contexts) (events : List (Nat × Event)) : Contexts :=
  events.foldl (step respond) s

/-- The events in one context. -/
def own (i : Nat) (events : List (Nat × Event)) : List Event :=
  (events.filter fun e => e.1 == i).map (·.2)

end Contexts

end SeriesQuery.Execution

namespace SeriesQuery

open SeriesQuery.Execution

/-- Runs a plan some times, one run after another and each in a context of its own, with
a backend that has been sent some requests before. -/
def Plan.runs (respond : Respond) (timeout : Nat) (p : Plan) (sent : Nat) :
    Nat → List Outcome
  | 0 => []
  | times + 1 =>
    let o := p.run (fun k => respond (sent + k)) timeout
    o :: p.runs respond timeout (sent + o.world.calls.length) times

end SeriesQuery
