import SeriesQuery.Execution.Run

/-!
# Results without sharing

The result of a stage can also be said without tasks, turns or time: ask for every
request where it stands, and combine the results of the inputs in their declared order.
A stage that is mentioned twice is worked out twice.  What the backend answers may
depend on the stage that asks, since it may depend on the moment.
-/

namespace SeriesQuery.Execution

open SeriesQuery.Backend (Request Response)

/-- The result of a stage's work on the results of its inputs. -/
def workResult (answer : Request → Response) (work : Work) (rs : List SeriesResult) :
    Except StageFailure SeriesResult :=
  match work with
  | .ask request => .ok (.ofResponse (answer request))
  | .combine c => combine c rs

mutual

/-- The result of a stage when the backend gives these answers to the stages of these
numbers. -/
def plainResult (answer : Nat → Request → Response) : Node →
    Except StageFailure SeriesResult
  | .mk id _ work inputs => plainResults answer inputs >>= workResult (answer id) work

/-- The results of some stages in order. -/
def plainResults (answer : Nat → Request → Response) :
    List Node → Except StageFailure (List SeriesResult)
  | [] => .ok []
  | n :: ns => do
    let r ← plainResult answer n
    let rs ← plainResults answer ns
    return r :: rs

end

end SeriesQuery.Execution
