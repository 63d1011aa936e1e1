import SeriesQuery.Execution.Plain
import SeriesQuery.Plan.Walk

/-!
# Schedules

What a run comes to can be said beforehand, without tasks and turns, once the replies of
the backend are known.  A stage ends when the last of its inputs has ended, and a
request some time after that.  Its result is what its work makes of the results of its
inputs.  A stage fails by itself when it has all its inputs and the backend fails, or a
threshold meets a value it cannot compare.
-/

namespace SeriesQuery.Execution

open SeriesQuery.Backend (Request)

/-- The reply to the request of a stage when the stages of a plan ask in the order of
the walk. -/
def replyTo (respond : Respond) (root : Node) (id : Nat) (request : Request) : Reply :=
  respond (requestsOf (root.inOrder.takeWhile fun m => m.id != id)).length request

mutual

/-- The moment when a stage ends if nothing that it needs fails. -/
def ends (reply : Nat → Request → Reply) : Node → Nat
  | .mk id _ work inputs =>
    match work with
    | .ask request => endsAll reply inputs + (reply id request).delay
    | .combine _ => endsAll reply inputs

/-- The moment when the last of some stages ends. -/
def endsAll (reply : Nat → Request → Reply) : List Node → Nat
  | [] => 0
  | n :: ns => max (ends reply n) (endsAll reply ns)

end

/-- What a stage's work makes of the results of its inputs. -/
def workOutcome (reply : Request → Reply) (work : Work) (rs : List SeriesResult) :
    Except StageFailure SeriesResult :=
  match work with
  | .ask request =>
    ((reply request).outcome.map SeriesResult.ofResponse).mapError .remote
  | .combine c => combine c rs

mutual

/-- The result of a stage, or the first failure among the stages it needs. -/
def stageOutcome (reply : Nat → Request → Reply) : Node →
    Except StageFailure SeriesResult
  | .mk id _ work inputs => stageOutcomes reply inputs >>= workOutcome (reply id) work

/-- The results of some stages in order. -/
def stageOutcomes (reply : Nat → Request → Reply) :
    List Node → Except StageFailure (List SeriesResult)
  | [] => .ok []
  | n :: ns => do
    let r ← stageOutcome reply n
    let rs ← stageOutcomes reply ns
    return r :: rs

end

/-- The failure that a stage brings about by itself: its inputs have their results, and
its own work fails. -/
def ownFailure? (reply : Nat → Request → Reply) (n : Node) : Option StageFailure :=
  match stageOutcomes reply n.inputs with
  | .ok rs =>
    match workOutcome (reply n.id) n.work rs with
    | .ok _ => none
    | .error e => some e
  | .error _ => none

end SeriesQuery.Execution
