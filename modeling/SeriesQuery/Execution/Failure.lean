import SeriesQuery.Plan.Binding
import SeriesQuery.Statement.Grammar

/-!
# Failures

A stage fails because the backend failed or because a threshold met a value it cannot
compare.  A statement fails because of its text, for want of a plan, because a stage of
its plan failed, or for lack of time.
-/

namespace SeriesQuery

open SeriesQuery.Backend (RequestFault invalidMessage)

/-- Why the backend gives no answer. -/
inductive BackendFault where
  | unavailable
  | timedOut
  /-- The request could not be made. -/
  | notSent
  | refused (status : Nat) (message : String)
  /-- The answer is not of the form that answers have. -/
  | unreadable
  | invalidRequest (faults : List RequestFault)
  deriving DecidableEq, Repr

/-- What a message says about a backend that gives no answer. -/
def BackendFault.message : BackendFault → String
  | unavailable => "KairosDB unavailable"
  | timedOut => "Request timeout"
  | notSent => "Request failed"
  | refused status message => s!"API error {status}: {message}"
  | unreadable => "Invalid response body"
  | invalidRequest faults => invalidMessage faults

/-- Why a stage has no result. -/
inductive StageFailure where
  | remote (fault : BackendFault)
  | evaluation (message : String)
  deriving DecidableEq, Repr

/-- What a message says about a stage without a result. -/
def StageFailure.message : StageFailure → String
  | remote fault => "Remote query failed: " ++ fault.message
  | evaluation text => "Evaluation error: " ++ text

/-- Why a statement has no result. -/
inductive StatementFailure where
  | unreadable (problems : List SyntaxProblem)
  | unplanned (fault : PlanFault)
  | stage (failure : StageFailure)
  /-- The time allowed, in microseconds, ran out. -/
  | outOfTime (micros : Nat)
  deriving BEq, Repr

namespace StatementFailure

/-- What a message says about a statement without a result; times are cut to
milliseconds. -/
def message : StatementFailure → String
  | unreadable problems =>
    "Syntax error: " ++ ", ".intercalate (problems.map SyntaxProblem.text)
  | unplanned fault => fault.message
  | stage failure => failure.message
  | outOfTime micros => s!"Statement timed out after {micros / 1000}ms"

/-- The same as separate messages: one for each problem. -/
def messages : StatementFailure → List String
  | unreadable problems => problems.map SyntaxProblem.text
  | unplanned fault => fault.messages
  | f => [f.message]

end StatementFailure

/-- Reads a statement and makes its plan. -/
def planText (combiners : Combiners) (now : Time.Instant) (text : String) :
    Except StatementFailure Plan := do
  let s ← (Statement.parse text).mapError fun p => .unreadable [p]
  (s.plan combiners now).mapError .unplanned

end SeriesQuery
