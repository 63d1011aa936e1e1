import SeriesQuery.Plan.Combiner

/-!
# Plans

A plan is a graph of stages that ends in one of them.  A stage asks the backend or
combines the results of other stages, and it carries a number by which its result is
known while the plan runs: two stages of one number share one result.  The description
of a plan lists the stages that its last stage needs, each number once, in the order of
the numbers.
-/

namespace SeriesQuery

open SeriesQuery.Json
open SeriesQuery.Backend (Request)

/-- What a stage of a plan does. -/
inductive Work where
  | ask (request : Request)
  | combine (c : Combination)
  deriving BEq, Repr

namespace Work

/-- What descriptions call it. -/
def text : Work → String
  | ask _ => "select"
  | combine .union => "union"
  | combine (.threshold _) => "threshold"

/-- The request of a stage that asks the backend. -/
def request? : Work → Option Request
  | ask r => some r
  | combine _ => none

/-- The settings of a threshold stage. -/
def threshold? : Work → Option Threshold
  | combine (.threshold t) => some t
  | _ => none

end Work

/-- Settings of an aggregator that say what a stage with them does. -/
class Settles (α : Type) where
  /-- What a stage with the settings does. -/
  work : α → Work

instance : Settles Combination := ⟨.combine⟩

instance : Settles Work := ⟨id⟩

/-- A stage of a plan with the stages that it reads, in their declared order. -/
inductive Node where
  | mk (id : Nat) (name : Option String) (work : Work) (inputs : List Node)

namespace Node

/-- The number of a stage. -/
def id : Node → Nat
  | mk i _ _ _ => i

/-- The name of a stage. -/
def name : Node → Option String
  | mk _ n _ _ => n

/-- What a stage does. -/
def work : Node → Work
  | mk _ _ w _ => w

/-- The stages that a stage reads. -/
def inputs : Node → List Node
  | mk _ _ _ ns => ns

/-- A number as messages show it. -/
def idText (n : Node) : String := s!"#{n.id}"

/-- Adds an entry to entries sorted by number. -/
def place (n : Node) : List Node → List Node
  | [] => [n]
  | m :: ms => if n.id < m.id then n :: m :: ms else m :: n.place ms

mutual

/-- Adds a stage and all it needs to stages sorted by number, unless its number is there
already. -/
def gather (seen : List Node) : Node → List Node
  | mk i name work inputs =>
    if seen.any fun m => m.id == i then seen
    else gatherAll ((mk i name work inputs).place seen) inputs

/-- Adds some stages and all they need. -/
def gatherAll (seen : List Node) : List Node → List Node
  | [] => seen
  | n :: ns => gatherAll (gather seen n) ns

end

/-- The stages that a stage needs, itself included, each number once, in the order of
numbers. -/
def reachable (n : Node) : List Node := gather [] n

end Node

/-- A plan: its last stage, and what was noticed while it was made. -/
structure Plan where
  terminal : Node
  warnings : List String

/-- What the description of a plan says about a stage. -/
structure StageEntry where
  id : Nat
  name : Option String
  work : Work
  inputs : List Nat
  deriving BEq, Repr

/-- What a description says about a stage. -/
def Node.entry (n : Node) : StageEntry := ⟨n.id, n.name, n.work, n.inputs.map Node.id⟩

/-- The description of a plan. -/
structure PlanDescription where
  terminal : Nat
  stages : List StageEntry
  warnings : List String
  deriving BEq, Repr

/-- Describes a plan without running it. -/
def Plan.describe (p : Plan) : PlanDescription :=
  ⟨p.terminal.id, p.terminal.reachable.map Node.entry, p.warnings⟩

/-! ## JSON form -/

/-- A stage; a name and settings are left out when there are none. -/
def StageEntry.toJson (e : StageEntry) : Value :=
  .object ([("id", .nat e.id)] ++
    (e.name.map fun n => ("name", Value.text n)).toList ++
    [("kind", .text e.work.text), ("dependencies", .array (e.inputs.map Value.nat))] ++
    (e.work.request?.map fun r => ("query", r.toJson)).toList ++
    (e.work.threshold?.map fun t => ("threshold", t.toJson)).toList)

/-- A description. -/
def PlanDescription.toJson (d : PlanDescription) : Value :=
  .object [("terminal", .nat d.terminal),
    ("stages", .array (d.stages.map StageEntry.toJson)),
    ("warnings", Value.texts d.warnings)]

end SeriesQuery
