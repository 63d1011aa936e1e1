import SeriesQuery.Plan.Node
import SeriesQuery.Statement.Literal

/-!
# From statements to plans

Stages are bound in the order written.  A select stage becomes a request over the time
range written last.  An aggregation reads the stages it names, or else the stage before
it; one that the backend computes over a single request becomes part of that request,
unless a stage reads that request already: then it becomes part of a copy, so that what
earlier stages read stays as it was.  The last stage is the one the plan ends in.
-/

namespace SeriesQuery

open SeriesQuery.Backend
open SeriesQuery.Time (Instant)

/-- Why a statement has no plan. -/
inductive PlanFault where
  | noStages
  | repeatedBinding (name : String) (position : Position)
  | undefinedSource (name : String) (position : Position)
  | unknownAggregator (name : String) (position : Position)
  | notSingleSelect (name : String) (position : Position)
  | noSources (name : String) (position : Position)
  | invalidArguments (aggregator : String) (faults : List ArgumentFault)
  | invalidTime (position : Position) (fault : LiteralFault)
  | invalidRequest (position : Position) (faults : List RequestFault)
  deriving BEq, Repr

namespace PlanFault

/-- What a message says about a statement without a plan. -/
def message : PlanFault → String
  | noStages => "statement contains no stages"
  | repeatedBinding name position =>
    s!"stage '{name}' is already defined ({position.text})"
  | undefinedSource name position => s!"stage '{name}' does not exist ({position.text})"
  | unknownAggregator name position => s!"unknown aggregator '{name}' ({position.text})"
  | notSingleSelect name p =>
    s!"aggregator '{name}' must be applied to exactly one select stage ({p.text})"
  | noSources name position =>
    s!"aggregator '{name}' has no stages to aggregate ({position.text})"
  | invalidArguments aggregator faults =>
    s!"invalid arguments to '{aggregator}': " ++
      ", ".intercalate (faults.map ArgumentFault.message)
  | invalidTime position fault => s!"invalid time at {position.text}: {fault.message}"
  | invalidRequest position faults =>
    s!"invalid select at {position.text}: {invalidMessage faults}"

/-- The same as separate messages: one for each argument at fault. -/
def messages : PlanFault → List String
  | invalidArguments aggregator faults =>
    faults.map fun f => s!"{aggregator}: {f.message}"
  | f => [f.message]

end PlanFault

/-- A time range. -/
structure Range where
  start : Instant
  stop : Instant
  deriving DecidableEq, Repr

/-- A stage while its plan is being made; its inputs are numbers of earlier stages. -/
structure DraftNode where
  name : Option String
  inputs : List Nat
  work : Work
  position : Position
  deriving BEq, Repr

/-- What is known after some stages have been bound. -/
structure Binding where
  /-- The range that the next request gets. -/
  range : Range
  nodes : List DraftNode
  /-- The stage that each name stands for. -/
  names : List (String × Nat)
  /-- The stage bound last. -/
  previous : Option Nat
  warnings : List String

namespace Binding

variable {α : Type} [Settles α]

/-- The range of requests before any range is written: the last two hours. -/
def defaultRange (now : Instant) : Range := ⟨now.minusSeconds 7200, now⟩

/-- Nothing is bound yet. -/
def start (now : Instant) : Binding := ⟨defaultRange now, [], [], none, []⟩

/-- The stage that a name stands for. -/
def find? (b : Binding) (name : String) : Option Nat :=
  (b.names.find? fun e => e.1 == name).map (·.2)

/-- What a stage does. -/
def work? (b : Binding) (i : Nat) : Option Work := b.nodes[i]?.map DraftNode.work

/-- Adds a stage and gives its number. -/
def add (b : Binding) (work : Work) (inputs : List Nat) (position : Position) :
    Binding × Nat :=
  ({ b with nodes := b.nodes ++ [⟨none, inputs, work, position⟩] }, b.nodes.length)

/-- Appends warnings. -/
def warn (b : Binding) (warnings : List String) : Binding :=
  { b with warnings := b.warnings ++ warnings }

/-! ## Select stages -/

/-- A time where a stage writes it. -/
def resolve (now : Instant) (position : Position) (m : Moment) :
    Except PlanFault Instant :=
  (m.resolve now).mapError (.invalidTime position)

/-- The range that a stage writes; the end is the present when it is left out. -/
def resolveSpan (now : Instant) (position : Position) (s : Span) :
    Except PlanFault Range := do
  let start ← resolve now position s.start
  let stop ← resolve now position (s.stop.getD .now)
  return ⟨start, stop⟩

/-- What a select stage asks about its metric. -/
def metricOf (s : Select) : Metric :=
  ⟨s.metric, Tags.ofList (s.filters.map fun f => (f.key, f.values)), [],
    if s.groupBy.isEmpty then [] else [Grouping.byTags s.groupBy]⟩

/-- The range of a select stage: the one it writes, or else the one written last before
it. -/
def rangeAfter (now : Instant) (last : Range) (x : Select) (position : Position) :
    Except PlanFault Range :=
  match x.span with
  | some span => resolveSpan now position span
  | none => .ok last

/-- The request of a select stage over a range. -/
def requestOf (x : Select) (range : Range) : Request :=
  ⟨range.start, range.stop, [metricOf x]⟩

/-- Binds a select stage. -/
def bindSelect (now : Instant) (b : Binding) (x : Select) (position : Position) :
    Except PlanFault (Binding × Nat) := do
  let range ← rangeAfter now b.range x position
  return { b with range := range }.add (.ask (requestOf x range)) [] position

/-! ## Aggregations -/

/-- The stages that an aggregation names, or else the stage before it. -/
def named (b : Binding) (a : Aggregation) (position : Position) :
    Except PlanFault (List Nat) :=
  match a.sources with
  | some names => names.mapM fun s =>
      match b.find? s with
      | some i => .ok i
      | none => .error (.undefinedSource s position)
  | none => .ok b.previous.toList

/-- The stages that an aggregation reads, of which there has to be one. -/
def sources (b : Binding) (a : Aggregation) (position : Position) :
    Except PlanFault (List Nat) := do
  let found ← b.named a position
  if found.isEmpty then .error (.noSources a.name position) else .ok found

/-- The single request among the stages that an aggregation reads. -/
def requestAmong? (b : Binding) : List Nat → Option (Nat × Request)
  | [i] => ((b.work? i).bind Work.request?).map fun r => (i, r)
  | _ => none

/-- Whether some stage reads a stage. -/
def isRead (b : Binding) (i : Nat) : Bool := b.nodes.any fun n => n.inputs.contains i

/-- A request whose metrics are run through one more function of the backend. -/
def aggregated (r : Request) (a : Aggregator) : Request :=
  { r with metrics :=
    r.metrics.map fun m => { m with aggregators := m.aggregators ++ [a] } }

/-- Makes a function of the backend part of the request it reads from, or of a copy when
a stage reads that request already. -/
def lift (b : Binding) (target : Nat) (r : Request) (a : Aggregator)
    (position : Position) : Binding × Nat :=
  let work := Work.ask (aggregated r a)
  if b.isRead target then b.add work [] position
  else
    ({ b with nodes := b.nodes.modify target fun n => { n with work := work } }, target)

/-- Binds an aggregation. -/
def bindAggregation (combiners : Combiners α) (b : Binding) (a : Aggregation)
    (position : Position) :
    Except PlanFault (Binding × Nat) := do
  let inputs ← b.sources a position
  match if isBackendFunction a.name then b.requestAmong? inputs else none with
  | some (target, r) =>
    let d ← (decodeBackend a.name a.arguments).mapError (.invalidArguments a.name)
    return (b.warn d.warnings).lift target r d.value position
  | none =>
    match combiners.decode? a.name a.arguments with
    | none =>
      .error (if isBackendFunction a.name then .notSingleSelect a.name position
        else .unknownAggregator a.name position)
    | some decoded =>
      let d ← decoded.mapError (.invalidArguments a.name)
      return (b.warn d.warnings).add (Settles.work d.value) inputs position

/-! ## Statements -/

/-- Lets a name stand for a stage.  A stage keeps the first name it gets. -/
def bindName (b : Binding) (name : Option String) (i : Nat) : Binding :=
  match name with
  | none => b
  | some n =>
    { b with
      names := (n, i) :: b.names
      nodes := b.nodes.modify i fun d => { d with name := d.name.or (some n) } }

/-- Lets a stage and its name stand for a number; the next stage may read it without a
name. -/
def stand (b : Binding) (s : Stage) (i : Nat) : Binding :=
  { b.bindName s.binding i with previous := some i }

/-- Binds what a stage does. -/
def bindBody (combiners : Combiners α) (now : Instant) (b : Binding) (s : Stage) :
    Except PlanFault (Binding × Nat) :=
  match s.body with
  | .select x => bindSelect now b x s.position
  | .aggregate a => bindAggregation combiners b a s.position

/-- Binds a stage under a name that no stage before it has. -/
def bindStage (combiners : Combiners α) (now : Instant) (b : Binding) (s : Stage) :
    Except PlanFault Binding :=
  match s.binding.filter fun n => (b.find? n).isSome with
  | some name => .error (.repeatedBinding name s.position)
  | none => do
    let (b, i) ← bindBody combiners now b s
    return b.stand s i

/-- Binds stages in their order. -/
def bindStages (combiners : Combiners α) (now : Instant) (ss : List Stage) :
    Except PlanFault Binding :=
  ss.foldlM (bindStage combiners now) (start now)

/-- The fault of the first request that cannot be sent. -/
def requestFault? (b : Binding) : Option PlanFault :=
  b.nodes.findSome? fun n =>
    match n.work.request? with
    | some r => if r.isValid then none else some (.invalidRequest n.position r.faults)
    | none => none

/-- Adds a finished stage after finished stages. -/
def finishNode (done : List Node) (d : DraftNode) : List Node :=
  done ++ [.mk done.length d.name d.work (d.inputs.filterMap fun i => done[i]?)]

/-- The finished stages.  Inputs come before the stages that read them, so one pass is
enough. -/
def finished (b : Binding) : List Node := b.nodes.foldl finishNode []

end Binding

/-- Makes the plan of a statement; relative times count back from `now`. -/
def Statement.plan {α : Type} [Settles α] (combiners : Combiners α) (now : Instant)
    (s : Statement) :
    Except PlanFault Plan := do
  let b ← Binding.bindStages combiners now s.stages
  match b.previous.bind fun i => b.finished[i]? with
  | none => .error .noStages
  | some terminal =>
    match b.requestFault? with
    | some fault => .error fault
    | none => .ok ⟨terminal, b.warnings⟩

end SeriesQuery
