import SeriesQuery.Plan.Meaning

/-!
# The rules of binding

Whether a statement has a plan can be told from what is written, without numbers or a
plan under construction.  Every stage is held against the stages before it, and the
first rule that it breaks is its fault; of the stages the first that breaks a rule is
reported.  When all stages keep the rules, the requests of the select stages are judged,
each as it is written.
-/

namespace SeriesQuery

open SeriesQuery.Backend (Request)
open SeriesQuery.Time (Instant)

/-- The span that a stage writes. -/
def Stage.span? (s : Stage) : Option Span :=
  match s.body with
  | .select x => x.span
  | .aggregate _ => none

namespace Stages

/-! ## Names and sources -/

/-- The names that stages have. -/
def bound (ss : List Stage) : List String := ss.filterMap Stage.binding

/-- No stage before `k` has the name of a stage. -/
def Fresh (ss : List Stage) (k : Nat) (s : Stage) : Prop :=
  ∀ name, s.binding = some name → name ∉ bound (ss.take k)

/-- All stages that an aggregation at `k` names stand before it. -/
def Defined (ss : List Stage) (k : Nat) (a : Aggregation) : Prop :=
  ∀ names, a.sources = some names → ∀ name ∈ names, name ∈ bound (ss.take k)

/-- The stage at `k` puts a function of the backend over a single stage that means a
request. -/
def Folds (ss : List Stage) (k : Nat) : Prop := ∃ j, PutOver ss k j

/-! ## Keeping the rules -/

/-- A stage stands well: its name is new, its times can be told, and it reads earlier
stages. -/
structure Sits (now : Instant) (ss : List Stage) (k : Nat) (s : Stage) : Prop where
  fresh : Fresh ss k s
  times : ∀ span, s.span? = some span → ∃ range, span.range? now = some range
  defined : ∀ a, s.body = .aggregate a → Defined ss k a
  sources : ∀ a, s.body = .aggregate a → reads ss k ≠ []

/-- A stage keeps all rules: it stands well, and what it does can be read.  A function
over a single stage that means a request has to be one of the backend, whatever is
registered under its name; any other aggregation has to be registered. -/
structure Fits (combiners : Combiners) (now : Instant) (ss : List Stage) (k : Nat)
    (s : Stage) :
    Prop extends Sits now ss k s where
  function : ∀ a, s.body = .aggregate a → Folds ss k →
    ∃ d, decodeBackend a.name a.arguments = .ok d
  combination : ∀ a, s.body = .aggregate a → ¬ Folds ss k →
    ∃ d, combiners.decode? a.name a.arguments = some (.ok d)

/-! ## Breaking a rule -/

/-- The fault of a span: that of its start, or else that of its end. -/
inductive SpanFault (now : Instant) (span : Span) : LiteralFault → Prop
  | start {fault : LiteralFault} :
      span.start.resolve now = .error fault → SpanFault now span fault
  | stop {start : Instant} {fault : LiteralFault} :
      span.start.resolve now = .ok start →
      (span.stop.getD .now).resolve now = .error fault → SpanFault now span fault

/-- The fault of an aggregation at `k`: the first of its sources that is no earlier
stage, the lack of sources, or what is wrong with its arguments or its name. -/
inductive AggregationFault (combiners : Combiners) (ss : List Stage) (k : Nat)
    (a : Aggregation) (position : Position) : PlanFault → Prop
  | undefined {before after : List String} {name : String} :
      a.sources = some (before ++ name :: after) →
      (∀ earlier ∈ before, earlier ∈ bound (ss.take k)) → name ∉ bound (ss.take k) →
      AggregationFault combiners ss k a position (.undefinedSource name position)
  | sources :
      Defined ss k a → reads ss k = [] →
      AggregationFault combiners ss k a position (.noSources a.name position)
  | function {faults : List ArgumentFault} :
      Defined ss k a → Folds ss k → decodeBackend a.name a.arguments = .error faults →
      AggregationFault combiners ss k a position (.invalidArguments a.name faults)
  | combination {faults : List ArgumentFault} :
      Defined ss k a → reads ss k ≠ [] → ¬ Folds ss k →
      combiners.decode? a.name a.arguments = some (.error faults) →
      AggregationFault combiners ss k a position (.invalidArguments a.name faults)
  | notSingleSelect :
      Defined ss k a → reads ss k ≠ [] → ¬ Folds ss k →
      isBackendFunction a.name = true → combiners.decode? a.name a.arguments = none →
      AggregationFault combiners ss k a position (.notSingleSelect a.name position)
  | unknown :
      Defined ss k a → reads ss k ≠ [] → isBackendFunction a.name = false →
      combiners.decode? a.name a.arguments = none →
      AggregationFault combiners ss k a position (.unknownAggregator a.name position)

/-- The fault of a stage: a name that an earlier stage has comes before all others. -/
inductive Breaks (combiners : Combiners) (now : Instant) (ss : List Stage) (k : Nat)
    (s : Stage) :
    PlanFault → Prop
  | name {name : String} :
      s.binding = some name → name ∈ bound (ss.take k) →
      Breaks combiners now ss k s (.repeatedBinding name s.position)
  | times {span : Span} {fault : LiteralFault} :
      Fresh ss k s → s.span? = some span → SpanFault now span fault →
      Breaks combiners now ss k s (.invalidTime s.position fault)
  | aggregation {a : Aggregation} {fault : PlanFault} :
      Fresh ss k s → s.body = .aggregate a →
      AggregationFault combiners ss k a s.position fault →
      Breaks combiners now ss k s fault

/-! ## Requests -/

/-- The range of requests after some stages: that of the span written last, or else the
last two hours. -/
def rangeAfter? (now : Instant) (earlier : List Stage) : Option Range :=
  match earlier.reverse.findSome? Stage.span? with
  | some span => span.range? now
  | none => some ⟨now.minusSeconds 7200, now⟩

/-- The request that the stage at `k` writes, if it is a select. -/
def requestAt? (now : Instant) (ss : List Stage) (k : Nat) : Option Request :=
  match ss[k]?.map Stage.body with
  | some (.select x) => (rangeAfter? now (ss.take (k + 1))).map x.asks
  | _ => none

/-- Every stage before `n` keeps the rules. -/
def FitBefore (combiners : Combiners) (now : Instant) (ss : List Stage)
    (n : Nat) : Prop :=
  ∀ (k : Nat) (s : Stage), k < n → ss[k]? = some s → Fits combiners now ss k s

/-- Every request that a stage before `n` writes can be sent. -/
def ValidBefore (now : Instant) (ss : List Stage) (n : Nat) : Prop :=
  ∀ (k : Nat) (r : Request), k < n → requestAt? now ss k = some r → r.isValid = true

/-- The fault of a statement: it has no stages, or it is that of the first stage that
breaks a rule, or else it is that of the first request that cannot be sent. -/
inductive Refused (combiners : Combiners) (now : Instant) (ss : List Stage) :
    PlanFault → Prop
  | empty : ss = [] → Refused combiners now ss .noStages
  | stage {k : Nat} {s : Stage} {fault : PlanFault} :
      ss[k]? = some s → FitBefore combiners now ss k →
      Breaks combiners now ss k s fault → Refused combiners now ss fault
  | request {k : Nat} {s : Stage} {r : Request} :
      FitBefore combiners now ss ss.length → ss[k]? = some s →
      requestAt? now ss k = some r → r.isValid = false → ValidBefore now ss k →
      Refused combiners now ss (.invalidRequest s.position r.faults)

end Stages

end SeriesQuery
