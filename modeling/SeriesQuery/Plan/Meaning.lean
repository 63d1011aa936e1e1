import SeriesQuery.Plan.Binding

/-!
# What stages mean

What a statement asks for can be said stage by stage, without numbers, sharing or
changing anything that was said before.  A select means its request.  A function of the
backend over a single stage that means a request means that request with the function
added; any other aggregation means the combination of what the stages it reads mean.  A
plan says the same as a graph, and forgetting the numbers and names of a graph leaves a
meaning.
-/

namespace SeriesQuery

open SeriesQuery.Backend (Aggregator Grouping Metric Request Tags)
open SeriesQuery.Time (Instant)

/-- What is to be done, over what is to be done first. -/
inductive Meaning where
  | mk (work : Work) (inputs : List Meaning)

/-- The request that a meaning is. -/
def Meaning.request? : Meaning → Option Request
  | mk work _ => work.request?

/-- The request among some meanings when it is the only one. -/
def Meaning.single? : List Meaning → Option Request
  | [m] => m.request?
  | _ => none

mutual

/-- What a stage of a plan means: numbers and names are forgotten. -/
def Node.meaning : Node → Meaning
  | .mk _ _ work inputs => .mk work (Node.meanings inputs)

/-- What some stages of a plan mean. -/
def Node.meanings : List Node → List Meaning
  | [] => []
  | n :: ns => n.meaning :: Node.meanings ns

end

/-! ## Reading a statement -/

namespace Stages

/-- The place of the stage with a name. -/
def place? (earlier : List Stage) (name : String) : Option Nat :=
  earlier.findIdx? fun s => s.binding == some name

/-- The places of the stages that the stage at `k` reads: those it names, or else the
one before. -/
def reads (ss : List Stage) (k : Nat) : List Nat :=
  match ss[k]?.map Stage.body with
  | some (.aggregate a) =>
    match a.sources with
    | some names => names.filterMap (place? (ss.take k))
    | none => if k = 0 then [] else [k - 1]
  | _ => []

/-- Whether a stage means a request: a select does, and so does a function of the
backend over a single stage that does. -/
inductive IsRequest (ss : List Stage) : Nat → Prop
  | select {k : Nat} {s : Stage} {x : Select} :
      ss[k]? = some s → s.body = .select x → IsRequest ss k
  | function {k j : Nat} {s : Stage} {a : Aggregation} :
      ss[k]? = some s → s.body = .aggregate a → isBackendFunction a.name = true →
      reads ss k = [j] → IsRequest ss j → IsRequest ss k

/-- Whether the stage at `k` puts a function of the backend over the stage at `j`. -/
def PutOver (ss : List Stage) (k j : Nat) : Prop :=
  ∃ s a, ss[k]? = some s ∧ s.body = .aggregate a ∧ isBackendFunction a.name = true ∧
    reads ss k = [j] ∧ IsRequest ss j

/-- Whether no stage reads again what an earlier stage has put a function over. -/
def ReadAfresh (ss : List Stage) : Prop :=
  ∀ k j l, PutOver ss k j → k < l → j ∉ reads ss l

/-- Whether a stage is a function of the backend. -/
def isFunction (ss : List Stage) (k : Nat) : Bool :=
  match ss[k]?.map Stage.body with
  | some (.aggregate a) => isBackendFunction a.name
  | _ => false

/-- Checks stage by stage that what a function of the backend reads is not read
again. -/
def isReadAfresh (ss : List Stage) : Bool :=
  (List.range ss.length).all fun l => (List.range l).all fun k =>
    !isFunction ss k || (reads ss k).all fun j => !(reads ss l).contains j

end Stages

/-- The range that a written span denotes, if its times can be told; it ends at the
present unless it says otherwise. -/
def Span.range? (now : Instant) (s : Span) : Option Range :=
  match s.start.resolve now, (s.stop.getD .now).resolve now with
  | .ok start, .ok stop => some ⟨start, stop⟩
  | _, _ => none

/-- The range of a select stage: the one it writes, or else the one written last before
it. -/
def Select.range? (now : Instant) (last : Range) (x : Select) : Option Range :=
  match x.span with
  | none => some last
  | some span => span.range? now

/-- What a select stage asks over a range: its metric, for the tags that it filters and
in the groups that it names, and nothing made of it by a function of the backend. -/
def Select.asks (x : Select) (range : Range) : Request where
  start := range.start
  stop := range.stop
  metrics := [
    { name := x.metric
      tags := Tags.ofList (x.filters.map fun f => (f.key, f.values))
      aggregators := []
      groupings := if x.groupBy.isEmpty then [] else [Grouping.byTags x.groupBy] }]

/-- A request with one more function, which comes last for each of its metrics. -/
def Backend.Request.followedBy (r : Request) (a : Aggregator) : Request where
  start := r.start
  stop := r.stop
  metrics := r.metrics.map fun m =>
    { m with aggregators := m.aggregators ++ [a] }

/-- What an aggregation means over what it reads. -/
def Aggregation.meaning? (combiners : Combiners) (a : Aggregation)
    (inputs : List Meaning) : Option Meaning :=
  match if isBackendFunction a.name then Meaning.single? inputs else none with
  | some r =>
    match decodeBackend a.name a.arguments with
    | .ok d => some (.mk (.ask (r.followedBy d.value)) [])
    | .error _ => none
  | none =>
    match combiners.decode? a.name a.arguments with
    | some (.ok d) => some (.mk (.combine d.value) inputs)
    | _ => none

/-- What is known after some stages have been read. -/
structure Reading where
  /-- The range that the next request gets. -/
  range : Range
  /-- What the stages mean, in their order. -/
  meanings : List Meaning

namespace Reading

/-- Nothing has been read; a request gets the last two hours. -/
def start (now : Instant) : Reading := ⟨⟨now.minusSeconds 7200, now⟩, []⟩

/-- Reads the next of some stages. -/
def next (combiners : Combiners) (now : Instant) (ss : List Stage) (g : Reading)
    (s : Stage) : Option Reading :=
  match s.body with
  | .select x =>
    (x.range? now g.range).map fun range =>
      ⟨range, g.meanings ++ [.mk (.ask (x.asks range)) []]⟩
  | .aggregate a =>
    let inputs := (Stages.reads ss g.meanings.length).filterMap fun j => g.meanings[j]?
    (a.meaning? combiners inputs).map fun m => ⟨g.range, g.meanings ++ [m]⟩

end Reading

/-- What the last stage of a statement means. -/
def Statement.meaning? (combiners : Combiners) (now : Instant) (s : Statement) :
    Option Meaning :=
  (s.stages.foldlM (Reading.next combiners now s.stages) (.start now)).bind fun g =>
    g.meanings.getLast?

end SeriesQuery
