import SeriesQuery.Backend.Tags
import SeriesQuery.Text.LetterCase
import SeriesQuery.Time.Reading

/-!
# Requests to the backend

A request asks for one or more metrics over one time range.  A metric may be restricted
to some tag values, run through aggregators on the side of the backend, and split into
groups.  A request that the backend cannot act on is refused with all its faults at
once.
-/

namespace SeriesQuery.Backend

open SeriesQuery.Json
open SeriesQuery.Time (Instant)

/-- Units of the window over which the backend aggregates. -/
inductive SamplingUnit where
  | milliseconds | seconds | minutes | hours | days | weeks | months | years
  deriving DecidableEq, Repr

namespace SamplingUnit

/-- The name of a unit. -/
def text : SamplingUnit → String
  | milliseconds => "milliseconds"
  | seconds => "seconds"
  | minutes => "minutes"
  | hours => "hours"
  | days => "days"
  | weeks => "weeks"
  | months => "months"
  | years => "years"

/-- The name of one unit. -/
def singular : SamplingUnit → String
  | milliseconds => "millisecond"
  | seconds => "second"
  | minutes => "minute"
  | hours => "hour"
  | days => "day"
  | weeks => "week"
  | months => "month"
  | years => "year"

/-- All units. -/
def all : List SamplingUnit :=
  [milliseconds, seconds, minutes, hours, days, weeks, months, years]

/-- The unit with exactly this name. -/
def ofName? (s : String) : Option SamplingUnit := all.find? fun u => u.text == s

/-- The unit that a word names, in the singular or plural and in any letter case. -/
def ofWord? (s : String) : Option SamplingUnit :=
  let w := Text.lower s
  all.find? fun u => u.text == w || u.singular == w

end SamplingUnit

/-- A positive whole number of 32 bits. -/
abbrev Count := { n : Nat // 0 < n ∧ n < Nat.pow 2 32 }

/-- A whole number as a count, if it is one. -/
def Count.ofNat? (n : Nat) : Option Count :=
  if h : 0 < n ∧ n < Nat.pow 2 32 then some ⟨n, h⟩ else none

/-- The window over which the backend aggregates. -/
structure Sampling where
  unit : SamplingUnit
  count : Count
  deriving DecidableEq, Repr

/-- One minute. -/
def Sampling.default : Sampling := ⟨.minutes, ⟨1, by decide⟩⟩

/-- An aggregation on the side of the backend; the fraction belongs to percentiles
only. -/
structure Aggregator where
  name : String
  alignSampling : Bool
  sampling : Sampling
  percentile : Option Float
  deriving BEq, Repr

/-- A way of splitting a metric into groups: a name and parameters sorted by key. -/
structure Grouping where
  name : String
  parameters : Fields
  deriving BEq, Repr

/-- Groups by the values of some tags. -/
def Grouping.byTags (tags : List String) : Grouping :=
  ⟨"tag", [("tags", Value.texts tags)]⟩

/-- What is asked about one metric. -/
structure Metric where
  name : String
  tags : Tags
  aggregators : List Aggregator
  groupings : List Grouping
  deriving BEq, Repr

/-- A request: a time range, ends included, and the metrics. -/
structure Request where
  start : Instant
  stop : Instant
  metrics : List Metric
  deriving BEq, Repr

/-! ## Validation -/

/-- What is wrong with a request. -/
inductive RequestFault where
  | reversed (start stop : Instant)
  | noMetric
  | unnamedMetric (index : Nat)
  | unnamedAggregator (metric : String)
  | unnamedGrouping (metric : String)
  /-- A fault in the backend's own words. -/
  | stated (text : String)
  deriving DecidableEq, Repr

/-- What a message says about a fault. -/
def RequestFault.message : RequestFault → String
  | reversed start stop => s!"start {start.text} is after end {stop.text}"
  | noMetric => "query must contain at least one metric"
  | unnamedMetric index => s!"metric #{index} has an empty name"
  | unnamedAggregator metric =>
    s!"metric '{metric}' has an aggregator with an empty name"
  | unnamedGrouping metric => s!"metric '{metric}' has a group_by with an empty name"
  | stated text => text

/-- The faults of one metric: its name, its aggregators, its groupings. -/
def Metric.faults (m : Metric) (index : Nat) : List RequestFault :=
  (if Text.isEmptyText m.name then [.unnamedMetric index] else []) ++
  (m.aggregators.filter fun a => Text.isEmptyText a.name).map
    (fun _ => .unnamedAggregator m.name) ++
  (m.groupings.filter fun g => Text.isEmptyText g.name).map
    (fun _ => .unnamedGrouping m.name)

/-- All faults of a request, in the order of its parts. -/
def Request.faults (r : Request) : List RequestFault :=
  (if r.stop.before r.start then [.reversed r.start r.stop] else []) ++
  (if r.metrics.isEmpty then [.noMetric] else []) ++
  r.metrics.zipIdx.flatMap fun (m, i) => m.faults i

/-- Whether a request can be sent. -/
def Request.isValid (r : Request) : Bool := r.faults.isEmpty

/-- What a message says about a request that cannot be sent. -/
def invalidMessage (faults : List RequestFault) : String :=
  "invalid query: " ++ "; ".intercalate (faults.map RequestFault.message)

/-! ## JSON form -/

/-- A window. -/
def Sampling.toJson (s : Sampling) : Value :=
  .object [("unit", .text s.unit.text), ("value", .nat s.count.val)]

/-- An aggregation; the fraction is left out when there is none. -/
def Aggregator.toJson (a : Aggregator) : Value :=
  .object ([("name", .text a.name), ("align_sampling", .bool a.alignSampling),
    ("sampling", a.sampling.toJson)] ++
    match a.percentile with
    | some p => [("percentile", .float p)]
    | none => [])

/-- A grouping: its name, then its parameters. -/
def Grouping.toJson (g : Grouping) : Value :=
  .object (("name", .text g.name) :: g.parameters)

/-- A metric; empty parts are left out. -/
def Metric.toJson (m : Metric) : Value :=
  .object ([("name", .text m.name)] ++
    (if m.tags.isEmpty then [] else [("tags", m.tags.toJson)]) ++
    (if m.aggregators.isEmpty then []
      else [("aggregators", .array (m.aggregators.map Aggregator.toJson))]) ++
    (if m.groupings.isEmpty then []
      else [("group_by", .array (m.groupings.map Grouping.toJson))]))

/-- A request; its range in milliseconds. -/
def Request.toJson (r : Request) : Value :=
  .object [("start_absolute", .int r.start.millis),
    ("end_absolute", .int r.stop.millis),
    ("metrics", .array (r.metrics.map Metric.toJson))]

/-! ## Reading the JSON form -/

open Decoder

/-- A unit. -/
def SamplingUnit.decoder : Decoder SamplingUnit := word SamplingUnit.ofName?

/-- A positive whole number of 32 bits. -/
def Count.decoder : Decoder Count := fun depth t => do
  required (Count.ofNat? (← nat (Nat.pow 2 32 - 1) depth t))

/-- Members of a window read so far. -/
structure Sampling.Draft where
  unit : Option SamplingUnit := none
  count : Option Count := none

/-- Reads one member of a window. -/
def Sampling.Draft.step (depth : Nat) (d : Sampling.Draft) (key : String) (t : Tree) :
    Except Problem Sampling.Draft :=
  match key with
  | "unit" => return { d with unit := ← once d.unit SamplingUnit.decoder depth t }
  | "value" => return { d with count := ← once d.count Count.decoder depth t }
  | _ => do
    skipped t
    return d

/-- A window. -/
def Sampling.decoder : Decoder Sampling :=
  record ["unit", "value"] {} Draft.step fun d => do
    return ⟨← required d.unit, ← required d.count⟩

/-- Members of an aggregation read so far. -/
structure Aggregator.Draft where
  name : Option String := none
  alignSampling : Option Bool := none
  sampling : Option Sampling := none
  percentile : Option (Option Float) := none

/-- Reads one member of an aggregation. -/
def Aggregator.Draft.step (depth : Nat) (d : Aggregator.Draft) (key : String)
    (t : Tree) : Except Problem Aggregator.Draft :=
  match key with
  | "name" => return { d with name := ← once d.name Decoder.text depth t }
  | "align_sampling" =>
    return { d with alignSampling := ← once d.alignSampling Decoder.bool depth t }
  | "sampling" =>
    return { d with sampling := ← once d.sampling Sampling.decoder depth t }
  | "percentile" =>
    return { d with percentile := ← once d.percentile Decoder.float? depth t }
  | _ => do
    skipped t
    return d

/-- An aggregation; all but its name may be left out. -/
def Aggregator.decoder : Decoder Aggregator :=
  record ["name", "align_sampling", "sampling", "percentile"] {} Draft.step fun d => do
    return ⟨← required d.name, d.alignSampling.getD true, d.sampling.getD .default,
      d.percentile.getD none⟩

/-- Members of a grouping read so far. -/
structure Grouping.Draft where
  name : Option String := none
  parameters : Fields := []

/-- Reads one member of a grouping. -/
def Grouping.Draft.step (depth : Nat) (d : Grouping.Draft) (key : String) (t : Tree) :
    Except Problem Grouping.Draft :=
  match key with
  | "name" => return { d with name := ← once d.name Decoder.text depth t }
  | _ => return { d with parameters := d.parameters.put key (← Decoder.value depth t) }

/-- A grouping; every member but the name is a parameter. -/
def Grouping.decoder : Decoder Grouping :=
  object {} Draft.step fun d => return ⟨← required d.name, d.parameters⟩

/-- Members of a metric read so far. -/
structure Metric.Draft where
  name : Option String := none
  tags : Option Tags := none
  aggregators : Option (List Aggregator) := none
  groupings : Option (List Grouping) := none

/-- Reads one member of a metric. -/
def Metric.Draft.step (depth : Nat) (d : Metric.Draft) (key : String) (t : Tree) :
    Except Problem Metric.Draft :=
  match key with
  | "name" => return { d with name := ← once d.name Decoder.text depth t }
  | "tags" => return { d with tags := ← once d.tags Tags.decoder depth t }
  | "aggregators" =>
    return { d with
      aggregators := ← once d.aggregators (Decoder.list Aggregator.decoder) depth t }
  | "group_by" =>
    return { d with
      groupings := ← once d.groupings (Decoder.list Grouping.decoder) depth t }
  | _ => do
    skipped t
    return d

/-- A metric; all but its name may be left out. -/
def Metric.decoder : Decoder Metric :=
  record ["name", "tags", "aggregators", "group_by"] {} Draft.step fun d => do
    return ⟨← required d.name, d.tags.getD {}, d.aggregators.getD [],
      d.groupings.getD []⟩

/-- An instant in milliseconds. -/
def millisDecoder : Decoder Instant := fun depth t => do
  required (Instant.ofMillis? (← int64 depth t))

/-- Members of a request read so far. -/
structure Request.Draft where
  start : Option Instant := none
  stop : Option Instant := none
  metrics : Option (List Metric) := none

/-- Reads one member of a request. -/
def Request.Draft.step (depth : Nat) (d : Request.Draft) (key : String) (t : Tree) :
    Except Problem Request.Draft :=
  match key with
  | "start_absolute" => return { d with start := ← once d.start millisDecoder depth t }
  | "end_absolute" => return { d with stop := ← once d.stop millisDecoder depth t }
  | "metrics" =>
    return { d with metrics := ← once d.metrics (Decoder.list Metric.decoder) depth t }
  | _ => do
    skipped t
    return d

/-- A request. -/
def Request.decoder : Decoder Request :=
  record ["start_absolute", "end_absolute", "metrics"] {} Draft.step fun d => do
    return ⟨← required d.start, ← required d.stop, ← required d.metrics⟩

end SeriesQuery.Backend
