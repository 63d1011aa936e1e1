import SeriesQuery.Plan.Argument
import SeriesQuery.Result.Threshold

/-!
# Aggregators

Some aggregators are functions of the backend: the stage that uses one becomes part of
the request it reads from.  The others combine results here, each known under a
lower-case name; a name registered again means the aggregator registered last.
-/

namespace SeriesQuery

open SeriesQuery.Backend (Aggregator Sampling SamplingUnit)

/-! ## Functions of the backend -/

/-- Names of the functions that the backend computes. -/
def backendFunctions : List String :=
  ["min", "max", "merge", "percentile", "count", "avg", "sum"]

/-- Whether the backend computes an aggregator. -/
def isBackendFunction (name : String) : Bool := backendFunctions.contains name

/-- Settings of a function of the backend.  Only percentiles have a fraction, and they
need it. -/
def backendGetter (name : String) : Asking (Option Aggregator) := do
  let align ← Getter.boolean? "align_sampling"
  let unit ← Getter.choice? "sampling_unit" SamplingUnit.ofWord?
      (SamplingUnit.all.map (·.text))
  let count ← Getter.count? "sampling_value"
  let percentile ←
    if name = "percentile" then (·.map some) <$> Getter.fraction "percentile"
    else pure (some none)
  return do
    let align ← align
    let unit ← unit
    let count ← count
    let percentile ← percentile
    some ⟨name, align.getD true,
      ⟨unit.getD Sampling.default.unit, count.getD Sampling.default.count⟩, percentile⟩

/-- Reads the arguments of a function of the backend. -/
def decodeBackend (name : String) (given : List Argument) :
    Except (List ArgumentFault) (Decoded Aggregator) :=
  decodeArguments name given (backendGetter name)

/-! ## Combinations -/

/-- A way of combining results. -/
inductive Combination where
  | union
  | threshold (t : Threshold)
  deriving BEq, Repr

/-- A union has no settings. -/
def unionGetter : Asking (Option Combination) := return some .union

/-- Settings of a threshold: the limit and the comparison have to be given. -/
def thresholdGetter : Asking (Option Combination) := do
  let limit ← Getter.number "threshold"
  let comparison ←
    Getter.choice "operator" Comparison.ofWord? (Comparison.all.map Comparison.text)
  let nonNumeric ←
    Getter.choice? "non_numeric" NonNumeric.ofWord? (NonNumeric.all.map NonNumeric.text)
  return do
    let limit ← limit
    let comparison ← comparison
    let nonNumeric ← nonNumeric
    some (.threshold ⟨limit, comparison, nonNumeric.getD .skip⟩)

/-- The registered aggregators, sorted by name, each with the reader of its settings.
As a rule their settings are combinations. -/
structure Combiners (α : Type := Combination) where
  entries : List (String × Getter α)

namespace Combiners

variable {α : Type}

/-- No aggregator. -/
def empty : Combiners α := ⟨[]⟩

/-- Puts an entry in its place, instead of one of the same name. -/
def insertEntry (name : String) (getter : Getter α) :
    List (String × Getter α) → List (String × Getter α)
  | [] => [(name, getter)]
  | e :: es =>
    if name < e.1 then (name, getter) :: e :: es
    else if name = e.1 then (name, getter) :: es
    else e :: insertEntry name getter es

/-- Registers an aggregator under the lower-case form of a name. -/
def register (cs : Combiners α) (name : String) (getter : Getter α) : Combiners α :=
  ⟨insertEntry (Text.lower name) getter cs.entries⟩

/-- The aggregators that are always there. -/
def standard : Combiners :=
  (empty.register "union" unionGetter).register "threshold" thresholdGetter

/-- The settings that go with a name. -/
def find? (cs : Combiners α) (name : String) : Option (Getter α) :=
  (cs.entries.find? fun e => e.1 == name).map (·.2)

/-- Whether a name is registered. -/
def contains (cs : Combiners α) (name : String) : Bool := (cs.find? name).isSome

/-- The names, sorted. -/
def names (cs : Combiners α) : List String := cs.entries.map (·.1)

/-- The names as diagnostics show them. -/
def shown (cs : Combiners α) : String :=
  "AggregatorRegistry \x7b aggregators: [" ++
    ", ".intercalate (cs.names.map Text.quoted) ++ "] \x7d"

/-- Reads the arguments of a registered aggregator. -/
def decode? (cs : Combiners α) (name : String) (given : List Argument) :
    Option (Except (List ArgumentFault) (Decoded α)) :=
  (cs.find? name).map (decodeArguments name given)

end Combiners

end SeriesQuery
