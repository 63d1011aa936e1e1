import SeriesQuery.Json.Written
import SeriesQuery.Result.Basic

/-!
# Thresholds

A threshold compares every numeric point of the results it reads with a limit and raises
an alert for each that satisfies the comparison.  A point that is no number is counted
and warned about, or ends the evaluation, as the policy says.  The answer itself is that
of all the results put together.
-/

namespace SeriesQuery

open SeriesQuery.Json
open SeriesQuery.Backend (Point)

/-- How a value is compared with a limit. -/
inductive Comparison where
  | equalTo | greaterThan | greaterThanOrEqualTo | lessThan | lessThanOrEqualTo
  deriving DecidableEq, Repr

namespace Comparison

/-- The name of a comparison. -/
def text : Comparison → String
  | equalTo => "EQUAL_TO"
  | greaterThan => "GREATER_THAN"
  | greaterThanOrEqualTo => "GREATER_THAN_OR_EQUAL_TO"
  | lessThan => "LESS_THAN"
  | lessThanOrEqualTo => "LESS_THAN_OR_EQUAL_TO"

/-- All comparisons. -/
def all : List Comparison :=
  [equalTo, greaterThan, greaterThanOrEqualTo, lessThan, lessThanOrEqualTo]

/-- The comparison with exactly this name. -/
def ofName? (s : String) : Option Comparison := all.find? fun c => c.text == s

/-- The comparison that a word names, whatever the case of its ASCII letters. -/
def ofWord? (s : String) : Option Comparison :=
  all.find? fun c => Text.sameIgnoringCase c.text s

/-- The distance below which two numbers count as equal. -/
def tolerance : Float := Float.ofBits 0x3cb0000000000000

/-- Whether a value satisfies the comparison with a limit. -/
def holds (c : Comparison) (value limit : Float) : Bool :=
  match c with
  | equalTo => (value - limit).abs < tolerance
  | greaterThan => value > limit
  | greaterThanOrEqualTo => value >= limit
  | lessThan => value < limit
  | lessThanOrEqualTo => value <= limit

end Comparison

/-- What is done about a point that is no number. -/
inductive NonNumeric where
  | skip | fail
  deriving DecidableEq, Repr

namespace NonNumeric

/-- The name of a policy. -/
def text : NonNumeric → String
  | skip => "skip"
  | fail => "fail"

/-- All policies. -/
def all : List NonNumeric := [skip, fail]

/-- The policy with exactly this name. -/
def ofName? (s : String) : Option NonNumeric := all.find? fun p => p.text == s

/-- The policy that a word names, in any letter case. -/
def ofWord? (s : String) : Option NonNumeric := ofName? (Text.lower s)

end NonNumeric

/-- A threshold stage's settings. -/
structure Threshold where
  limit : Float
  comparison : Comparison
  nonNumeric : NonNumeric
  deriving BEq, Repr

/-- What a message says about a point that is no number. -/
def nonNumericMessage (p : Point) : String :=
  "non-numeric value " ++ p.value.compact ++ " at " ++ p.time.text

/-- What a warning says about points that were skipped. -/
def skippedMessage (n : Nat) : String :=
  s!"threshold skipped {n} non-numeric datapoint(s)"

namespace Threshold

/-- The alert that a point raises, if any. -/
def alert? (t : Threshold) (p : Point) : Option Alert :=
  match p.number? with
  | some x => if t.comparison.holds x t.limit then some ⟨p.time, x⟩ else none
  | none => none

/-- The points that a threshold looks at, in order. -/
def scanned (rs : List SeriesResult) : List Point :=
  rs.flatMap fun r => r.response.points

/-- The first point that ends the evaluation. -/
def offending? (t : Threshold) (rs : List SeriesResult) : Option Point :=
  match t.nonNumeric with
  | .skip => none
  | .fail => (scanned rs).find? fun p => p.number?.isNone

/-- Evaluates a threshold over results in their declared order; fails with the message
about the first point that ends it. -/
def evaluate (t : Threshold) (rs : List SeriesResult) : Except String SeriesResult :=
  match t.offending? rs with
  | some p => .error (nonNumericMessage p)
  | none =>
    let points := scanned rs
    let skipped := points.countP fun p => p.number?.isNone
    .ok (((SeriesResult.concat rs).withWarnings
        (if skipped = 0 then [] else [skippedMessage skipped])).withAlerts
      (points.filterMap t.alert?))

/-- The settings as JSON. -/
def toJson (t : Threshold) : Value :=
  .object [("threshold", .float t.limit), ("operator", .text t.comparison.text),
    ("non_numeric", .text t.nonNumeric.text)]

end Threshold

open Decoder in
/-- A comparison by its exact name. -/
def Comparison.decoder : Decoder Comparison := word Comparison.ofName?

open Decoder in
/-- A policy by its exact name. -/
def NonNumeric.decoder : Decoder NonNumeric := word NonNumeric.ofName?

end SeriesQuery
