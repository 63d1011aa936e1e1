import SeriesQuery.Backend.Response

/-!
# Results

A result is what a stage gives: an answer of the backend, or several put together, with
warnings, errors and alerts noticed on the way.  Results are put together in the order
given, and nothing is dropped or reordered.  Of members that answers have beside their
blocks the first value counts.
-/

namespace SeriesQuery

open SeriesQuery.Json
open SeriesQuery.Time (Instant)
open SeriesQuery.Backend (Response)

/-- A point that satisfied a threshold. -/
structure Alert where
  time : Instant
  value : Float
  deriving BEq, Repr

/-- What a stage gives. -/
structure SeriesResult where
  response : Response
  warnings : List String
  errors : List String
  alerts : List Alert
  deriving BEq, Repr

namespace SeriesResult

/-- A result with nothing in it. -/
def empty : SeriesResult := ⟨.empty, [], [], []⟩

/-- The result of an answer. -/
def ofResponse (r : Response) : SeriesResult := ⟨r, [], [], []⟩

/-- Appends warnings. -/
def withWarnings (r : SeriesResult) (ws : List String) : SeriesResult :=
  { r with warnings := r.warnings ++ ws }

/-- Appends errors. -/
def withErrors (r : SeriesResult) (es : List String) : SeriesResult :=
  { r with errors := r.errors ++ es }

/-- Appends alerts. -/
def withAlerts (r : SeriesResult) (as : List Alert) : SeriesResult :=
  { r with alerts := r.alerts ++ as }

/-- Two results put together. -/
def append (a b : SeriesResult) : SeriesResult where
  response :=
    { blocks := a.response.blocks ++ b.response.blocks
      other := b.response.other.foldl (fun fs m => fs.putNew m.1 m.2) a.response.other }
  warnings := a.warnings ++ b.warnings
  errors := a.errors ++ b.errors
  alerts := a.alerts ++ b.alerts

/-- All results put together in order. -/
def concat (rs : List SeriesResult) : SeriesResult := rs.foldl append empty

end SeriesResult

/-! ## JSON form -/

/-- An alert. -/
def Alert.toJson (a : Alert) : Value :=
  .object [("time", .text a.time.zuluText), ("value", .float a.value)]

/-- A result; alerts are left out when there are none. -/
def SeriesResult.toJson (r : SeriesResult) : Value :=
  .object ([("response", r.response.toJson), ("warnings", Value.texts r.warnings),
    ("errors", Value.texts r.errors)] ++
    (if r.alerts.isEmpty then [] else [("alerts", .array (r.alerts.map Alert.toJson))]))

/-! ## Reading the JSON form -/

open Decoder

/-- An instant in the relaxed way. -/
def instantDecoder : Decoder Instant := fun depth t => do
  required (Instant.readRelaxed? (← Decoder.text depth t).toList)

/-- Members of an alert read so far. -/
structure Alert.Draft where
  time : Option Instant := none
  value : Option Float := none

/-- Reads one member of an alert. -/
def Alert.Draft.step (depth : Nat) (d : Alert.Draft) (key : String) (t : Tree) :
    Except Problem Alert.Draft :=
  match key with
  | "time" => return { d with time := ← once d.time instantDecoder depth t }
  | "value" => return { d with value := ← once d.value Decoder.float depth t }
  | _ => do
    skipped t
    return d

/-- An alert. -/
def Alert.decoder : Decoder Alert :=
  record ["time", "value"] {} Draft.step fun d => do
    return ⟨← required d.time, ← required d.value⟩

/-- Members of a result read so far. -/
structure SeriesResult.Draft where
  response : Option Response := none
  warnings : Option (List String) := none
  errors : Option (List String) := none
  alerts : Option (List Alert) := none

/-- Reads one member of a result. -/
def SeriesResult.Draft.step (depth : Nat) (d : SeriesResult.Draft) (key : String)
    (t : Tree) : Except Problem SeriesResult.Draft :=
  match key with
  | "response" =>
    return { d with response := ← once d.response Response.decoder depth t }
  | "warnings" =>
    return { d with warnings := ← once d.warnings (Decoder.list Decoder.text) depth t }
  | "errors" =>
    return { d with errors := ← once d.errors (Decoder.list Decoder.text) depth t }
  | "alerts" =>
    return { d with alerts := ← once d.alerts (Decoder.list Alert.decoder) depth t }
  | _ => do
    skipped t
    return d

/-- A result; all but the answer may be left out. -/
def SeriesResult.decoder : Decoder SeriesResult :=
  record ["response", "warnings", "errors", "alerts"] {} Draft.step fun d => do
    return ⟨← required d.response, d.warnings.getD [], d.errors.getD [],
      d.alerts.getD []⟩

end SeriesQuery
