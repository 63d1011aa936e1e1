import SeriesQuery.Backend.Request

/-!
# Answers of the backend

An answer holds one block per metric asked for, a block holds series, and a series holds
points.  Each level may have members that are not modelled here; they are kept, sorted
by key, and written after the known ones, so nothing that the backend sends is lost.
-/

namespace SeriesQuery.Backend

open SeriesQuery.Json
open SeriesQuery.Time (Instant)

/-- A sample: usually the value is a number, but it may be of any kind. -/
structure Point where
  time : Instant
  value : Value
  deriving BEq, Repr

/-- The number of a point, if it has one. -/
def Point.number? (p : Point) : Option Float := p.value.toFloat?

/-- A series of points. -/
structure Series where
  points : List Point
  other : Fields
  deriving BEq, Repr

/-- The name that the backend gives a series. -/
def Series.name? (s : Series) : Option String := (s.other.get? "name").bind Value.text?

/-- The series of one metric. -/
structure Block where
  sampleSize : Nat
  series : List Series
  other : Fields
  deriving BEq, Repr

/-- A whole answer. -/
structure Response where
  blocks : List Block
  other : Fields
  deriving BEq, Repr

/-- An answer with nothing in it. -/
def Response.empty : Response := ⟨[], []⟩

/-- All points of an answer, by block, series and place. -/
def Response.points (r : Response) : List Point :=
  r.blocks.flatMap fun b => b.series.flatMap Series.points

/-! ## JSON form -/

/-- A point: its milliseconds and its value. -/
def Point.toJson (p : Point) : Value := .array [.int p.time.millis, p.value]

/-- A series. -/
def Series.toJson (s : Series) : Value :=
  .object (("values", .array (s.points.map Point.toJson)) :: s.other)

/-- A block. -/
def Block.toJson (b : Block) : Value :=
  .object (("sample_size", .nat b.sampleSize) ::
    ("results", .array (b.series.map Series.toJson)) :: b.other)

/-- A whole answer. -/
def Response.toJson (r : Response) : Value :=
  .object (("queries", .array (r.blocks.map Block.toJson)) :: r.other)

/-! ## Reading the JSON form -/

open Decoder

/-- A point: a pair of milliseconds and a value.  The time is judged after the pair was
read. -/
def Point.decoder : Decoder Point
  | depth + 1, .array [m, v] => do
    let millis ← int64 depth m
    let value ← Decoder.value depth v
    match Instant.ofMillis? millis with
    | some time => return ⟨time, value⟩
    | none => throw (.timestamp millis)
  | _, t => .error (.ofTree t)

/-- Members of a series read so far. -/
structure Series.Draft where
  points : Option (List Point) := none
  other : Fields := []

/-- Reads one member of a series. -/
def Series.Draft.step (depth : Nat) (d : Series.Draft) (key : String) (t : Tree) :
    Except Problem Series.Draft :=
  match key with
  | "values" =>
    return { d with points := ← once d.points (Decoder.list Point.decoder) depth t }
  | _ => return { d with other := d.other.put key (← Decoder.value depth t) }

/-- A series. -/
def Series.decoder : Decoder Series :=
  object {} Draft.step fun d => .ok ⟨d.points.getD [], d.other⟩

/-- Members of a block read so far. -/
structure Block.Draft where
  sampleSize : Option Nat := none
  series : Option (List Series) := none
  other : Fields := []

/-- Reads one member of a block. -/
def Block.Draft.step (depth : Nat) (d : Block.Draft) (key : String) (t : Tree) :
    Except Problem Block.Draft :=
  match key with
  | "sample_size" =>
    return { d with
      sampleSize := ← once d.sampleSize (Decoder.nat (Nat.pow 2 64 - 1)) depth t }
  | "results" =>
    return { d with series := ← once d.series (Decoder.list Series.decoder) depth t }
  | _ => return { d with other := d.other.put key (← Decoder.value depth t) }

/-- A block. -/
def Block.decoder : Decoder Block :=
  object {} Draft.step fun d => .ok ⟨d.sampleSize.getD 0, d.series.getD [], d.other⟩

/-- Members of an answer read so far. -/
structure Response.Draft where
  blocks : Option (List Block) := none
  other : Fields := []

/-- Reads one member of an answer. -/
def Response.Draft.step (depth : Nat) (d : Response.Draft) (key : String) (t : Tree) :
    Except Problem Response.Draft :=
  match key with
  | "queries" =>
    return { d with blocks := ← once d.blocks (Decoder.list Block.decoder) depth t }
  | _ => return { d with other := d.other.put key (← Decoder.value depth t) }

/-- A whole answer. -/
def Response.decoder : Decoder Response :=
  object {} Draft.step fun d => .ok ⟨d.blocks.getD [], d.other⟩

end SeriesQuery.Backend
