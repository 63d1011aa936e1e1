import SeriesQuery.Text.LetterCase
import SeriesQuery.Text.Quoted
import SeriesQuery.Decimal.Layout
import SeriesQuery.Time.Instant

/-!
# Statements

A statement is a list of stages.  A stage selects the series of a metric or aggregates
what earlier stages gave, and it may bind a name by which later stages refer to it.  The
types here say what was written; nothing is looked up or checked yet.
-/

namespace SeriesQuery

open SeriesQuery.Time (Instant)

/-- A place in a text: lines and columns count from one, columns in characters. -/
structure Position where
  line : Nat
  column : Nat
  deriving DecidableEq, Repr, Inhabited

/-- A place as messages show it. -/
def Position.text (p : Position) : String := s!"line {p.line}, column {p.column}"

/-- The place that comes right after some characters. -/
def Position.after (consumed : List Char) : Position :=
  ⟨consumed.count '\n' + 1, (consumed.reverse.takeWhile (· != '\n')).length + 1⟩

/-- Units of a relative time.  A month is a step in the calendar, the others are
fixed. -/
inductive TimeUnit where
  | second | minute | hour | day | week | month
  deriving DecidableEq, Repr

namespace TimeUnit

/-- The unit as messages name it. -/
def text : TimeUnit → String
  | second => "seconds"
  | minute => "minutes"
  | hour => "hours"
  | day => "days"
  | week => "weeks"
  | month => "months"

/-- All words for a unit, in lower case. -/
def words : TimeUnit → List String
  | second => ["s", "sec", "secs", "second", "seconds"]
  | minute => ["m", "min", "mins", "minute", "minutes"]
  | hour => ["h", "hr", "hrs", "hour", "hours"]
  | day => ["d", "day", "days"]
  | week => ["w", "week", "weeks"]
  | month => ["mo", "month", "months"]

/-- All units. -/
def all : List TimeUnit := [second, minute, hour, day, week, month]

/-- The unit that a word names, in any letter case. -/
def ofWord? (word : String) : Option TimeUnit :=
  all.find? fun u => u.words.contains (Text.lower word)

/-- Seconds in a fixed unit; a month has no fixed length. -/
def seconds? : TimeUnit → Option Nat
  | second => some 1
  | minute => some 60
  | hour => some 3600
  | day => some 86400
  | week => some 604800
  | month => none

end TimeUnit

/-- A point in time as written. -/
inductive Moment where
  | now
  | ago (amount : Nat) (unit : TimeUnit)
  | fixed (instant : Instant)
  deriving DecidableEq, Repr

/-- A time range as written; the end is now when it is left out. -/
structure Span where
  start : Moment
  stop : Option Moment
  deriving DecidableEq, Repr

/-- A tag and the values it may have. -/
structure TagFilter where
  key : String
  values : List String
  deriving DecidableEq, Repr

/-- A stage that asks the backend for a metric. -/
structure Select where
  metric : String
  span : Option Span
  filters : List TagFilter
  groupBy : List String
  deriving DecidableEq, Repr

/-- The value of an argument. -/
inductive ArgValue where
  | number (x : Float)
  | text (s : String)
  | boolean (b : Bool)
  | word (s : String)
  deriving BEq, Repr

namespace ArgValue

/-- What messages call a value of this form. -/
def form : ArgValue → String
  | number _ => "number"
  | text _ => "string"
  | boolean _ => "boolean"
  | word _ => "identifier"

/-- The characters of a text or a word. -/
def chars? : ArgValue → Option String
  | text s => some s
  | word s => some s
  | _ => none

/-- The value as messages show it. -/
def shown : ArgValue → String
  | number x => Decimal.messageText x
  | text s => Text.quoted s
  | boolean b => if b then "true" else "false"
  | word s => s

end ArgValue

/-- A named argument of an aggregation. -/
structure Argument where
  key : String
  value : ArgValue
  deriving BEq, Repr

/-- A stage that combines what earlier stages gave; without sources it reads the stage
before. -/
structure Aggregation where
  name : String
  sources : Option (List String)
  arguments : List Argument
  deriving BEq, Repr

/-- What a stage does. -/
inductive StageBody where
  | select (s : Select)
  | aggregate (a : Aggregation)
  deriving BEq, Repr

/-- A stage with the name it binds and the place where it begins. -/
structure Stage where
  binding : Option String
  body : StageBody
  position : Position
  deriving BEq, Repr

/-- A statement: its stages in the order written. -/
structure Statement where
  stages : List Stage
  deriving BEq, Repr

end SeriesQuery
