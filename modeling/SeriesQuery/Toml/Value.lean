/-!
# Settings files as values

A settings file holds a table of values, some of which are tables again.  A table may be
written under a header, between braces, or by keys with dots, and it may also come about
only because a header below it mentions it.  How it came about decides whether it may be
written again.
-/

namespace SeriesQuery.Toml

/-- How a table came about. -/
inductive Origin where
  /-- It has a header of its own. -/
  | header
  /-- A header below it mentions it. -/
  | implied
  /-- A key with dots mentions it. -/
  | dotted
  /-- It is written between braces. -/
  | braces
  deriving DecidableEq, Repr

/-- A value of a settings file. -/
inductive Value where
  | text (s : String)
  | integer (n : Int)
  | float (x : Float)
  | boolean (b : Bool)
  /-- A date, a time of day or both, as written. -/
  | moment (written : List Char)
  | array (items : List Value)
  | table (origin : Origin) (members : List (String × Value))
  /-- Tables under repeated headers. -/
  | rows (tables : List (List (String × Value)))

/-- Keys with their values, in the order written. -/
abbrev Members := List (String × Value)

/-- The value of a key. -/
def Members.get? (ms : Members) (key : String) : Option Value :=
  (ms.find? fun m => m.1 == key).map (·.2)

/-- Gives a key that is there another value, or puts it at the end. -/
def Members.put (ms : Members) (key : String) (v : Value) : Members :=
  match ms with
  | [] => [(key, v)]
  | m :: rest => if m.1 = key then (key, v) :: rest else m :: Members.put rest key v

end SeriesQuery.Toml
