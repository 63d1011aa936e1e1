import SeriesQuery.Json.Decode

/-!
# Tag filters

A tag filter map gives each tag the values it may have.  Tags keep the order in which
they were first used, and values the order in which they were given, repeats included.
-/

namespace SeriesQuery.Backend

open SeriesQuery.Json

/-- Tags with their values, in the order of first use. -/
structure Tags where
  entries : List (String × List String) := []
  deriving DecidableEq, Repr

namespace Tags

/-- Appends values to the entry of a key, which is made at the end when there is
none. -/
def extendEntries (key : String) (values : List String) :
    List (String × List String) → List (String × List String)
  | [] => [(key, values)]
  | e :: es =>
    if e.1 = key then (e.1, e.2 ++ values) :: es else e :: extendEntries key values es

/-- Appends values under a key. -/
def extend (t : Tags) (key : String) (values : List String) : Tags :=
  ⟨extendEntries key values t.entries⟩

/-- Appends one value under a key. -/
def insert (t : Tags) (key value : String) : Tags := t.extend key [value]

/-- The values under a key. -/
def get? (t : Tags) (key : String) : Option (List String) :=
  (t.entries.find? fun e => e.1 == key).map (·.2)

/-- The number of keys. -/
def size (t : Tags) : Nat := t.entries.length

/-- Whether there is no key. -/
def isEmpty (t : Tags) : Bool := t.entries.isEmpty

/-- The map that a list of keys with values builds up. -/
def ofList (ms : List (String × List String)) : Tags :=
  ms.foldl (fun t m => t.extend m.1 m.2) {}

/-- The map as an object of lists. -/
def toJson (t : Tags) : Value := .object (t.entries.map fun e => (e.1, Value.texts e.2))

/-- Reads an object of lists, also one with repeated keys. -/
def decoder : Decoder Tags :=
  Decoder.object {}
    (fun depth t k v => return t.extend k (← Decoder.list Decoder.text depth v)) .ok

end Tags

end SeriesQuery.Backend
