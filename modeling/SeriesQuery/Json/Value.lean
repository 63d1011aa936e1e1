import SeriesQuery.Decimal.Layout

/-!
# JSON values

The values that a JSON text denotes.  A number keeps its kind: a whole number of 64
bits, with or without sign, or a floating-point number.  An object that came from
outside has its members sorted by key, each key once; an object that the program makes
has its members in the order in which they are to be written.
-/

namespace SeriesQuery.Json

/-- A number and its kind. -/
inductive Number where
  | natural (n : Nat)
  | negative (n : Int)
  | float (x : Float)
  deriving BEq, Repr, Inhabited

/-- The floating-point number nearest to the number. -/
def Number.toFloat : Number → Float
  | natural n => Float.ofNat n
  | negative n => Float.ofInt n
  | float x => x

/-- A JSON value. -/
inductive Value where
  | null
  | bool (b : Bool)
  | number (n : Number)
  | text (s : String)
  | array (items : List Value)
  | object (members : List (String × Value))
  deriving Repr, Inhabited

/-- Keys with their values. -/
abbrev Fields := List (String × Value)

namespace Value

mutual

/-- Equality of values; floating-point numbers are compared as numbers. -/
def same : Value → Value → Bool
  | null, null => true
  | bool a, bool b => a == b
  | number a, number b => a == b
  | text a, text b => a == b
  | array a, array b => sameItems a b
  | object a, object b => sameMembers a b
  | _, _ => false

/-- Equality of lists of values. -/
def sameItems : List Value → List Value → Bool
  | [], [] => true
  | a :: as, b :: bs => same a b && sameItems as bs
  | _, _ => false

/-- Equality of lists of members. -/
def sameMembers : List (String × Value) → List (String × Value) → Bool
  | [], [] => true
  | (k, a) :: as, (l, b) :: bs => k == l && same a b && sameMembers as bs
  | _, _ => false

end

instance : BEq Value := ⟨same⟩

/-- A whole number from zero on. -/
def nat (n : Nat) : Value := number (.natural n)

/-- A whole number. -/
def int (n : Int) : Value := number (if n < 0 then .negative n else .natural n.toNat)

/-- A floating-point number. -/
def float (x : Float) : Value := number (.float x)

/-- A list of texts. -/
def texts (ts : List String) : Value := array (ts.map text)

/-- The number of a numeric value. -/
def toFloat? : Value → Option Float
  | number n => some n.toFloat
  | _ => none

/-- The characters of a text value. -/
def text? : Value → Option String
  | text s => some s
  | _ => none

end Value

namespace Fields

/-- The value under a key. -/
def get? (fs : Fields) (key : String) : Option Value :=
  (fs.find? fun f => f.1 == key).map (·.2)

/-- Puts a value under a key of sorted fields; an earlier value under it is lost. -/
def put (key : String) (v : Value) : Fields → Fields
  | [] => [(key, v)]
  | f :: fs =>
    if key < f.1 then (key, v) :: f :: fs
    else if key = f.1 then (key, v) :: fs
    else f :: put key v fs

/-- Puts a value under a key of sorted fields unless there is one already. -/
def putNew (key : String) (v : Value) (fs : Fields) : Fields :=
  match get? fs key with
  | some _ => fs
  | none => put key v fs

/-- Sorted fields from members in any order; of a repeated key the last value counts. -/
def ofMembers (ms : List (String × Value)) : Fields :=
  ms.foldl (fun fs m => put m.1 m.2 fs) []

end Fields

end SeriesQuery.Json
