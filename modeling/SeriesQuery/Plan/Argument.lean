import SeriesQuery.Backend.Request
import SeriesQuery.Decimal.Binary
import SeriesQuery.Statement.Basic

/-!
# Reading arguments

An aggregation is told its settings by named arguments, whose names match in any case of
their ASCII letters.  A getter asks for one of them.  It gives no value when the
argument is missing or not of the kind asked for, and then it has recorded why; reading
goes on all the same, so that one attempt finds every fault.  Arguments that no getter
asked for are no fault but a warning.
-/

namespace SeriesQuery

open SeriesQuery.Backend (Count)

/-- What is wrong with an argument. -/
inductive ArgumentFault where
  | missing (field : String)
  | wrongForm (field expected found : String)
  | unknownChoice (field given : String) (choices : List String)
  | notPositive (field : String) (given : Float)
  | notFraction (field : String) (given : Float)
  | repeated (key : String)
  deriving BEq, Repr

/-- What a message says about an argument. -/
def ArgumentFault.message : ArgumentFault → String
  | missing field => s!"missing required argument '{field}'"
  | wrongForm field expected found =>
    s!"argument '{field}' must be a {expected}, found {found}"
  | unknownChoice field given choices =>
    s!"argument '{field}' has unknown value '{given}', expected one of " ++
      ", ".intercalate choices
  | notPositive field given =>
    s!"argument '{field}' must be a positive integer, got " ++ Decimal.messageText given
  | notFraction field given =>
    s!"argument '{field}' must be in (0, 1], got " ++ Decimal.messageText given
  | repeated key => s!"argument '{key}' given more than once"

/-- A number as a count, if it is one. -/
def countOf? (x : Float) : Option Count := (Decimal.natural? x).bind Count.ofNat?

/-- The arguments of one aggregation, the fields asked for so far and the faults found
so far. -/
structure Arguments where
  given : List Argument
  asked : List String
  faults : List ArgumentFault

namespace Arguments

/-- The keys that occur for the second time, when some keys came before. -/
def secondKeys (earlier : List String) : List Argument → List String
  | [] => []
  | a :: rest =>
    (if earlier.countP (Text.sameIgnoringCase a.key) = 1 then [a.key] else []) ++
      secondKeys (earlier ++ [a.key]) rest

/-- Arguments before anything is asked for.  A key given more than once is a fault,
reported once and spelled as it is the second time. -/
def start (given : List Argument) : Arguments :=
  ⟨given, [], (secondKeys [] given).map .repeated⟩

/-- Whether a getter has asked for an argument. -/
def isAsked (s : Arguments) (a : Argument) : Bool :=
  s.asked.any (Text.sameIgnoringCase a.key)

/-- Keys of the arguments that no getter has asked for. -/
def leftOver (s : Arguments) : List String :=
  (s.given.filter fun a => !s.isAsked a).map Argument.key

end Arguments

/-- Reading that asks for arguments and records faults. -/
abbrev Asking := StateM Arguments

/-- Reads a setting from the arguments, or records why there is none. -/
abbrev Getter (α : Type) := Asking (Option α)

namespace Getter

/-- The first value given for a field. -/
def ask (field : String) : Asking (Option ArgValue) := do
  let s ← get
  set { s with asked := s.asked ++ [field] }
  return (s.given.find? fun a => Text.sameIgnoringCase a.key field).map Argument.value

/-- Gives no value and records why. -/
def refuse {α : Type} (fault : ArgumentFault) : Asking (Option α) := do
  modify fun s => { s with faults := s.faults ++ [fault] }
  return none

/-- A field that has to be given. -/
def required {α : Type} (field : String) (getter : Getter (Option α)) :
    Asking (Option α) := do
  match ← getter with
  | none => return none
  | some none => refuse (.missing field)
  | some (some a) => return some a

/-- A number, or nothing. -/
def number? (field : String) : Asking (Option (Option Float)) := do
  match ← ask field with
  | none => return some none
  | some (.number x) => return some (some x)
  | some v => refuse (.wrongForm field "number" v.form)

/-- A number. -/
def number (field : String) : Getter Float := required field (number? field)

/-- A truth value, or nothing. -/
def boolean? (field : String) : Asking (Option (Option Bool)) := do
  match ← ask field with
  | none => return some none
  | some (.boolean b) => return some (some b)
  | some v => refuse (.wrongForm field "boolean" v.form)

/-- One of some words, quoted or not, or nothing. -/
def choice? {α : Type} (field : String) (read : String → Option α)
    (choices : List String) :
    Asking (Option (Option α)) := do
  match ← ask field with
  | none => return some none
  | some v =>
    match v.chars? with
    | none => refuse (.wrongForm field "string or identifier" v.form)
    | some s =>
      match read s with
      | some a => return some (some a)
      | none => refuse (.unknownChoice field s choices)

/-- One of some words, quoted or not. -/
def choice {α : Type} (field : String) (read : String → Option α)
    (choices : List String) :
    Getter α := required field (choice? field read choices)

/-- A positive whole number of 32 bits, or nothing. -/
def count? (field : String) : Asking (Option (Option Count)) := do
  match ← number? field with
  | none => return none
  | some none => return some none
  | some (some x) =>
    match countOf? x with
    | some n => return some (some n)
    | none => refuse (.notPositive field x)

/-- A number above zero and not above one. -/
def fraction (field : String) : Asking (Option Float) := do
  match ← number field with
  | none => return none
  | some x => if x > 0 && x <= 1 then return some x else refuse (.notFraction field x)

end Getter

/-- A value read from arguments and what to warn about. -/
structure Decoded (α : Type) where
  value : α
  warnings : List String
  deriving Repr

/-- What a warning says about an argument that means nothing to an aggregator. -/
def leftOverMessage (aggregator key : String) : String :=
  s!"Unknown argument '{key}' to {aggregator}"

/-- Reads the arguments of an aggregator; all faults come together. -/
def decodeArguments {α : Type} (aggregator : String) (given : List Argument)
    (getter : Getter α) : Except (List ArgumentFault) (Decoded α) :=
  let (value?, s) := getter.run (.start given)
  match value? with
  | some value =>
    if s.faults.isEmpty then .ok ⟨value, s.leftOver.map (leftOverMessage aggregator)⟩
    else .error s.faults
  | none => .error s.faults

end SeriesQuery
