import SeriesQuery.Json.Number
import SeriesQuery.Json.Tree

/-!
# Making values out of JSON texts

A decoder turns a tree into a value of some type and reports the first problem it meets
in the order of the text.  Containers may be nested only so deep; a decoder is told how
many more it may open.

A record is an object with known members in any order, each at most once; members it
does not know are skipped, after a look whether they are sound.  A record may also be
written as an array of its members in their order, the last ones left out when they have
defaults.
-/

namespace SeriesQuery.Json

/-- Why a text does not denote a value of the wanted type. -/
inductive Problem where
  /-- The text is not JSON. -/
  | broken
  /-- A value is not of the form wanted, or a member is missing or there twice. -/
  | unfit
  | timestamp (millis : Int)
  deriving DecidableEq, Repr

/-- What a message says about a problem, if it says anything. -/
def Problem.message? : Problem → Option String
  | timestamp millis => some s!"timestamp {millis} out of range"
  | _ => none

/-- The problem with a value of which another form is wanted: it may not be a value at
all. -/
def Problem.ofTree : Tree → Problem
  | .broken => .broken
  | .text none => .broken
  | .number s => if (Number.ofSpelling? s).isSome then .unfit else .broken
  | _ => .unfit

/-- A decoder; the number says how many containers may still be opened. -/
abbrev Decoder (α : Type) := Nat → Tree → Except Problem α

/-- How deep containers may be nested. -/
def maxDepth : Nat := 127

/-- Decodes a whole text, after which only blanks may stand. -/
def decodeText {α : Type} (d : Decoder α) (s : String) : Except Problem α := do
  let doc := Document.read s.toList
  let a ← d maxDepth doc.value
  if doc.complete then return a else throw .broken

/-- Decodes the value that a text begins with, whatever comes after it. -/
def decodeFirst {α : Type} (d : Decoder α) (s : String) : Except Problem α :=
  d maxDepth (Document.read s.toList).value

mutual

/-- Whether a skipped value is sound: the text does not break inside it. -/
def isSound : Tree → Bool
  | .broken => false
  | .array items => areSound items
  | .object members => areSoundMembers members
  | _ => true

/-- Whether all items are sound. -/
def areSound : List Tree → Bool
  | [] => true
  | t :: ts => isSound t && areSound ts

/-- Whether the values of all members are sound. -/
def areSoundMembers : List (Option String × Tree) → Bool
  | [] => true
  | (_, t) :: ms => isSound t && areSoundMembers ms

end

namespace Decoder

variable {α σ : Type}

/-- A text. -/
def text : Decoder String
  | _, .text (some s) => .ok s
  | _, t => .error (.ofTree t)

/-- A truth value. -/
def bool : Decoder Bool
  | _, .bool b => .ok b
  | _, t => .error (.ofTree t)

/-- A number of any kind. -/
def number : Decoder Number
  | _, .number s =>
    match Number.ofSpelling? s with
    | some n => .ok n
    | none => .error .broken
  | _, t => .error (.ofTree t)

/-- A number as a floating-point number. -/
def float : Decoder Float := fun depth t => (number depth t).map Number.toFloat

/-- A floating-point number, or `null` for none. -/
def float? : Decoder (Option Float)
  | _, .null => .ok none
  | depth, t => (float depth t).map some

/-- A whole number between two bounds. -/
def int (least most : Int) : Decoder Int := fun depth t => do
  let n ← match ← number depth t with
    | .natural n => pure (n : Int)
    | .negative n => pure n
    | .float _ => throw .unfit
  if least ≤ n && n ≤ most then return n else throw .unfit

/-- A whole number from zero up to a bound. -/
def nat (most : Nat) : Decoder Nat := fun depth t => (int 0 most depth t).map Int.toNat

/-- A whole number of 64 bits with a sign. -/
def int64 : Decoder Int := int (-Int.pow 2 63) (Int.pow 2 63 - 1)

/-- A list of values. -/
def list (d : Decoder α) : Decoder (List α)
  | depth + 1, .array items => items.mapM (d depth)
  | _, t => .error (.ofTree t)

/-- The key of a member. -/
def key : Option String → Except Problem String
  | some k => .ok k
  | none => .error .broken

mutual

/-- A value of any kind. -/
def value : Nat → Tree → Except Problem Value
  | _, .null => .ok .null
  | _, .bool b => .ok (.bool b)
  | _, .number s =>
    match Number.ofSpelling? s with
    | some n => .ok (.number n)
    | none => .error .broken
  | _, .text (some s) => .ok (.text s)
  | depth + 1, .array items => (values depth items).map .array
  | depth + 1, .object members =>
    (fields depth members).map fun ms => .object (Fields.ofMembers ms)
  | _, _ => .error .broken

/-- The values of a list. -/
def values : Nat → List Tree → Except Problem (List Value)
  | _, [] => .ok []
  | depth, t :: ts => do
    let v ← value depth t
    let vs ← values depth ts
    return v :: vs

/-- The members of an object in the order written. -/
def fields : Nat → List (Option String × Tree) → Except Problem (List (String × Value))
  | _, [] => .ok []
  | depth, (k, t) :: ms => do
    let k ← key k
    let v ← value depth t
    let vs ← fields depth ms
    return (k, v) :: vs

end

/-- Skips a member that a record does not know. -/
def skipped (t : Tree) : Except Problem Unit :=
  if isSound t then .ok () else .error .broken

/-- Decodes a member that must not have been there before. -/
def once (before : Option α) (d : Decoder α) (depth : Nat) (t : Tree) :
    Except Problem (Option α) :=
  match before with
  | some _ => .error .unfit
  | none => (d depth t).map some

/-- A member that has to be there. -/
def required : Option α → Except Problem α
  | some a => .ok a
  | none => .error .unfit

/-- Members of an object one after the other. -/
def members (step : Nat → σ → String → Tree → Except Problem σ) (depth : Nat)
    (start : σ) (ms : List (Option String × Tree)) : Except Problem σ :=
  ms.foldlM (fun s m => do step depth s (← key m.1) m.2) start

/-- A record that is an object only. -/
def object (start : σ) (step : Nat → σ → String → Tree → Except Problem σ)
    (finish : σ → Except Problem α) : Decoder α
  | depth + 1, .object ms => do finish (← members step depth start ms)
  | _, t => .error (.ofTree t)

/-- Items of an array taken as the members of a record in their order. -/
def inOrder (step : Nat → σ → String → Tree → Except Problem σ) (depth : Nat) :
    List String → List Tree → σ → Except Problem σ
  | _, [], s => .ok s
  | [], _ :: _, _ => .error .broken
  | k :: ks, t :: ts, s => do inOrder step depth ks ts (← step depth s k t)

/-- A record: an object, or an array of the members in their order. -/
def record (order : List String) (start : σ)
    (step : Nat → σ → String → Tree → Except Problem σ)
    (finish : σ → Except Problem α) : Decoder α
  | depth + 1, .object ms => do finish (← members step depth start ms)
  | depth + 1, .array items => do finish (← inOrder step depth order items start)
  | _, t => .error (.ofTree t)

/-- One of some words, written as a text, or as an object whose only member has the word
for key and `null` for value. -/
def word (ofWord? : String → Option α) : Decoder α
  | _, .text (some s) => required (ofWord? s)
  | _ + 1, .object [(some s, .null)] => required (ofWord? s)
  | _, t => .error (.ofTree t)

end Decoder

end SeriesQuery.Json
