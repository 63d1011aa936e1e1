import SeriesQuery.Decimal.Reading
import SeriesQuery.Text.Blank

/-!
# JSON texts as read

A JSON text is read into a tree that keeps everything a later step may want to judge:
numbers as they are spelled, members in the order written with repeated keys, and texts
whose escapes spell no character.  Where the text stops being JSON, the tree holds a
`broken` node and nothing after it.  So whoever walks the tree in order meets the first
problem of the text first, be it a fault of the text or a value that does not fit.
-/

namespace SeriesQuery.Json

open SeriesQuery.Decimal (Spelling)
open SeriesQuery.Text (isBlank)

/-- A JSON text as read.  A text or key is absent when its escapes spell no
character. -/
inductive Tree where
  | null
  | bool (b : Bool)
  | number (s : Spelling)
  | text (s : Option String)
  | array (items : List Tree)
  | object (members : List (Option String × Tree))
  | broken
  deriving Repr, Inhabited

/-! ## Text literals -/

/-- A character of a text literal, or the number that an escape gives for a part of
one. -/
inductive Piece where
  | plain (c : Char)
  | unit (n : Nat)
  deriving DecidableEq, Repr

/-- The value of a hexadecimal digit. -/
def hexValue? (c : Char) : Option Nat :=
  if '0' ≤ c && c ≤ '9' then some (c.toNat - '0'.toNat)
  else if 'a' ≤ c && c ≤ 'f' then some (c.toNat - 'a'.toNat + 10)
  else if 'A' ≤ c && c ≤ 'F' then some (c.toNat - 'A'.toNat + 10)
  else none

/-- The number of four hexadecimal digits. -/
def hexNumber? (a b c d : Char) : Option Nat := do
  let a ← hexValue? a
  let b ← hexValue? b
  let c ← hexValue? c
  let d ← hexValue? d
  return ((a * 16 + b) * 16 + c) * 16 + d

/-- The character that a one-letter escape stands for. -/
def escapeLetter? (c : Char) : Option Char :=
  if c = '"' then some '"'
  else if c = '\\' then some '\\'
  else if c = '/' then some '/'
  else if c = 'b' then some '\x08'
  else if c = 'f' then some '\x0c'
  else if c = 'n' then some '\n'
  else if c = 'r' then some '\r'
  else if c = 't' then some '\t'
  else none

/-- The pieces of a text literal up to its closing quote, and the text after it.  A
control character must not stand in it as it is. -/
def pieces? : List Char → Option (List Piece × List Char)
  | [] => none
  | '"' :: r => some ([], r)
  | '\\' :: 'u' :: a :: b :: c :: d :: r => do
    let n ← hexNumber? a b c d
    let (ps, rest) ← pieces? r
    return (.unit n :: ps, rest)
  | '\\' :: c :: r => do
    let d ← escapeLetter? c
    let (ps, rest) ← pieces? r
    return (.plain d :: ps, rest)
  | c :: r =>
    if c.toNat < 32 || c = '\\' then none
    else do
      let (ps, rest) ← pieces? r
      return (.plain c :: ps, rest)

/-- The first half of a character written as two numbers. -/
def isHighHalf (n : Nat) : Bool := 0xd800 ≤ n && n < 0xdc00

/-- The second half of a character written as two numbers. -/
def isLowHalf (n : Nat) : Bool := 0xdc00 ≤ n && n < 0xe000

/-- The characters that the pieces spell.  A half without its other half spells none. -/
def joinPieces : List Piece → Option (List Char)
  | [] => some []
  | .plain c :: ps => (joinPieces ps).map (c :: ·)
  | .unit hi :: .unit lo :: ps =>
    if isHighHalf hi then
      if isLowHalf lo then
        (joinPieces ps).map
          (Char.ofNat (0x10000 + (hi - 0xd800) * 0x400 + (lo - 0xdc00)) :: ·)
      else none
    else if isLowHalf hi then none
    else (joinPieces (.unit lo :: ps)).map (Char.ofNat hi :: ·)
  | .unit n :: ps =>
    if isHighHalf n || isLowHalf n then none
    else (joinPieces ps).map (Char.ofNat n :: ·)

/-- A text literal after its opening quote. -/
def readText (s : List Char) : Option (Option String × List Char) :=
  (pieces? s).map fun (ps, rest) => ((joinPieces ps).map String.ofList, rest)

/-! ## Numbers -/

/-- Digits before the point: a zero on its own, or any number that does not begin with
zero. -/
def wholeDigits? (s : List Char) : Option (List Char × List Char) :=
  match s with
  | '0' :: r =>
    match r with
    | c :: _ => if c.isDigit then none else some (['0'], r)
    | [] => some (['0'], [])
  | _ =>
    let ds := s.takeWhile Char.isDigit
    if ds.isEmpty then none else some (ds, s.dropWhile Char.isDigit)

/-- A point and at least one digit, or nothing. -/
def fractionDigits? : List Char → Option (List Char × List Char)
  | '.' :: r =>
    let ds := r.takeWhile Char.isDigit
    if ds.isEmpty then none else some (ds, r.dropWhile Char.isDigit)
  | s => some ([], s)

/-- A letter, an optional sign and at least one digit, or nothing. -/
def exponentDigits? : List Char → Option (Bool × List Char × List Char)
  | c :: r =>
    if c = 'e' || c = 'E' then
      let (negative, r) :=
        match r with
        | '+' :: r' => (false, r')
        | '-' :: r' => (true, r')
        | _ => (false, r)
      let ds := r.takeWhile Char.isDigit
      if ds.isEmpty then none else some (negative, ds, r.dropWhile Char.isDigit)
    else some (false, [], c :: r)
  | [] => some (false, [], [])

/-- A number after its sign. -/
def readMagnitude? (negative : Bool) (s : List Char) :
    Option (Spelling × List Char) := do
  let (whole, s) ← wholeDigits? s
  let (fraction, s) ← fractionDigits? s
  let (exponentNegative, exponent, s) ← exponentDigits? s
  return (⟨negative, whole, fraction, exponentNegative, exponent⟩, s)

/-- A number. -/
def readNumber? : List Char → Option (Spelling × List Char)
  | '-' :: r => readMagnitude? true r
  | s => readMagnitude? false s

/-! ## Values -/

/-- Takes a given beginning off a text. -/
def dropWord? (word s : List Char) : Option (List Char) :=
  if word.isPrefixOf s then some (s.drop word.length) else none

/-- A word that stands for a value. -/
def readWord (word : String) (t : Tree) (s : List Char) : Tree × Option (List Char) :=
  match dropWord? word.toList s with
  | some r => (t, some r)
  | none => (.broken, none)

mutual

/-- A value, and the text after it unless the text is broken.  `fuel` bounds the depth
and the number of the items still to come; the length of the text is enough. -/
def readValue : (fuel : Nat) → List Char → Tree × Option (List Char)
  | 0, _ => (.broken, none)
  | fuel + 1, s =>
    match s.dropWhile isBlank with
    | [] => (.broken, none)
    | c :: r =>
      if c = 'n' then readWord "null" .null (c :: r)
      else if c = 't' then readWord "true" (.bool true) (c :: r)
      else if c = 'f' then readWord "false" (.bool false) (c :: r)
      else if c = '"' then
        match readText r with
        | some (t, r') => (.text t, some r')
        | none => (.broken, none)
      else if c = '[' then
        match r.dropWhile isBlank with
        | ']' :: r' => (.array [], some r')
        | r' =>
          let (items, rest) := readItems fuel r'
          (.array items, rest)
      else if c = '\x7b' then
        match r.dropWhile isBlank with
        | '\x7d' :: r' => (.object [], some r')
        | r' =>
          let (members, rest) := readMembers fuel r'
          (.object members, rest)
      else
        match readNumber? (c :: r) with
        | some (n, r') => (.number n, some r')
        | none => (.broken, none)

/-- Items up to the closing bracket. -/
def readItems : (fuel : Nat) → List Char → List Tree × Option (List Char)
  | 0, _ => ([.broken], none)
  | fuel + 1, s =>
    match readValue fuel s with
    | (t, none) => ([t], none)
    | (t, some r) =>
      match r.dropWhile isBlank with
      | ',' :: r' =>
        let (ts, rest) := readItems fuel r'
        (t :: ts, rest)
      | ']' :: r' => ([t], some r')
      | _ => ([t, .broken], none)

/-- Members up to the closing brace. -/
def readMembers : (fuel : Nat) → List Char →
    List (Option String × Tree) × Option (List Char)
  | 0, _ => ([(none, .broken)], none)
  | fuel + 1, s =>
    match s.dropWhile isBlank with
    | '"' :: r =>
      match readText r with
      | none => ([(none, .broken)], none)
      | some (key, r') =>
        match r'.dropWhile isBlank with
        | ':' :: r'' =>
          match readValue fuel r'' with
          | (t, none) => ([(key, t)], none)
          | (t, some rest) =>
            match rest.dropWhile isBlank with
            | ',' :: rest' =>
              let (ms, rest'') := readMembers fuel rest'
              ((key, t) :: ms, rest'')
            | '\x7d' :: rest' => ([(key, t)], some rest')
            | _ => ([(key, t), (none, .broken)], none)
        | _ => ([(key, .broken)], none)
    | _ => ([(none, .broken)], none)

end

/-- A whole text: its value, and whether nothing but blanks comes after it. -/
structure Document where
  value : Tree
  complete : Bool

/-- Reads a whole text. -/
def Document.read (s : List Char) : Document :=
  match readValue (s.length + 1) s with
  | (t, some rest) => ⟨t, (rest.dropWhile isBlank).isEmpty⟩
  | (t, none) => ⟨t, false⟩

end SeriesQuery.Json
