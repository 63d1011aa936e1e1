import SeriesQuery.Toml.Literal

/-!
# Reading settings files

A settings file is a list of lines, each a header or a key with its value.  Lines are
entered one by one into the table of the header they stand under.  No key is given
twice, no table has two headers, and a table written between braces or by keys with dots
gets no header.
-/

namespace SeriesQuery.Toml

/-! ## Entering values -/

/-- Enters a value under a key with dots, below a table that came about in some way.
Tables on the way are made when they are missing; a table that is there must have come
about by a key with dots when the value goes directly into it, and must not have a
header or braces of its own. -/
def enter (path : List String) (v : Value) (ms : Members) : Option Members :=
  match path with
  | [] => none
  | [k] => if (ms.get? k).isSome then none else some (ms ++ [(k, v)])
  | k :: k' :: ks =>
    match ms.get? k with
    | none => (enter (k' :: ks) v []).map fun sub => ms ++ [(k, .table .dotted sub)]
    | some (.table origin sub) =>
      if origin = .dotted || (origin = .implied && !ks.isEmpty) then
        (enter (k' :: ks) v sub).map fun sub => ms.put k (.table origin sub)
      else none
    | some (.rows tables) =>
      match tables.getLast? with
      | some last =>
        if ks.isEmpty then none
        else
          (enter (k' :: ks) v last).map fun sub =>
            ms.put k (.rows (tables.dropLast ++ [sub]))
      | none => none
    | some _ => none

/-- Changes the table at a path of headers; of repeated tables the last is meant.
Tables on the way are made when they are missing. -/
def within (path : List String) (change : Members → Option Members) (ms : Members) :
    Option Members :=
  match path with
  | [] => change ms
  | k :: ks =>
    match ms.get? k with
    | none => (within ks change []).map fun sub => ms ++ [(k, .table .implied sub)]
    | some (.table .braces _) => none
    | some (.table origin sub) =>
      (within ks change sub).map fun sub => ms.put k (.table origin sub)
    | some (.rows tables) =>
      match tables.getLast? with
      | some last =>
        (within ks change last).map fun sub =>
          ms.put k (.rows (tables.dropLast ++ [sub]))
      | none => none
    | some _ => none

/-- Opens the table of a header. -/
def openTable (key : String) (ms : Members) : Option Members :=
  match ms.get? key with
  | none => some (ms ++ [(key, .table .header [])])
  | some (.table .implied sub) => some (ms.put key (.table .header sub))
  | some _ => none

/-- Opens one more table of a repeated header. -/
def openRow (key : String) (ms : Members) : Option Members :=
  match ms.get? key with
  | none => some (ms ++ [(key, .rows [[]])])
  | some (.rows tables) => some (ms.put key (.rows (tables ++ [[]])))
  | some _ => none

/-! ## Values -/

/-- A value that holds no other values, and the text after it. -/
def readPlain? (s : List Char) : Option (Value × List Char) :=
  match s with
  | '"' :: _ => (readText? s).map fun (cs, r) => (.text (String.ofList cs), r)
  | '\'' :: _ => (readText? s).map fun (cs, r) => (.text (String.ofList cs), r)
  | _ =>
    let w := takeWord s
    (wordValue? w).map fun v => (v, s.drop w.length)

mutual

/-- A value, and the text after it.  `depth` counts how many arrays and tables may still
be opened; `fuel` bounds the number of steps, and the length of the text is enough. -/
def readValue? : (fuel depth : Nat) → List Char → Option (Value × List Char)
  | 0, _, _ => none
  | fuel + 1, depth, s =>
    match s with
    | '[' :: r =>
      match depth with
      | 0 => none
      | depth + 1 => (readItems? fuel depth r).map fun (vs, rest) => (.array vs, rest)
    | '\x7b' :: r =>
      match depth with
      | 0 => none
      | depth + 1 =>
        match skipBlanks r with
        | '\x7d' :: rest => some (.table .braces [], rest)
        | r =>
          (readMembers? fuel depth [] r).map fun (ms, rest) => (.table .braces ms, rest)
    | _ => readPlain? s

/-- The items of an array up to its bracket; a comma may stand after the last. -/
def readItems? : (fuel depth : Nat) → List Char → Option (List Value × List Char)
  | 0, _, _ => none
  | fuel + 1, depth, s => do
    match ← skipLines? false s with
    | ']' :: r => return ([], r)
    | r =>
      let (v, r) ← readValue? fuel depth r
      match ← skipLines? false r with
      | ',' :: r =>
        let (vs, rest) ← readItems? fuel depth r
        return (v :: vs, rest)
      | ']' :: r => return ([v], r)
      | _ => none

/-- The members of a table up to its brace, after some members. -/
def readMembers? : (fuel depth : Nat) → Members → List Char →
    Option (Members × List Char)
  | 0, _, _, _ => none
  | fuel + 1, depth, ms, s => do
    let (path, r) ← readKey? keyLimit s
    match r with
    | '=' :: r =>
      let (v, r) ← readValue? fuel depth (skipBlanks r)
      let ms ← enter path v ms
      match skipBlanks r with
      | ',' :: r => readMembers? fuel depth ms r
      | '\x7d' :: r => return (ms, r)
      | _ => none
    | _ => none

end

/-- Arrays and tables may be opened within each other so many times. -/
def depthLimit : Nat := 79

/-! ## Lines -/

/-- A line that says something. -/
inductive Line where
  | header (path : List String)
  | rowHeader (path : List String)
  | entry (path : List String) (v : Value)

/-- The text after a given beginning. -/
def dropChars? (beginning s : List Char) : Option (List Char) :=
  if beginning.isPrefixOf s then some (s.drop beginning.length) else none

/-- A line and the text after it. -/
def Line.read? (s : List Char) : Option (Line × List Char) :=
  match s with
  | '[' :: '[' :: r => do
    let (path, r) ← readKey? keyLimit r
    let r ← finishLine? (← dropChars? [']', ']'] r)
    return (.rowHeader path, r)
  | '[' :: r => do
    let (path, r) ← readKey? keyLimit r
    let r ← finishLine? (← dropChars? [']'] r)
    return (.header path, r)
  | _ => do
    let (path, r) ← readKey? keyLimit s
    let (v, r) ← readValue? (r.length + 1) depthLimit
        (skipBlanks (← dropChars? ['='] r))
    let r ← finishLine? r
    return (.entry path v, r)

/-- All lines of a text; `fuel` bounds their number. -/
def readLines? : (fuel : Nat) → List Char → Option (List Line)
  | 0, _ => none
  | fuel + 1, s => do
    match ← skipLines? false s with
    | [] => return []
    | s =>
      let (line, r) ← Line.read? s
      let ls ← readLines? fuel r
      return line :: ls

/-- A table that is being filled, and the header under which the next entries stand. -/
structure Filling where
  members : Members := []
  header : List String := []

/-- Enters a line. -/
def Filling.step (f : Filling) : Line → Option Filling
  | .header path => do
    let key ← path.getLast?
    let ms ← within path.dropLast (openTable key) f.members
    return ⟨ms, path⟩
  | .rowHeader path => do
    let key ← path.getLast?
    let ms ← within path.dropLast (openRow key) f.members
    return ⟨ms, path⟩
  | .entry path v => do
    let ms ← within f.header (enter path v) f.members
    return { f with members := ms }

/-- The table that a text holds. -/
def read? (text : String) : Option Members := do
  let s := match text.toList with
    | '\uFEFF' :: r => r
    | s => s
  let lines ← readLines? (s.length + 1) s
  let f ← lines.foldlM Filling.step {}
  return f.members

end SeriesQuery.Toml
