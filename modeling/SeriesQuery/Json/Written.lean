import SeriesQuery.Json.Value

/-!
# Writing JSON texts

A value is written without blanks for the wire, or with line breaks and an indentation
of two blanks for people.  Text escapes the quote, the backslash and controls and
nothing else.  A number that is no number, or infinite, has no JSON form and is written
as `null`.
-/

namespace SeriesQuery.Json

open SeriesQuery.Decimal

/-- A hexadecimal digit in lower case. -/
def hexDigit (n : Nat) : Char := Nat.digitChar (n % 16)

/-- A character inside a JSON text literal. -/
def escapedChar (c : Char) : List Char :=
  if c = '"' then ['\\', '"']
  else if c = '\\' then ['\\', '\\']
  else if c = '\x08' then ['\\', 'b']
  else if c = '\x0c' then ['\\', 'f']
  else if c = '\n' then ['\\', 'n']
  else if c = '\r' then ['\\', 'r']
  else if c = '\t' then ['\\', 't']
  else if c.toNat < 32 then ['\\', 'u', '0', '0', hexDigit (c.toNat / 16),
    hexDigit c.toNat]
  else [c]

/-- A JSON text literal. -/
def literal (s : String) : List Char := '"' :: s.toList.flatMap escapedChar ++ ['"']

/-- A number. -/
def Number.written : Number → List Char
  | natural n => digits n
  | negative n => signed n
  | float x => if x.isNaN || x.isInf then "null".toList else Layout.wire.text x

namespace Value

mutual

/-- A value without blanks. -/
def written : Value → List Char
  | null => "null".toList
  | bool true => "true".toList
  | bool false => "false".toList
  | number n => n.written
  | text s => literal s
  | array items => '[' :: writtenItems items ++ [']']
  | object members => '\x7b' :: writtenMembers members ++ ['\x7d']

/-- Items with commas between them. -/
def writtenItems : List Value → List Char
  | [] => []
  | [v] => written v
  | v :: vs => written v ++ ',' :: writtenItems vs

/-- Members with commas between them. -/
def writtenMembers : List (String × Value) → List Char
  | [] => []
  | [(k, v)] => literal k ++ ':' :: written v
  | (k, v) :: ms => literal k ++ ':' :: written v ++ ',' :: writtenMembers ms

end

/-- A value without blanks, as a string. -/
def compact (v : Value) : String := String.ofList v.written

/-- A new line with an indentation. -/
def newLine (depth : Nat) : List Char := '\n' :: List.replicate (2 * depth) ' '

mutual

/-- A value over several lines; `depth` is how far the line it stands on is indented. -/
def spread (depth : Nat) : Value → List Char
  | array [] => ['[', ']']
  | object [] => ['\x7b', '\x7d']
  | array items => '[' :: spreadItems (depth + 1) items ++ newLine depth ++ [']']
  | object members =>
    '\x7b' :: spreadMembers (depth + 1) members ++ newLine depth ++ ['\x7d']
  | null => "null".toList
  | bool true => "true".toList
  | bool false => "false".toList
  | number n => n.written
  | text s => literal s

/-- Items, each on lines of its own. -/
def spreadItems (depth : Nat) : List Value → List Char
  | [] => []
  | [v] => newLine depth ++ spread depth v
  | v :: vs => newLine depth ++ spread depth v ++ ',' :: spreadItems depth vs

/-- Members, each on lines of its own. -/
def spreadMembers (depth : Nat) : List (String × Value) → List Char
  | [] => []
  | [(k, v)] => newLine depth ++ literal k ++ ':' :: ' ' :: spread depth v
  | (k, v) :: ms =>
    newLine depth ++ literal k ++ ':' :: ' ' :: spread depth v ++
      ',' :: spreadMembers depth ms

end

/-- A value over several lines, as a string. -/
def pretty (v : Value) : String := String.ofList (v.spread 0)

end Value

end SeriesQuery.Json
