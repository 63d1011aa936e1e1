import SeriesQuery.Statement.Basic
import SeriesQuery.Time.Reading

/-!
# Literals

The body of a quoted text writes some characters as escapes of two characters.  A quoted
time is a date-time; a relative time counts back from the present.  `resolve` turns a
written time into an instant.
-/

namespace SeriesQuery

open SeriesQuery.Time (Instant)

/-- Why a literal has no value. -/
inductive LiteralFault where
  | invalidEscape (c : Char)
  | danglingEscape
  | invalidDateTime (text : String)
  | outOfRange (amount : Nat) (unit : TimeUnit)
  deriving DecidableEq, Repr

/-- What a message says about a literal without a value. -/
def LiteralFault.message : LiteralFault → String
  | invalidEscape c => s!"invalid escape sequence '\\" ++ String.singleton c ++ "'"
  | danglingEscape => "string literal ends with a dangling backslash"
  | invalidDateTime text => s!"invalid date-time '{text}'"
  | outOfRange amount unit => s!"'{amount} {unit.text} ago' is out of range"

/-- The character that an escape letter stands for. -/
def escapeLetter? (c : Char) : Option Char :=
  if c = '\\' then some '\\'
  else if c = 'b' then some '\x08'
  else if c = 'n' then some '\n'
  else if c = 't' then some '\t'
  else if c = 'r' then some '\r'
  else if c = 'f' then some '\x0c'
  else if c = '\'' then some '\''
  else if c = '"' then some '"'
  else none

/-- The characters that the body of a quoted text stands for. -/
def unescape : List Char → Except LiteralFault (List Char)
  | [] => .ok []
  | '\\' :: [] => .error .danglingEscape
  | '\\' :: c :: rest =>
    match escapeLetter? c with
    | some d => (unescape rest).map (d :: ·)
    | none => .error (.invalidEscape c)
  | c :: rest => (unescape rest).map (c :: ·)

/-- The instant that a quoted time denotes. -/
def readDateTime (text : List Char) : Except LiteralFault Instant :=
  match Instant.readAbsolute? text with
  | some t => .ok t
  | none => .error (.invalidDateTime (String.ofList (Text.trimChars text)))

/-- The instant some units before `now`, if it is representable. -/
def TimeUnit.before? (unit : TimeUnit) (amount : Nat) (now : Instant) :
    Option Instant :=
  match unit.seconds? with
  | some n => now.minusSeconds? (amount * n)
  | none => now.minusMonths? amount

/-- The instant that a written time denotes when the present is `now`. -/
def Moment.resolve (now : Instant) : Moment → Except LiteralFault Instant
  | .now => .ok now
  | .fixed t => .ok t
  | .ago amount unit =>
    match unit.before? amount now with
    | some t => .ok t
    | none => .error (.outOfRange amount unit)

end SeriesQuery
