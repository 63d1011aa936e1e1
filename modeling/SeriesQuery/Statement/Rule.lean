import SeriesQuery.Statement.Literal

/-!
# Reading rules

A rule looks at the text in front of it.  It takes a value off the front, or it
declines, or it fails.  A rule that declines lets another alternative try; a rule that
fails ends the whole reading, because what stood in front was already recognised.

Either way there is a fault: the place where the rule stopped, as the text left from
there on, and the reason.  A reason is *settled* when it says what is wrong; an
unsettled one only says that a character did not fit, and an enclosing rule replaces it
by what it expected.  Of two declined alternatives the one that got further speaks.
-/

namespace SeriesQuery.Reading

/-- What a rule expected in front of it. -/
inductive Expectation where
  | stage | separator | metric | time | timeUnit | ago | tagName | tagEquals |
      tagValue | groupBy
  | source | argument | argumentEquals | argumentValue | closing
  deriving DecidableEq, Repr

/-- The wording of an expectation. -/
def Expectation.text : Expectation → String
  | stage => "expected a select or aggregation stage"
  | separator => "expected ';' between stages"
  | metric => "expected metric name"
  | time => "expected a time: 'now', '<n> <unit> ago' or a quoted date-time"
  | timeUnit => "expected a time unit"
  | ago => "expected 'ago'"
  | tagName => "expected tag name"
  | tagEquals => "expected '=' after tag name"
  | tagValue => "expected tag value"
  | groupBy => "expected 'by' after 'group'"
  | source => "expected a stage name or '(' after 'of'"
  | argument => "expected 'key=value' argument"
  | argumentEquals => "expected '=' after argument name"
  | argumentValue => "expected a number, string, boolean or identifier"
  | closing => "expected ')' to close the aggregation"

/-- The clauses of a select stage, each allowed once. -/
inductive Clause where
  | fromTo | whereTags | groupBy
  deriving DecidableEq, Repr

/-- A clause as messages name it. -/
def Clause.text : Clause → String
  | fromTo => "from"
  | whereTags => "where"
  | groupBy => "group by"

/-- Why reading stopped. -/
inductive Reason where
  | unexpected (c : Char)
  | unexpectedEnd
  | missing (c : Char)
  | expected (what : Expectation)
  | duplicate (clause : Clause)
  | amountTooLarge
  | unterminated
  | literal (fault : LiteralFault)
  deriving DecidableEq, Repr

namespace Reason

/-- What a message says about a reason. -/
def message : Reason → String
  | unexpected c => s!"unexpected '{c}'"
  | unexpectedEnd => "unexpected end of statement"
  | missing c => s!"expected '{c}'"
  | expected what => what.text
  | duplicate clause => s!"duplicate '{clause.text}' clause"
  | amountTooLarge => "number too large to fit in target type"
  | unterminated => "unterminated string literal"
  | literal fault => fault.message

/-- Whether an enclosing rule leaves the reason as it is. -/
def isSettled : Reason → Bool
  | unexpected _ => false
  | unexpectedEnd => false
  | missing _ => false
  | _ => true

end Reason

/-- A stop: the text from there on and the reason. -/
structure Fault where
  rest : List Char
  reason : Reason
  deriving DecidableEq, Repr

namespace Fault

/-- The character in front does not fit. -/
def unexpected : List Char → Fault
  | [] => ⟨[], .unexpectedEnd⟩
  | c :: r => ⟨c :: r, .unexpected c⟩

/-- Of two faults the one that got further; at one place a settled one.  Of two rests of
one text the one with fewer characters has fewer bytes, so it does not matter which of
them are counted. -/
def further (a b : Fault) : Fault :=
  if b.rest.length < a.rest.length then b
  else if a.rest.length < b.rest.length then a
  else if b.reason.isSettled && !a.reason.isSettled then b
  else a

/-- An unsettled fault becomes what was expected at `input`. -/
def expecting (what : Expectation) (input : List Char) (f : Fault) : Fault :=
  if f.reason.isSettled then f else ⟨input, .expected what⟩

end Fault

/-- What a rule made of the text in front of it. -/
inductive Step (α : Type) where
  | took (value : α) (rest : List Char)
  | declined (fault : Fault)
  | failed (fault : Fault)
  deriving Repr

/-- A reading rule. -/
abbrev Rule (α : Type) := List Char → Step α

namespace Rule

variable {α β : Type}

/-- Takes nothing. -/
protected def pure (a : α) : Rule α := fun s => .took a s

/-- One rule after the other. -/
protected def bind (p : Rule α) (f : α → Rule β) : Rule β := fun s =>
  match p s with
  | .took a r => f a r
  | .declined e => .declined e
  | .failed e => .failed e

instance : Monad Rule where
  pure := Rule.pure
  bind := Rule.bind

/-- Tries the second rule when the first declines. -/
def orElse (p q : Rule α) : Rule α := fun s =>
  match p s with
  | .declined e =>
    match q s with
    | .declined e' => .declined (e.further e')
    | other => other
  | other => other

/-- The rule or nothing. -/
def optional (p : Rule α) : Rule (Option α) := fun s =>
  match p s with
  | .took a r => .took (some a) r
  | .declined _ => .took none s
  | .failed e => .failed e

/-- Declining becomes failing: no alternative is left. -/
def commit (p : Rule α) : Rule α := fun s =>
  match p s with
  | .declined e => .failed e
  | other => other

/-- An unsettled fault says what was expected here. -/
def expecting (what : Expectation) (p : Rule α) : Rule α := fun s =>
  match p s with
  | .took a r => .took a r
  | .declined e => .declined (e.expecting what s)
  | .failed e => .failed (e.expecting what s)

/-- Fails here for a given reason. -/
def fail (reason : Reason) : Rule α := fun s => .failed ⟨s, reason⟩

/-- Declines when the rule would take something. -/
def absent (p : Rule α) : Rule Unit := fun s =>
  match p s with
  | .took _ _ => .declined (.unexpected s)
  | .declined _ => .took () s
  | .failed e => .failed e

/-- Turns the value over, or declines at the start of it. -/
def convert (p : Rule α) (f : α → Except Reason β) : Rule β := fun s =>
  match p s with
  | .took a r =>
    match f a with
    | .ok b => .took b r
    | .error reason => .declined ⟨s, reason⟩
  | .declined e => .declined e
  | .failed e => .failed e

/-- The characters that a rule takes. -/
def taken (p : Rule α) : Rule (List Char) := fun s =>
  match p s with
  | .took _ r => .took (s.take (s.length - r.length)) r
  | .declined e => .declined e
  | .failed e => .failed e

/-- Turns the value over, or declines with the character in front. -/
def convert? (p : Rule α) (f : α → Option β) : Rule β := fun s =>
  match p s with
  | .took a r =>
    match f a with
    | some b => .took b r
    | none => .declined (.unexpected s)
  | .declined e => .declined e
  | .failed e => .failed e

/-- As many values as there are, in order.  A round that takes nothing is declined. -/
def many (p : Rule α) : Rule (List α) := fun s =>
  match p s with
  | .took a r =>
    if _h : r.length < s.length then
      match many p r with
      | .took as r' => .took (a :: as) r'
      | other => other
    else .declined (.unexpected s)
  | .declined _ => .took [] s
  | .failed e => .failed e
termination_by s => s.length

/-- Further values, each after a separator.  A separator without a value after it is not
taken. -/
def others (separator : Rule β) (p : Rule α) : Rule (List α) := fun s =>
  match separator s with
  | .took _ r =>
    if r.length < s.length then
      match p r with
      | .took a r' =>
        if _h : r'.length < s.length then
          match others separator p r' with
          | .took as r'' => .took (a :: as) r''
          | other => other
        else .declined (.unexpected r')
      | .declined _ => .took [] s
      | .failed e => .failed e
    else .declined (.unexpected r)
  | .declined _ => .took [] s
  | .failed e => .failed e
termination_by s => s.length

/-- At least one value, with separators between them. -/
def separated (separator : Rule β) (p : Rule α) : Rule (List α) := do
  let a ← p
  let as ← others separator p
  return a :: as

/-- Any number of values, with separators between them. -/
def separated? (separator : Rule β) (p : Rule α) : Rule (List α) := fun s =>
  match p s with
  | .took a r =>
    match others separator p r with
    | .took as r' => .took (a :: as) r'
    | other => other
  | .declined _ => .took [] s
  | .failed e => .failed e

/-! ## Characters -/

/-- One given character. -/
def char (c : Char) : Rule Char
  | d :: r => if d = c then .took c r else .declined ⟨d :: r, .missing c⟩
  | [] => .declined ⟨[], .missing c⟩

/-- One character of a class. -/
def satisfy (p : Char → Bool) : Rule Char
  | d :: r => if p d then .took d r else .declined (.unexpected (d :: r))
  | [] => .declined (.unexpected [])

/-- A run of characters of a class, also none. -/
def run (p : Char → Bool) : Rule (List Char) :=
  fun s => .took (s.takeWhile p) (s.dropWhile p)

/-- A run of at least one character of a class. -/
def run1 (p : Char → Bool) : Rule (List Char) := fun s =>
  match s.takeWhile p with
  | [] => .declined (.unexpected s)
  | cs => .took cs (s.dropWhile p)

/-- The given characters in any letter case. -/
def spelled (word : List Char) : Rule Unit := fun s =>
  if (s.take word.length).map Char.toLower = word then .took () (s.drop word.length)
  else .declined (.unexpected s)

end Rule

end SeriesQuery.Reading
