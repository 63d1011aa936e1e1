import SeriesQuery.Statement.Lexeme

/-!
# The grammar of statements

A statement is a list of stages with semicolons between them; one more may stand at the
end.  A select stage names a metric and then gives its clauses in any order, each at
most once.  An aggregation names its sources first and then its arguments.  Blanks may
stand between any two words.

Once a keyword or an opening sign tells what is meant, what follows is committed: it has
to be there, or reading fails at that place.
-/

namespace SeriesQuery.Reading

open SeriesQuery.Text (isBlank)
open Rule

/-! ## Times -/

/-- A number, a unit and the word `ago`; blanks between them may be missing. -/
def relativeTime : Rule Moment := do
  let n ← amount
  blanks
  let unit ← commit (expecting .timeUnit
    (convert? (run1 Char.isAlpha) fun cs => TimeUnit.ofWord? (String.ofList cs)))
  blanks
  commit (expecting .ago (keyword "ago"))
  return .ago n unit

/-- The word `now`. -/
def nowTime : Rule Moment := do
  keyword "now"
  return .now

/-- A quoted date-time. -/
def fixedTime : Rule Moment :=
  convert quotedText fun cs =>
    match readDateTime cs with
    | .ok t => .ok (.fixed t)
    | .error fault => .error (.literal fault)

/-- A time in any of the three forms. -/
def moment : Rule Moment :=
  expecting .time (orElse nowTime (orElse relativeTime fixedTime))

/-- A start and, after the word `to`, an end. -/
def span : Rule Span := do
  blanks
  let start ← moment
  let stop ← optional do
    blanks
    keyword "to"
    blanks
    commit moment
  return ⟨start, stop⟩

/-! ## Select stages -/

/-- A tag, the equals sign and the values it may have. -/
def tagFilter : Rule TagFilter := do
  let key ← expecting .tagName name
  blanks
  let _ ← commit (expecting .tagEquals (char '='))
  blanks
  let values ← commit (expecting .tagValue (separated comma tagValue))
  return ⟨key, values⟩

/-- The word `and` with blanks around it. -/
def conjunction : Rule Unit := do
  blanks
  keyword "and"
  blanks

/-- The clauses of a select stage read so far. -/
structure Clauses where
  span : Option Span := none
  filters : Option (List TagFilter) := none
  groupBy : Option (List String) := none

/-- How many clauses have not been read yet. -/
def Clauses.open (c : Clauses) : Nat :=
  (if c.span.isNone then 1 else 0) + (if c.filters.isNone then 1 else 0) +
    (if c.groupBy.isNone then 1 else 0)

/-- What follows the word `from`. -/
def fromClause : Rule Span := commit span

/-- What follows the word `where`. -/
def whereClause : Rule (List TagFilter) := do
  blanks
  commit (separated conjunction tagFilter)

/-- What follows the word `group`. -/
def groupClause : Rule (List String) := do
  commit (expecting .groupBy do
    blanks1
    keyword "by")
  blanks
  commit (expecting .tagName (separated comma name))

/-- The word that opens a clause, and the text after it. -/
def clauseHead? (s : List Char) : Option (Clause × List Char) :=
  match keyword "from" s with
  | .took _ r => some (.fromTo, r)
  | _ =>
    match keyword "where" s with
    | .took _ r => some (.whereTags, r)
    | _ =>
      match keyword "group" s with
      | .took _ r => some (.groupBy, r)
      | _ => none

/-- All clauses that follow, added to those already read.  A clause that was already
read fails where it begins. -/
def clauses (c : Clauses) : Rule Clauses := fun s =>
  let head := s.dropWhile isBlank
  match clauseHead? head with
  | none => .took c s
  | some (.fromTo, r) =>
    if _h : c.span.isNone then
      match fromClause r with
      | .took a r' => clauses { c with span := some a } r'
      | .declined e => .declined e
      | .failed e => .failed e
    else .failed ⟨head, .duplicate .fromTo⟩
  | some (.whereTags, r) =>
    if _h : c.filters.isNone then
      match whereClause r with
      | .took a r' => clauses { c with filters := some a } r'
      | .declined e => .declined e
      | .failed e => .failed e
    else .failed ⟨head, .duplicate .whereTags⟩
  | some (.groupBy, r) =>
    if _h : c.groupBy.isNone then
      match groupClause r with
      | .took a r' => clauses { c with groupBy := some a } r'
      | .declined e => .declined e
      | .failed e => .failed e
    else .failed ⟨head, .duplicate .groupBy⟩
termination_by c.open
decreasing_by
  all_goals simp_all [Clauses.open]

/-- A select stage. -/
def select : Rule Select := do
  keyword "select"
  blanks
  let metric ← commit (expecting .metric name)
  let c ← clauses {}
  return ⟨metric, c.span, c.filters.getD [], c.groupBy.getD []⟩

/-! ## Aggregations -/

/-- Stage names in parentheses. -/
def sourceList : Rule (List String) := do
  let _ ← char '('
  blanks
  let names ← separated comma word
  blanks
  let _ ← char ')'
  return names

/-- One stage name. -/
def sourceName : Rule (List String) := do
  let w ← word
  return [w]

/-- The word `of` and the sources. -/
def sources : Rule (List String) := do
  keyword "of"
  blanks
  commit (expecting .source (orElse sourceList sourceName))

/-- The word `true`. -/
def trueValue : Rule ArgValue := do
  keyword "true"
  return .boolean true

/-- The word `false`. -/
def falseValue : Rule ArgValue := do
  keyword "false"
  return .boolean false

/-- The value of an argument. -/
def argValue : Rule ArgValue :=
  orElse (ArgValue.number <$> number)
    (orElse (ArgValue.text <$> quotedString)
      (orElse trueValue (orElse falseValue (ArgValue.word <$> word))))

/-- A key, the equals sign and a value. -/
def argument : Rule Argument := do
  let key ← word
  blanks
  let _ ← commit (expecting .argumentEquals (char '='))
  blanks
  let value ← commit (expecting .argumentValue argValue)
  return ⟨key, value⟩

/-- An argument after a comma. -/
def nextArgument : Rule Argument := do
  comma
  commit (expecting .argument argument)

/-- The arguments: after sources each follows a comma, without sources they are a
list. -/
def arguments (afterSources : Bool) : Rule (List Argument) :=
  if afterSources then many nextArgument else separated? comma argument

/-- An aggregation stage; its name is taken in lower case. -/
def aggregation : Rule Aggregation := do
  let w ← word
  blanks
  let _ ← char '('
  blanks
  let given ← optional sources
  let args ← arguments given.isSome
  blanks
  let _ ← commit (expecting .closing (char ')'))
  return ⟨Text.lower w, given, args⟩

/-! ## Statements -/

/-- A name and one equals sign. -/
def binding : Rule String := do
  let w ← word
  blanks
  let _ ← char '='
  absent (char '=')
  blanks
  return w

/-- A stage without its place. -/
def stage : Rule (Option String × StageBody) := do
  let bound ← optional binding
  let body ← expecting .stage
    (orElse (StageBody.select <$> select) (StageBody.aggregate <$> aggregation))
  return (bound, body)

/-- The place in `source` where the text `rest` begins. -/
def positionOf (source rest : List Char) : Position :=
  Position.after (source.take (source.length - rest.length))

/-- The semicolon that separates stages. -/
def separator : Rule Unit := do
  let _ ← expecting .separator (char ';')
  blanks

/-- The stages from here to the end of the text.  Each takes at least one character. -/
def stages (source : List Char) : Rule (List Stage) := fun s =>
  match stage s with
  | .took (bound, body) r =>
    let here : Stage := ⟨bound, body, positionOf source s⟩
    let r := r.dropWhile isBlank
    if r.isEmpty then .took [here] []
    else
      match separator r with
      | .took _ r' =>
        if r'.isEmpty then .took [here] []
        else if _h : r'.length < s.length then
          match stages source r' with
          | .took more r'' => .took (here :: more) r''
          | other => other
        else .failed (.unexpected r')
      | .declined e => .declined e
      | .failed e => .failed e
  | .declined e => .declined e
  | .failed e => .failed e
termination_by s => s.length

end SeriesQuery.Reading

namespace SeriesQuery

/-- What is wrong with a text that is no statement, and where. -/
structure SyntaxProblem where
  position : Position
  message : String
  deriving DecidableEq, Repr

/-- A problem as messages show it. -/
def SyntaxProblem.text (p : SyntaxProblem) : String :=
  s!"Problem at line {p.position.line}, character {p.position.column}: {p.message}"

/-- A fault at its place in the source. -/
def Reading.Fault.problem (source : List Char) (f : Reading.Fault) : SyntaxProblem :=
  ⟨Reading.positionOf source f.rest, f.reason.message⟩

/-- The statement that a text spells. -/
def Statement.parse (text : String) : Except SyntaxProblem Statement :=
  let source := text.toList
  match Reading.stages source (source.dropWhile Text.isBlank) with
  | .took stages _ => .ok ⟨stages⟩
  | .declined f => .error (f.problem source)
  | .failed f => .error (f.problem source)

end SeriesQuery
