import SeriesQuery.Settings.Basic
import SeriesQuery.Text.Blank
import SeriesQuery.Text.LetterCase

/-!
# Log filters

What is logged is said by directives between commas.  A directive is a level, or a
target with a level after an equals sign; a target may be followed by a span in
brackets.  Levels are six words in any letter case, or numbers up to five.
-/

namespace SeriesQuery.Log

/-- Words for levels. -/
def levelWords : List String := ["off", "error", "warn", "info", "debug", "trace"]

/-- Whether a text names a level. -/
def isLevel (s : List Char) : Bool :=
  let text := String.ofList s
  s.isEmpty || levelWords.any (Text.sameIgnoringCase · text) ||
    (Decimal.readNat? 5 text).isSome

/-- Why directives say nothing. -/
inductive FilterFault where
  | directive
  | level
  deriving DecidableEq, Repr

/-- What a message says about directives that say nothing. -/
def FilterFault.message : FilterFault → String
  | directive => "invalid filter directive"
  | level =>
    "error parsing level filter: expected one of \"off\", \"error\", \"warn\", " ++
      "\"info\", \"debug\", \"trace\", or a number 0-5"

/-- The fault of what comes after a target: nothing, or an equals sign and the text of a
level. -/
def levelFault? (level : List Char) : List Char → Option FilterFault
  | [] => none
  | '=' :: _ => if isLevel level then none else some .level
  | _ => some .directive

/-- Whether a directive may begin with a character. -/
def isTargetStart (c : Char) : Bool :=
  c.isAlphanum || c == '-' || c == ':' || c == '_' || 0x80 ≤ c.toNat

/-- The text after a span and its closing bracket.  The span may end in a field between
braces. -/
def dropSpan? (s : List Char) : Option (List Char) :=
  match s.dropWhile fun c => c != ']' && c != '\x7b' with
  | ']' :: r => some r
  | '\x7b' :: r =>
    match r.takeWhile (· != '\x7d'), r.dropWhile (· != '\x7d') with
    | _ :: _, '\x7d' :: ']' :: r => some r
    | _, _ => none
  | _ => none

/-- The text after the target of a directive and its span. -/
def dropTarget? (s : List Char) : Option (List Char) :=
  match s with
  | [] => none
  | '[' :: r => dropSpan? r
  | c :: _ =>
    if isTargetStart c then
      match s.dropWhile fun c => c != '=' && c != '[' with
      | '[' :: r => dropSpan? r
      | r => some r
    else none

/-- The fault of a directive.  Blanks around it do not count, but the level is looked
for as if they came before the rest: blanks in front of a directive spoil its level. -/
def directiveFault? (directive : List Char) : Option FilterFault :=
  let body := Text.trimChars directive
  match dropTarget? body with
  | none => some .directive
  | some rest => levelFault? (directive.drop (body.length - rest.length + 1)) rest

/-- The first fault of directives between commas. -/
def filterFault? (directives : String) : Option FilterFault :=
  (directives.splitOn ",").findSome? fun d =>
    if d.isEmpty then none else directiveFault? d.toList

/-- The directives for a level. -/
def directivesFor (level : String) : String := s!"mql={level},tower_http={level}"

/-- Why nothing can be logged. -/
inductive Fault where
  | filter (directives : String) (fault : FilterFault)
  | file (path why : String)
  deriving DecidableEq, Repr

/-- What a message says when nothing can be logged. -/
def Fault.message : Fault → String
  | filter directives fault => s!"Invalid log filter '{directives}': {fault.message}"
  | file path why => s!"Failed to open log file {path}: {why}"

/-- The fault of the filter in use: the environment's directives if they say something,
or else those for the level of the settings. -/
def fault? (directives? : Option String) (level : String) : Option Fault :=
  if directives?.any fun d => (filterFault? d).isNone then none
  else (filterFault? (directivesFor level)).map (.filter (directivesFor level))

end SeriesQuery.Log
