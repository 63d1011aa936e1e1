import SeriesQuery.Statement.Rule
import SeriesQuery.Decimal.Reading

/-!
# Words, names, numbers and quoted texts

The smallest units of a statement.  A keyword may be written in any letter case and ends
where a word ends.  A quoted text stands between two equal quotes, single or double; a
backslash keeps the quote after it from closing the text.
-/

namespace SeriesQuery.Reading

open SeriesQuery.Text (isBlank)
open Rule

/-- A character of a word. -/
def isWordChar (c : Char) : Bool := c.isAlphanum || c == '_'

/-- A character that may begin a word. -/
def isWordStart (c : Char) : Bool := c.isAlpha || c == '_'

/-- A character of a metric or tag name that is not quoted. -/
def isNameChar (c : Char) : Bool :=
  isWordChar c || c == '.' || c == ':' || c == '/' || c == '-'

/-- A character of a tag value that is not quoted. -/
def isBareChar (c : Char) : Bool := isNameChar c || c == '*'

/-- Any number of blanks. -/
def blanks : Rule Unit := fun s => .took () (s.dropWhile isBlank)

/-- At least one blank. -/
def blanks1 : Rule Unit := do
  let _ ← run1 isBlank
  return ()

/-- A keyword in any letter case that is not the beginning of a longer word. -/
def keyword (word : String) : Rule Unit := do
  spelled word.toList
  absent (satisfy isWordChar)

/-- A comma with blanks around it. -/
def comma : Rule Unit := do
  blanks
  let _ ← char ','
  blanks

/-- A word: a letter or underscore, then letters, digits and underscores. -/
def word : Rule String := do
  let c ← satisfy isWordStart
  let cs ← run isWordChar
  return String.ofList (c :: cs)

/-- A name that is not quoted: a word that may also hold points, colons, slashes and
hyphens. -/
def bareName : Rule String := do
  let c ← satisfy isWordStart
  let cs ← run isNameChar
  return String.ofList (c :: cs)

/-- The body of a quoted text up to its closing quote, and the text after the quote. -/
def splitQuoted (quote : Char) : List Char → Option (List Char × List Char)
  | [] => none
  | '\\' :: [] => none
  | '\\' :: c :: r =>
    (splitQuoted quote r).map fun (body, rest) => ('\\' :: c :: body, rest)
  | c :: r =>
    if c = quote then some ([], r)
    else (splitQuoted quote r).map fun (body, rest) => (c :: body, rest)

/-- A quoted text; the value is what its body stands for.  Once the opening quote is
there nothing else can be meant, so a body that is not closed or not legible fails. -/
def quotedText : Rule (List Char)
  | [] => .declined ⟨[], .missing '"'⟩
  | q :: r =>
    if q = '"' || q = '\'' then
      match splitQuoted q r with
      | none => .failed ⟨q :: r, .unterminated⟩
      | some (body, rest) =>
        match unescape body with
        | .ok text => .took text rest
        | .error fault => .failed ⟨q :: r, .literal fault⟩
    else .declined ⟨q :: r, .missing '"'⟩

/-- A quoted text as a string. -/
def quotedString : Rule String := do
  let cs ← quotedText
  return String.ofList cs

/-- A metric or tag name, quoted or not. -/
def name : Rule String := orElse quotedString bareName

/-- A tag value, quoted or not. -/
def tagValue : Rule String :=
  orElse quotedString do
    let cs ← run1 isBareChar
    return String.ofList cs

/-- At least one digit. -/
def digits1 : Rule (List Char) := run1 Char.isDigit

/-- A point and at least one digit. -/
def fractionPart : Rule (List Char) := do
  let _ ← char '.'
  digits1

/-- The letter of an exponent, an optional sign and at least one digit. -/
def exponentPart : Rule (Bool × List Char) := do
  let _ ← orElse (char 'e') (char 'E')
  let sign ← optional (orElse (char '+') (char '-'))
  let ds ← digits1
  return (sign == some '-', ds)

/-- A number as written. -/
def spelling : Rule Decimal.Spelling := do
  let sign ← optional (char '-')
  let whole ← digits1
  let fraction ← optional fractionPart
  let exponent ← optional exponentPart
  return ⟨sign.isSome, whole, fraction.getD [], (exponent.map (·.1)).getD false,
    (exponent.map (·.2)).getD []⟩

/-- A number: the one that the characters of a numeral denote. -/
def number : Rule Float :=
  convert? (taken spelling) fun cs => Decimal.read? (String.ofList cs)

/-- A whole number that fits in 32 bits. -/
def amount : Rule Nat :=
  convert digits1 fun ds =>
    let n := Decimal.natOfDigits ds
    if n < Nat.pow 2 32 then .ok n else .error .amountTooLarge

end SeriesQuery.Reading
