import SeriesQuery.Json.Tree
import SeriesQuery.Time.Reading
import SeriesQuery.Toml.Value

/-!
# Words of settings files

Blanks, comments, keys, and the values that hold no other values: texts in four
spellings, whole numbers in four bases, numbers with a fraction, truth values, dates and
times.  Digits may be grouped by single underscores.
-/

namespace SeriesQuery.Toml

open SeriesQuery.Decimal (natOfDigits Spelling)
open SeriesQuery.Json (hexValue? hexNumber?)

/-! ## Blanks and line ends -/

/-- A blank within a line. -/
def isBlank (c : Char) : Bool := c == ' ' || c == '\t'

/-- The text after blanks within a line. -/
def skipBlanks (s : List Char) : List Char := s.dropWhile isBlank

/-- A character that a comment may hold. -/
def isCommentChar (c : Char) : Bool :=
  c == '\t' || (' ' ≤ c && c ≤ '~') || 0x80 ≤ c.toNat

/-- The text after the end of a line. -/
def dropLineEnd? : List Char → Option (List Char)
  | '\n' :: r => some r
  | '\r' :: '\n' :: r => some r
  | _ => none

/-- The text after blanks, an optional comment and the end of the line or of the
text. -/
def finishLine? (s : List Char) : Option (List Char) :=
  let r := match skipBlanks s with
    | '#' :: r => r.dropWhile isCommentChar
    | r => r
  if r.isEmpty then some [] else dropLineEnd? r

/-- The text after blanks, line ends and comments.  A comment ends with its line. -/
def skipLines? (inComment : Bool) : List Char → Option (List Char)
  | [] => some []
  | '\n' :: r => skipLines? false r
  | '\r' :: '\n' :: r => skipLines? false r
  | c :: r =>
    if inComment then
      if isCommentChar c then skipLines? true r else none
    else if isBlank c then skipLines? false r
    else if c = '#' then skipLines? true r
    else some (c :: r)

/-! ## Texts -/

/-- The character of an escape letter. -/
def escapeLetter? (c : Char) : Option Char :=
  if c = '/' then none else Json.escapeLetter? c

/-- The character with a code point, if there is one. -/
def charOf? (n : Nat) : Option Char :=
  if n < 0xd800 || (0xe000 ≤ n && n < 0x110000) then some (Char.ofNat n) else none

/-- A character that may stand for itself between double quotes. -/
def isPlain (c : Char) : Bool := isCommentChar c && c != '"' && c != '\\'

/-- A character that may stand for itself between single quotes. -/
def isRaw (c : Char) : Bool := isCommentChar c && c != '\''

/-- An escape after its backslash. -/
def readEscape? : List Char → Option (Char × List Char)
  | 'u' :: a :: b :: c :: d :: r => do
    let ch ← charOf? (← hexNumber? a b c d)
    return (ch, r)
  | 'U' :: a :: b :: c :: d :: e :: f :: g :: h :: r => do
    let hi ← hexNumber? a b c d
    let lo ← hexNumber? e f g h
    let ch ← charOf? (hi * 0x10000 + lo)
    return (ch, r)
  | c :: r => (escapeLetter? c).map fun d => (d, r)
  | [] => none

/-- The rest of a text between double quotes on one line; `fuel` bounds its length. -/
def readQuoted? : (fuel : Nat) → List Char → Option (List Char × List Char)
  | 0, _ => none
  | fuel + 1, s =>
    match s with
    | '"' :: r => some ([], r)
    | '\\' :: r => do
      let (c, r) ← readEscape? r
      let (cs, rest) ← readQuoted? fuel r
      return (c :: cs, rest)
    | c :: r =>
      if isPlain c then (readQuoted? fuel r).map fun (cs, rest) => (c :: cs, rest)
      else none
    | [] => none

/-- The rest of a text between single quotes on one line. -/
def readRaw? (s : List Char) : Option (List Char × List Char) :=
  match s.dropWhile isRaw with
  | '\'' :: r => some (s.takeWhile isRaw, r)
  | _ => none

/-- Up to two quotes that belong to a text before its three closing quotes, and the text
after it. -/
def closeLong (quote : Char) (r : List Char) : List Char × List Char :=
  let extra := (r.take 2).takeWhile (· == quote)
  (extra, r.drop extra.length)

/-- Whether only blanks stand before the end of the line. -/
def endsLine (s : List Char) : Bool := (dropLineEnd? (skipBlanks s)).isSome

/-- The rest of a text between three double quotes.  A backslash at the end of a line
takes away all blanks and line ends that follow. -/
def readLongQuoted? : (fuel : Nat) → List Char → Option (List Char × List Char)
  | 0, _ => none
  | fuel + 1, s =>
    match s with
    | '"' :: '"' :: '"' :: r => some (closeLong '"' r)
    | '"' :: r => (readLongQuoted? fuel r).map fun (cs, rest) => ('"' :: cs, rest)
    | '\r' :: '\n' :: r =>
      (readLongQuoted? fuel r).map fun (cs, rest) => ('\n' :: cs, rest)
    | '\n' :: r => (readLongQuoted? fuel r).map fun (cs, rest) => ('\n' :: cs, rest)
    | '\\' :: r =>
      if endsLine r then
        match skipLines? false
          (r.takeWhile fun c => isBlank c || c == '\n' || c == '\r') with
        | some [] =>
          readLongQuoted? fuel
            (r.dropWhile fun c => isBlank c || c == '\n' || c == '\r')
        | _ => none
      else do
        let (c, r) ← readEscape? r
        let (cs, rest) ← readLongQuoted? fuel r
        return (c :: cs, rest)
    | c :: r =>
      if isPlain c then (readLongQuoted? fuel r).map fun (cs, rest) => (c :: cs, rest)
      else none
    | [] => none

/-- The rest of a text between three single quotes. -/
def readLongRaw? : List Char → Option (List Char × List Char)
  | '\'' :: '\'' :: '\'' :: r => some (closeLong '\'' r)
  | '\r' :: '\n' :: r => (readLongRaw? r).map fun (cs, rest) => ('\n' :: cs, rest)
  | c :: r =>
    if c = '\'' || c = '\n' || isRaw c then
      (readLongRaw? r).map fun (cs, rest) => (c :: cs, rest)
    else none
  | [] => none

/-- The text after a line end that directly follows the opening quotes. -/
def dropFirstLineEnd (s : List Char) : List Char := (dropLineEnd? s).getD s

/-- A text in any of its spellings. -/
def readText? : List Char → Option (List Char × List Char)
  | '"' :: '"' :: '"' :: r => readLongQuoted? (r.length + 1) (dropFirstLineEnd r)
  | '"' :: r => readQuoted? (r.length + 1) r
  | '\'' :: '\'' :: '\'' :: r => readLongRaw? (dropFirstLineEnd r)
  | '\'' :: r => readRaw? r
  | _ => none

/-! ## Keys -/

/-- A character of a key without quotes. -/
def isKeyChar (c : Char) : Bool :=
  c.isAlphanum || c == '_' || c == '-'

/-- One part of a key. -/
def readKeyPart? (s : List Char) : Option (String × List Char) :=
  match s with
  | '"' :: r =>
    (readQuoted? (r.length + 1) r).map fun (cs, rest) => (String.ofList cs, rest)
  | '\'' :: r => (readRaw? r).map fun (cs, rest) => (String.ofList cs, rest)
  | _ =>
    let ks := s.takeWhile isKeyChar
    if ks.isEmpty then none else some (String.ofList ks, s.dropWhile isKeyChar)

/-- The parts of a key, with dots between them and blanks around each, and the text
after it. -/
def readKey? : (fuel : Nat) → List Char → Option (List String × List Char)
  | 0, _ => none
  | fuel + 1, s => do
    let (k, r) ← readKeyPart? (skipBlanks s)
    match skipBlanks r with
    | '.' :: r =>
      let (ks, rest) ← readKey? fuel r
      return (k :: ks, rest)
    | r => return ([k], r)

/-- A key has at most so many parts. -/
def keyLimit : Nat := 79

/-! ## Numbers -/

/-- Digits without the underscores between them.  An underscore has a digit on either
side. -/
def ungroup? (isDigit : Char → Bool) : List Char → Option (List Char)
  | [] => none
  | [c] => if isDigit c then some [c] else none
  | c :: '_' :: r => if isDigit c then (ungroup? isDigit r).map (c :: ·) else none
  | c :: r => if isDigit c then (ungroup? isDigit r).map (c :: ·) else none

/-- Whether digits are those of a whole number: only zero itself begins with zero. -/
def isWhole (ds : List Char) : Bool :=
  match ds with
  | ['0'] => true
  | '0' :: _ => false
  | _ => true

/-- A sign, negative or not, and what follows it. -/
def splitSign : List Char → Bool × List Char
  | '-' :: r => (true, r)
  | '+' :: r => (false, r)
  | r => (false, r)

/-- A number within 64 bits with a sign. -/
def int64? (n : Int) : Option Int :=
  if -Int.pow 2 63 ≤ n && n < Int.pow 2 63 then some n else none

/-- A whole number in a base. -/
def inBase? (base : Nat) (s : List Char) : Option Int := do
  let ds ← ungroup? (fun c => (hexValue? c).any (· < base)) s
  int64? ((ds.foldl (fun n c => base * n + (hexValue? c).getD 0) 0 : Nat) : Int)

/-- A whole number. -/
def integer? (s : List Char) : Option Int :=
  match s with
  | '0' :: 'x' :: r => inBase? 16 r
  | '0' :: 'o' :: r => inBase? 8 r
  | '0' :: 'b' :: r => inBase? 2 r
  | _ => do
    let (negative, r) := splitSign s
    let ds ← ungroup? Char.isDigit r
    if isWhole ds then
      let n : Int := natOfDigits ds
      int64? (if negative then -n else n)
    else none

/-- The exponent of a number, with its sign. -/
def exponent? : List Char → Option (Bool × List Char)
  | [] => some (false, [])
  | c :: r =>
    if c = 'e' || c = 'E' then do
      let (negative, ds) := splitSign r
      return (negative, ← ungroup? Char.isDigit ds)
    else none

/-- The fraction and the exponent of a number; at least one of them is there. -/
def fraction? (s : List Char) : Option (List Char × Bool × List Char) :=
  let isPart (c : Char) : Bool := c.isDigit || c == '_'
  match s with
  | '.' :: r => do
    let ds ← ungroup? Char.isDigit (r.takeWhile isPart)
    let (negative, es) ← exponent? (r.dropWhile isPart)
    return (ds, negative, es)
  | [] => none
  | _ => (exponent? s).map fun e => ([], e)

/-- A number with a fraction or an exponent, or one of the words for infinity and "not a
number". -/
def float? (s : List Char) : Option Float :=
  let (negative, r) := splitSign s
  if r = "inf".toList then some (if negative then -(1 / 0) else 1 / 0)
  else if r = "nan".toList then some (0 / 0)
  else do
    let isPart (c : Char) : Bool := c.isDigit || c == '_'
    let whole ← ungroup? Char.isDigit (r.takeWhile isPart)
    if !isWhole whole then none
    let (fraction, exponentNegative, exponent) ← fraction? (r.dropWhile isPart)
    let x := (Spelling.mk negative whole fraction exponentNegative exponent).value
    if x.isInf && !negative then none else some x

/-! ## Dates and times -/

open SeriesQuery.Time (takeDigits? takeChar? monthLength)

/-- A date. -/
def dropDate? (s : List Char) : Option (List Char) := do
  let (year, s) ← takeDigits? 4 4 s
  let (month, s) ← takeDigits? 2 2 (← takeChar? '-' s)
  let (day, s) ← takeDigits? 2 2 (← takeChar? '-' s)
  if 1 ≤ month && month ≤ 12 && 1 ≤ day && day ≤ monthLength year month then some s
    else none

/-- A fraction of a second, or nothing. -/
def dropFraction? : List Char → Option (List Char)
  | '.' :: r =>
    if (r.takeWhile Char.isDigit).isEmpty then none else some (r.dropWhile Char.isDigit)
  | s => some s

/-- A time of day. -/
def dropClock? (s : List Char) : Option (List Char) := do
  let (hour, s) ← takeDigits? 2 2 s
  let (minute, s) ← takeDigits? 2 2 (← takeChar? ':' s)
  let (second, s) ← takeDigits? 2 2 (← takeChar? ':' s)
  if hour ≤ 23 && minute ≤ 59 && second ≤ 60 then dropFraction? s else none

/-- A distance from universal time, or nothing. -/
def dropOffset? : List Char → Option (List Char)
  | 'Z' :: r => some r
  | 'z' :: r => some r
  | c :: r =>
    if c = '+' || c = '-' then do
      let (hour, s) ← takeDigits? 2 2 r
      let (minute, s) ← takeDigits? 2 2 (← takeChar? ':' s)
      if hour ≤ 23 && minute ≤ 59 then some s else none
    else some (c :: r)
  | [] => some []

/-- Whether a text is a date, a time of day, or a date and a time with or without an
offset. -/
def isMoment (s : List Char) : Bool :=
  match dropDate? s with
  | some [] => true
  | some (c :: r) =>
    (c == 'T' || c == 't' || c == ' ') &&
      ((dropClock? r).bind dropOffset?).any List.isEmpty
  | none => (dropClock? s).any List.isEmpty

/-! ## Words -/

/-- A character of a number, a date or a word. -/
def isWordChar (c : Char) : Bool :=
  c.isAlphanum || c == '_' || c == '-' || c == '+' || c == '.' || c == ':'

/-- The characters of a word.  A date and a time may have one blank between them. -/
def takeWord (s : List Char) : List Char :=
  let w := s.takeWhile isWordChar
  match dropDate? w, s.drop w.length with
  | some [], ' ' :: c :: r =>
    if c.isDigit then w ++ ' ' :: (c :: r).takeWhile isWordChar else w
  | _, _ => w

/-- The value of a word. -/
def wordValue? (w : List Char) : Option Value :=
  if w = "true".toList then some (.boolean true)
  else if w = "false".toList then some (.boolean false)
  else if isMoment w then some (.moment w)
  else ((integer? w).map .integer).or ((float? w).map .float)

end SeriesQuery.Toml
