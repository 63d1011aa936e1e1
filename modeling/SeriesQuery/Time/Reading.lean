import SeriesQuery.Decimal.Reading
import SeriesQuery.Text.Blank
import SeriesQuery.Time.Written

/-!
# Reading instants

Three ways of writing an instant are read.  The strict way is that of RFC 3339.  The
relaxed way accepts the same with blanks before the numbers, years of any length with a
sign, and the word for universal time.  A date-time without an offset follows one of a
few layouts and is taken as universal time.

A layout is a list of fields and separators.  A field skips white space, then takes as
many digits as it may; a separator has to stand where the layout has it.
-/

namespace SeriesQuery.Time

open SeriesQuery.Decimal (natOfDigits)
open SeriesQuery.Text (isSpace trimLeft trimChars)

/-- Parts of a date-time as read, not yet checked against the calendar. -/
structure Parts where
  year : Int := 0
  month : Nat := 0
  day : Nat := 0
  hour : Nat := 0
  minute : Nat := 0
  second : Nat := 0
  nano : Nat := 0
  deriving DecidableEq, Repr

/-- Between `least` and `most` digits, as many as there are. -/
def takeDigits? (least most : Nat) (s : List Char) : Option (Nat × List Char) :=
  let ds := (s.take most).takeWhile Char.isDigit
  if ds.length < least then none else some (natOfDigits ds, s.drop ds.length)

/-- A run of at least one digit whose number fits in 64 bits with a sign. -/
def takeLongNumber? (s : List Char) : Option (Nat × List Char) :=
  let ds := s.takeWhile Char.isDigit
  let n := natOfDigits ds
  if ds.isEmpty || Nat.pow 2 63 ≤ n then none else some (n, s.drop ds.length)

/-- The digits of a fraction as nanoseconds; digits after the ninth are dropped. -/
def takeNanos? (s : List Char) : Option (Nat × List Char) :=
  let ds := s.takeWhile Char.isDigit
  if ds.isEmpty then none
  else
    let kept := ds.take 9
    some (natOfDigits kept * Nat.pow 10 (9 - kept.length), s.drop ds.length)

/-- One given character. -/
def takeChar? (c : Char) : List Char → Option (List Char)
  | d :: r => if d = c then some r else none
  | [] => none

/-- A point and a fraction, or nothing. -/
def takeFraction? : List Char → Option (Nat × List Char)
  | '.' :: r => takeNanos? r
  | s => some (0, s)

/-- The instant that checked parts denote in universal time.  Second sixty is the leap
second after second fifty-nine. -/
def Parts.instant? (p : Parts) : Option Instant := do
  let d ← Date.ofParts? p.year p.month p.day
  if p.hour < 24 && p.minute < 60 && p.second ≤ 60 then
    if p.second = 60 then
      some (Instant.ofDate d (p.hour * 3600 + p.minute * 60 + 59)
        (Instant.nanosPerSecond + p.nano))
    else some (Instant.ofDate d (p.hour * 3600 + p.minute * 60 + p.second) p.nano)
  else none

/-- The instant of parts written at an offset of some seconds east. -/
def Parts.instantAt? (p : Parts) (offset : Int) : Option Instant := do
  let t ← p.instant?
  let u : Instant := ⟨t.second - offset, t.nano⟩
  if u.isRepresentable then some u else none

/-- How hours and minutes of an offset are kept apart. -/
inductive OffsetSeparator where
  /-- One colon. -/
  | colon
  /-- Any run of colons and white space, also none. -/
  | anyGap

/-- Takes the separator off. -/
def OffsetSeparator.take? : OffsetSeparator → List Char → Option (List Char)
  | .colon, s => takeChar? ':' s
  | .anyGap, s => some (s.dropWhile fun c => c == ':' || isSpace c)

/-- An offset in seconds: the letter for universal time, or a sign, hours and minutes.
The minus sign may be the hyphen or the mathematical one. -/
def takeOffset? (separator : OffsetSeparator) : List Char → Option (Int × List Char)
  | [] => none
  | c :: r =>
    if c = 'Z' || c = 'z' then some (0, r)
    else if c = '+' || c = '-' || c = '−' then do
      let (hours, r) ← takeDigits? 2 2 r
      let r ← separator.take? r
      let (minutes, r) ← takeDigits? 2 2 r
      if minutes < 60 then
        let n : Int := hours * 3600 + minutes * 60
        some (if c = '+' then n else -n, r)
      else none
    else none

/-- The letter or blank between date and time of day. -/
def takeTimeMark? : List Char → Option (List Char)
  | c :: r => if c = 'T' || c = 't' || c = ' ' then some r else none
  | [] => none

/-- An instant as RFC 3339 writes it, with nothing before or after. -/
def Instant.readStrict? (s : List Char) : Option Instant := do
  let (year, s) ← takeDigits? 4 4 s
  let s ← takeChar? '-' s
  let (month, s) ← takeDigits? 2 2 s
  let s ← takeChar? '-' s
  let (day, s) ← takeDigits? 2 2 s
  let s ← takeTimeMark? s
  let (hour, s) ← takeDigits? 2 2 s
  let s ← takeChar? ':' s
  let (minute, s) ← takeDigits? 2 2 s
  let s ← takeChar? ':' s
  let (second, s) ← takeDigits? 2 2 s
  let (nano, s) ← takeFraction? s
  let (offset, s) ← takeOffset? .colon s
  if s.isEmpty && offset.natAbs < 86400 then
    Parts.instantAt? ⟨year, month, day, hour, minute, second, nano⟩ offset
  else none

/-! ## Layouts -/

/-- An element of a layout. -/
inductive Field where
  | year | month | day | hour | minute | second
  /-- A point and a fraction of the second, or nothing. -/
  | fraction
  /-- Any run of white space, also none. -/
  | gap
  /-- One given character. -/
  | mark (c : Char)
  deriving DecidableEq, Repr

/-- A year: with a sign any number of digits, without one at most four. -/
def takeYear? : List Char → Option (Int × List Char)
  | '-' :: r => (takeLongNumber? r).map fun p => (-(p.1 : Int), p.2)
  | '+' :: r => (takeLongNumber? r).map fun p => ((p.1 : Int), p.2)
  | s => (takeDigits? 1 4 s).map fun p => ((p.1 : Int), p.2)

/-- Reads one element. -/
def Field.take? (f : Field) (p : Parts) (s : List Char) : Option (Parts × List Char) :=
  match f with
  | .year => (takeYear? (trimLeft s)).map fun (n, r) => ({ p with year := n }, r)
  | .month =>
    (takeDigits? 1 2 (trimLeft s)).map fun (n, r) => ({ p with month := n }, r)
  | .day => (takeDigits? 1 2 (trimLeft s)).map fun (n, r) => ({ p with day := n }, r)
  | .hour => (takeDigits? 1 2 (trimLeft s)).map fun (n, r) => ({ p with hour := n }, r)
  | .minute =>
    (takeDigits? 1 2 (trimLeft s)).map fun (n, r) => ({ p with minute := n }, r)
  | .second =>
    (takeDigits? 1 2 (trimLeft s)).map fun (n, r) => ({ p with second := n }, r)
  | .fraction => (takeFraction? s).map fun (n, r) => ({ p with nano := n }, r)
  | .gap => some (p, trimLeft s)
  | .mark c => (takeChar? c s).map fun r => (p, r)

/-- Reads the elements of a layout one after the other. -/
def takeFields? : List Field → Parts → List Char → Option (Parts × List Char)
  | [], p, s => some (p, s)
  | f :: fs, p, s => do
    let (p, s) ← f.take? p s
    takeFields? fs p s

/-- Year, month and day joined by hyphens. -/
def dateLayout : List Field := [.year, .mark '-', .month, .mark '-', .day]

/-- Hour, minute and second joined by colons, with a fraction. -/
def clockLayout : List Field :=
  [.hour, .mark ':', .minute, .mark ':', .second, .fraction]

/-- The layouts of a date-time without an offset, in the order in which they are
tried. -/
def plainLayouts : List (List Field) :=
  [ dateLayout ++ .gap :: clockLayout
  , dateLayout ++ .mark 'T' :: clockLayout
  , dateLayout ++ [.gap, .hour, .mark ':', .minute]
  , dateLayout ]

/-- The instant that a text of one layout denotes in universal time. -/
def Instant.readLayout? (layout : List Field) (s : List Char) : Option Instant := do
  let (p, rest) ← takeFields? layout {} s
  if rest.isEmpty then p.instant? else none

/-- An instant in the relaxed way. -/
def Instant.readRelaxed? (s : List Char) : Option Instant := do
  let gapped := [.year, .gap, .mark '-', .month, .gap, .mark '-', .day]
  let (p, s) ← takeFields? gapped {} s
  let s ← takeTimeMark? s
  let gapped :=
    [.hour, .gap, .mark ':', .minute, .gap, .mark ':', .second, .fraction, .gap]
  let (p, s) ← takeFields? gapped p s
  let (offset, s) ←
    if (s.take 3).map Char.toLower = ['u', 't', 'c'] then some ((0 : Int), s.drop 3)
    else takeOffset? .anyGap s
  if (trimLeft s).isEmpty && offset.natAbs < 86400 then p.instantAt? offset else none

/-- An absolute date-time as a statement writes it: RFC 3339, or a date with or without
a time of day, which is then taken as universal time.  Blanks around it do not count. -/
def Instant.readAbsolute? (text : List Char) : Option Instant :=
  let s := trimChars text
  (Instant.readStrict? s).or
    (plainLayouts.findSome? fun layout => Instant.readLayout? layout s)

end SeriesQuery.Time
