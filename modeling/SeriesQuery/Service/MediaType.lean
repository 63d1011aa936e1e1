import SeriesQuery.Text.LetterCase

/-!
# Media types

A media type is a type and a subtype, of which the part after the last plus sign is a
suffix, and then parameters after semicolons.  A body is JSON when its media type
belongs to applications and has JSON for its subtype or its suffix.
-/

namespace SeriesQuery.Service.MediaType

/-- A character of a name. -/
def isNameChar (c : Char) : Bool :=
  c.isAlphanum || "!#$%&'*+-.^_|~".toList.contains c || c.toNat == 0x60

/-- The text after a value between double quotes and after blanks up to a semicolon or
the end. -/
def dropQuoted? (s : List Char) : Option (List Char) :=
  let isInner (c : Char) : Bool := ' ' ≤ c && c ≤ '~' && c != '"'
  match s.dropWhile isInner with
  | '"' :: r =>
    if (s.takeWhile isInner).isEmpty then none
    else
      match r.dropWhile (· == ' ') with
      | [] => some []
      | ';' :: r => some r
      | _ => none
  | _ => none

/-- The text after the value of a parameter and the semicolon that ends it. -/
def dropValue? (s : List Char) : Option (List Char) :=
  match s with
  | '"' :: r => dropQuoted? r
  | _ =>
    match s.dropWhile isNameChar with
    | [] => some []
    | ';' :: r => if (s.takeWhile isNameChar).isEmpty then none else some r
    | _ => none

/-- Whether a text is a list of parameters; `fuel` bounds their number. -/
def areParameters : (fuel : Nat) → List Char → Bool
  | 0, _ => false
  | fuel + 1, s =>
    match s.dropWhile (· == ' ') with
    | [] => true
    | r =>
      !(r.takeWhile isNameChar).isEmpty &&
        match r.dropWhile isNameChar with
        | '=' :: r => (dropValue? r).any (areParameters fuel)
        | _ => false

/-- The part of a subtype before its suffix. -/
def mainPart (subtype : List Char) : List Char :=
  match subtype with
  | c :: r =>
    if r.contains '+' then c :: (((r.reverse.dropWhile (· != '+')).drop 1).reverse)
    else subtype
  | [] => []

/-- The suffix of a subtype. -/
def suffix? (subtype : List Char) : Option (List Char) :=
  let r := subtype.drop 1
  if r.contains '+' then some (r.reverse.takeWhile (· != '+')).reverse else none

/-- Whether a text is a media type of JSON. -/
def isJson (text : String) : Bool :=
  let s := text.toList
  let kind := s.takeWhile isNameChar
  match s.dropWhile isNameChar with
  | '/' :: r =>
    let subtype := r.takeWhile isNameChar
    let rest := r.dropWhile isNameChar
    let isWord (cs : List Char) (word : String) : Bool :=
      Text.sameIgnoringCase (String.ofList cs) word
    isWord kind "application" && (isWord (mainPart subtype) "json" ||
        (suffix? subtype).any (isWord · "json")) &&
      match rest with
      | [] => true
      | ';' :: ps => areParameters (ps.length + 1) ps
      | _ => false
  | _ => false

end SeriesQuery.Service.MediaType
