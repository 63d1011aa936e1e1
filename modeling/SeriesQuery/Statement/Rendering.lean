import SeriesQuery.Statement.Grammar

/-!
# Renderings

Which texts write a statement, said without reading them.  A statement is a row of
lexemes, and a text lays them out: blanks may stand before each, and one has to stand
between two that would run together.  The forms follow the grammar.  Each relates a part
of a statement to the rows of lexemes that may stand for it.

Not every statement can be written.  A name has to be a word, for instance, and a list
that the grammar wants must have an entry; a statement that can be written is well
formed.
-/

namespace SeriesQuery.Rendering

open SeriesQuery.Text (isBlank)
open SeriesQuery.Reading (isWordChar isWordStart isNameChar isBareChar positionOf)

/-! ## Layout -/

/-- A piece of text that is written without a break, and the characters that would
belong to it if they came right after it. -/
structure Lexeme where
  chars : List Char
  joins : Char → Bool

/-- A single sign. -/
def sign (c : Char) : Lexeme := ⟨[c], fun _ => false⟩

/-- Letters, digits and underscores, which end where a word ends. -/
def plain (cs : List Char) : Lexeme := ⟨cs, isWordChar⟩

/-- Nothing but blanks stands between two places of a text. -/
def Gap (s m : List Char) : Prop := ∃ g, (∀ c ∈ g, isBlank c = true) ∧ s = g ++ m

/-- A lexeme stands at the front of a text, and what comes after it does not belong to
it. -/
def Lexeme.At (l : Lexeme) (s r : List Char) : Prop :=
  s = l.chars ++ r ∧ ∀ c ∈ r.head?, l.joins c = false

/-- A text holds lexemes in their order, with blanks before them. -/
inductive Laid : List Lexeme → List Char → List Char → Prop
  | nil (s : List Char) : Laid [] s s
  | cons {l : Lexeme} {ls : List Lexeme} {s m m' r : List Char} :
      Gap s m → l.At m m' → Laid ls m' r → Laid (l :: ls) s r

/-! ## Lists -/

/-- Several parts, one after the other. -/
inductive Each {α : Type} (form : α → List Lexeme → Prop) : List α → List Lexeme → Prop
  | nil : Each form [] []
  | cons {a : α} {as : List α} {ts ts' : List Lexeme} :
      form a ts → Each form as ts' → Each form (a :: as) (ts ++ ts')

/-- A part after a separator. -/
inductive After {α : Type} (separator : Lexeme → Prop) (form : α → List Lexeme → Prop) :
    α → List Lexeme → Prop
  | intro {a : α} {l : Lexeme} {ts : List Lexeme} :
      separator l → form a ts → After separator form a (l :: ts)

/-- At least one part, with separators between them. -/
inductive Listed {α : Type} (separator : Lexeme → Prop)
    (form : α → List Lexeme → Prop) :
    List α → List Lexeme → Prop
  | intro {a : α} {as : List α} {ts ts' : List Lexeme} : form a ts →
      Each (After separator form) as ts' → Listed separator form (a :: as) (ts ++ ts')

/-- The comma between parts. -/
def IsComma (l : Lexeme) : Prop := l = sign ','

/-! ## Words and names -/

/-- A letter or an underscore, and then characters of a class. -/
def Spells (p : Char → Bool) (w : String) : Prop :=
  ∃ c cs, w.toList = c :: cs ∧ isWordStart c = true ∧ ∀ d ∈ cs, p d = true

/-- A word: a letter or underscore, then letters, digits and underscores. -/
def IsWord (w : String) : Prop := Spells isWordChar w

/-- A word is another one, written in any letter case. -/
def SameLetters (cs : List Char) (w : String) : Prop := cs.map Char.toLower = w.toList

/-- A keyword in any letter case. -/
inductive Keyword (w : String) : Lexeme → Prop
  | intro {cs : List Char} : SameLetters cs w → Keyword w (plain cs)

/-- A word as it is. -/
inductive WordForm : String → List Lexeme → Prop
  | intro (w : String) : WordForm w [plain w.toList]

/-- The body of a quoted text, and the characters that it stands for. -/
inductive Body (quote : Char) : List Char → List Char → Prop
  | nil : Body quote [] []
  | plain {c : Char} {body value : List Char} : c ≠ quote → c ≠ '\\' →
      Body quote body value → Body quote (c :: body) (c :: value)
  | escape {c d : Char} {body value : List Char} : escapeLetter? c = some d →
      Body quote body value → Body quote ('\\' :: c :: body) (d :: value)

/-- A text between two equal quotes, single or double. -/
inductive Quoted : List Char → Lexeme → Prop
  | intro {quote : Char} {body value : List Char} : quote = '"' ∨ quote = '\'' →
      Body quote body value → Quoted value ⟨quote :: (body ++ [quote]), fun _ => false⟩

/-- A metric or tag name. -/
inductive NameForm : String → List Lexeme → Prop
  | quoted {v : String} {l : Lexeme} : Quoted v.toList l → NameForm v [l]
  | bare {v : String} : Spells isNameChar v → NameForm v [⟨v.toList, isNameChar⟩]

/-- A tag value. -/
inductive TagValueForm : String → List Lexeme → Prop
  | quoted {v : String} {l : Lexeme} : Quoted v.toList l → TagValueForm v [l]
  | bare {v : String} : v.toList ≠ [] → (∀ c ∈ v.toList, isBareChar c = true) →
      TagValueForm v [⟨v.toList, isBareChar⟩]

/-! ## Times -/

/-- At least one digit. -/
def Digits (ds : List Char) : Prop := ds ≠ [] ∧ ∀ d ∈ ds, d.isDigit = true

/-- An amount of time, in digits. -/
inductive Amount : Nat → Lexeme → Prop
  | intro {ds : List Char} : Digits ds →
      Amount (Decimal.natOfDigits ds) ⟨ds, Char.isDigit⟩

/-- One of the words for a unit, in any letter case. -/
inductive UnitWord : TimeUnit → Lexeme → Prop
  | intro {u : TimeUnit} {w : String} {cs : List Char} : w ∈ u.words →
      SameLetters cs w → UnitWord u ⟨cs, Char.isAlpha⟩

/-- A point in time. -/
inductive MomentForm : Moment → List Lexeme → Prop
  | now {k : Lexeme} : Keyword "now" k → MomentForm .now [k]
  | ago {n : Nat} {u : TimeUnit} {l l' k : Lexeme} : Amount n l → UnitWord u l' →
      Keyword "ago" k → MomentForm (.ago n u) [l, l', k]
  | fixed {t : Time.Instant} {v : List Char} {l : Lexeme} : Quoted v l →
      readDateTime v = .ok t → MomentForm (.fixed t) [l]

/-- A start, and an end after the word `to`. -/
inductive SpanForm : Span → List Lexeme → Prop
  | since {t : Moment} {ts : List Lexeme} : MomentForm t ts → SpanForm ⟨t, none⟩ ts
  | between {t t' : Moment} {k : Lexeme} {ts ts' : List Lexeme} : MomentForm t ts →
      Keyword "to" k → MomentForm t' ts' → SpanForm ⟨t, some t'⟩ (ts ++ k :: ts')

/-! ## Select stages -/

/-- A tag and its values. -/
inductive FilterForm : TagFilter → List Lexeme → Prop
  | intro {f : TagFilter} {ts ts' : List Lexeme} : NameForm f.key ts →
      Listed IsComma TagValueForm f.values ts' → FilterForm f (ts ++ sign '=' :: ts')

/-- What a clause gives. -/
inductive Given where
  | range (s : Span)
  | filters (fs : List TagFilter)
  | groupBy (names : List String)

/-- What the clauses of a select stage give; nothing for a clause that is left out. -/
def given (s : Select) : List Given :=
  s.span.toList.map .range ++ (if s.filters = [] then [] else [.filters s.filters]) ++
    (if s.groupBy = [] then [] else [.groupBy s.groupBy])

/-- A clause. -/
inductive ClauseForm : Given → List Lexeme → Prop
  | range {s : Span} {k : Lexeme} {ts : List Lexeme} : Keyword "from" k →
      SpanForm s ts → ClauseForm (.range s) (k :: ts)
  | filters {fs : List TagFilter} {k : Lexeme} {ts : List Lexeme} : Keyword "where" k →
      Listed (Keyword "and") FilterForm fs ts → ClauseForm (.filters fs) (k :: ts)
  | groupBy {names : List String} {k k' : Lexeme} {ts : List Lexeme} :
      Keyword "group" k → Keyword "by" k' →
      Listed IsComma NameForm names ts →
      ClauseForm (.groupBy names) (k :: k' :: ts)

/-- A select stage, with its clauses in any order. -/
inductive SelectForm : Select → List Lexeme → Prop
  | intro {s : Select} {order : List Given} {k : Lexeme} {ts ts' : List Lexeme} :
      Keyword "select" k → NameForm s.metric ts → order.Perm (given s) →
      Each ClauseForm order ts' → SelectForm s (k :: (ts ++ ts'))

/-! ## Aggregations -/

/-- The sources of an aggregation. -/
inductive SourcesForm : Option (List String) → List Lexeme → Prop
  | none : SourcesForm none []
  | single {w : String} {k : Lexeme} {ts : List Lexeme} : Keyword "of" k →
      WordForm w ts → SourcesForm (some [w]) (k :: ts)
  | listed {ws : List String} {k : Lexeme} {ts : List Lexeme} : Keyword "of" k →
      Listed IsComma WordForm ws ts →
      SourcesForm (some ws) (k :: sign '(' :: (ts ++ [sign ')']))

/-- The fraction of a number, after a point. -/
inductive FractionChars : List Char → List Char → Prop
  | none : FractionChars [] []
  | some {ds : List Char} : Digits ds → FractionChars ds ('.' :: ds)

/-- The sign of an exponent; a plus sign may be left out. -/
inductive SignChars : Bool → List Char → Prop
  | minus : SignChars true ['-']
  | plus : SignChars false ['+']
  | none : SignChars false []

/-- The exponent of a number, after its letter. -/
inductive ExponentChars : Bool → List Char → List Char → Prop
  | none : ExponentChars false [] []
  | some {negative : Bool} {e : Char} {signs ds : List Char} : e = 'e' ∨ e = 'E' →
      SignChars negative signs → Digits ds →
      ExponentChars negative ds (e :: (signs ++ ds))

/-- A number as written. -/
inductive NumberChars : Decimal.Spelling → List Char → Prop
  | intro {s : Decimal.Spelling} {fraction exponent : List Char} : Digits s.whole →
      FractionChars s.fraction fraction →
      ExponentChars s.exponentNegative s.exponent exponent →
      NumberChars s
        ((if s.negative then ['-'] else []) ++ (s.whole ++ (fraction ++ exponent)))

/-- The number that a numeral denotes. -/
inductive Number : Float → Lexeme → Prop
  | intro {s : Decimal.Spelling} {cs : List Char} : NumberChars s cs →
      Number s.value ⟨cs, Char.isDigit⟩

/-- The value of an argument. -/
inductive ValueForm : ArgValue → List Lexeme → Prop
  | number {x : Float} {l : Lexeme} : Number x l → ValueForm (.number x) [l]
  | text {v : String} {l : Lexeme} : Quoted v.toList l → ValueForm (.text v) [l]
  | yes {k : Lexeme} : Keyword "true" k → ValueForm (.boolean true) [k]
  | no {k : Lexeme} : Keyword "false" k → ValueForm (.boolean false) [k]
  | word {w : String} {ts : List Lexeme} : WordForm w ts → ValueForm (.word w) ts

/-- A key and a value. -/
inductive ArgumentForm : Argument → List Lexeme → Prop
  | intro {a : Argument} {ts ts' : List Lexeme} : WordForm a.key ts →
      ValueForm a.value ts' → ArgumentForm a (ts ++ sign '=' :: ts')

/-- The arguments: each after a comma when sources come first, else a list that may be
empty. -/
inductive ArgumentsForm : Bool → List Argument → List Lexeme → Prop
  | after {as : List Argument} {ts : List Lexeme} :
      Each (After IsComma ArgumentForm) as ts → ArgumentsForm true as ts
  | none : ArgumentsForm false [] []
  | listed {as : List Argument} {ts : List Lexeme} : Listed IsComma ArgumentForm as ts →
      ArgumentsForm false as ts

/-- An aggregation; its name may be written in any letter case. -/
inductive AggregationForm : Aggregation → List Lexeme → Prop
  | intro {a : Aggregation} {cs : List Char} {ts ts' : List Lexeme} :
      SameLetters cs a.name →
      SourcesForm a.sources ts → ArgumentsForm a.sources.isSome a.arguments ts' →
      AggregationForm a (plain cs :: sign '(' :: (ts ++ ts' ++ [sign ')']))

/-! ## Statements -/

/-- What a stage does. -/
inductive BodyForm : StageBody → List Lexeme → Prop
  | select {s : Select} {ts : List Lexeme} : SelectForm s ts → BodyForm (.select s) ts
  | aggregate {a : Aggregation} {ts : List Lexeme} : AggregationForm a ts →
      BodyForm (.aggregate a) ts

/-- A stage with the name that it binds, if any. -/
inductive StageForm : Option String → StageBody → List Lexeme → Prop
  | unbound {body : StageBody} {ts : List Lexeme} : BodyForm body ts →
      StageForm none body ts
  | bound {w : String} {body : StageBody} {ts ts' : List Lexeme} : WordForm w ts →
      BodyForm body ts' → StageForm (some w) body (ts ++ sign '=' :: ts')

/-- What may stand after the last stage: one more semicolon, and blanks. -/
inductive Closing : List Char → Prop
  | plain {r : List Char} : Gap r [] → Closing r
  | semicolon {r e : List Char} : Laid [sign ';'] r e → Gap e [] → Closing r

/-- The rest of a text holds stages with semicolons between them, each at the place
where its first lexeme stands. -/
inductive StagesForm (source : List Char) : List Stage → List Char → Prop
  | last {st : Stage} {ts : List Lexeme} {s r : List Char} :
      StageForm st.binding st.body ts →
      Laid ts s r → st.position = positionOf source (s.dropWhile isBlank) → Closing r →
      StagesForm source [st] s
  | more {st : Stage} {sts : List Stage} {ts : List Lexeme} {s m r : List Char} :
      StageForm st.binding st.body ts → Laid ts s m →
      st.position = positionOf source (s.dropWhile isBlank) → Laid [sign ';'] m r →
      StagesForm source sts r → StagesForm source (st :: sts) s

/-- A text writes a statement. -/
def Renders (s : Statement) (text : String) : Prop :=
  StagesForm text.toList s.stages text.toList

/-- One place comes before another one: on an earlier line, or to the left of it. -/
def Earlier (p q : Position) : Prop :=
  p.line < q.line ∨ p.line = q.line ∧ p.column < q.column

/-- A place holds a character that is no blank. -/
def Marks (source : List Char) (p : Position) : Prop :=
  ∃ before c rest,
    source = before ++ c :: rest ∧ isBlank c = false ∧ p = Position.after before

/-! ## Well-formed statements -/

/-- An amount of time fits in 32 bits. -/
def MomentFits : Moment → Prop
  | .ago n _ => n < Nat.pow 2 32
  | _ => True

/-- A select stage that can be written: every filter has a value. -/
structure WellFormedSelect (s : Select) : Prop where
  start : ∀ range ∈ s.span, MomentFits range.start
  stop : ∀ range ∈ s.span, ∀ t ∈ range.stop, MomentFits t
  values : ∀ f ∈ s.filters, f.values ≠ []

/-- An aggregation that can be written: names are words, and none is taken for something
else. -/
structure WellFormedAggregation (a : Aggregation) : Prop where
  name : IsWord a.name
  lower : SameLetters a.name.toList a.name
  noSelect : a.name ≠ "select"
  sources : ∀ ws ∈ a.sources, ws ≠ [] ∧ ∀ w ∈ ws, IsWord w
  keys : ∀ x ∈ a.arguments, IsWord x.key
  words : ∀ x ∈ a.arguments, ∀ w, x.value = .word w →
    IsWord w ∧ ¬ SameLetters w.toList "true" ∧ ¬ SameLetters w.toList "false"
  noSources : a.sources = none →
    ∀ x ∈ a.arguments.head?, ¬ SameLetters x.key.toList "of"

/-- A body that can be written. -/
def WellFormedBody : StageBody → Prop
  | .select s => WellFormedSelect s
  | .aggregate a => WellFormedAggregation a

/-- A statement that can be written. -/
structure WellFormed (s : Statement) : Prop where
  nonempty : s.stages ≠ []
  bindings : ∀ st ∈ s.stages, ∀ w ∈ st.binding, IsWord w
  bodies : ∀ st ∈ s.stages, WellFormedBody st.body

end SeriesQuery.Rendering
