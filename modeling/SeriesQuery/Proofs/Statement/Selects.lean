import SeriesQuery.Proofs.Statement.Numbers

/-!
# Reading select stages

The rules for times, filters and clauses read their forms, and with them the rule for a
select stage.  The clauses may stand in any order: the loop that takes them up is
followed through an order of what they give, and each kind of clause fits once into what
is given in the end.

## Main results

* `moment_reads`, `span_reads`: times and time ranges.
* `filters_reads`: filters with the word `and` between them.
* `clauses_sound`, `clauses_complete`: the loop over the clauses.
* `select_reads`: select stages.
-/

namespace SeriesQuery.Reading

open SeriesQuery.Text (isBlank)
open SeriesQuery.Rendering
open Rule

variable {s r : List Char}

/-! ## Times -/

/-- A text that begins with no letter does not begin with the word `now`. -/
private theorem nowTime_declines {c : Char} (hs : s.head? = some c)
    (hc : c.isAlpha = false) : Declines nowTime s := by
  refine bind_declines.2 (.inl (keyword_declines rfl fun d hd same => ?_))
  obtain rfl : c = d := Option.some.inj (hs.symm.trans hd)
  rw [← isAlpha_toLower, same] at hc
  exact absurd hc (by decide)

/-- A point in time is read behind blanks in each of its forms. -/
theorem moment_reads :
    Reads (spaced moment) (fun t ts => MomentFits t ∧ MomentForm t ts) anything where
  sound := by
    intro s r t h
    simp only [spaced, moment, expecting_took, orElse_took] at h
    rcases h with h | ⟨-, h | ⟨-, h⟩⟩
    · simp only [nowTime, bind_took, pure_took] at h
      obtain ⟨_, _, h, rfl, rfl⟩ := h
      obtain ⟨k, hk, laid⟩ := keyword_sound (by decide) h
      exact ⟨_, ⟨trivial, .now hk⟩, laid⟩
    · simp only [relativeTime, bind_took, blanks_took, commit_took, expecting_took,
        pure_took] at h
      obtain ⟨n, m, hn, _, _, rfl, u, m', hu, _, _, rfl, _, _, hago, rfl, rfl⟩ := h
      obtain ⟨_, ⟨l, ⟨small, hl⟩, rfl⟩, amount⟩ := amount_reads.sound hn
      obtain ⟨_, ⟨l', hl', rfl⟩, unit⟩ := unit_reads.sound hu
      obtain ⟨k, hk, ago⟩ := keyword_sound (by decide) hago
      exact ⟨_, ⟨small, .ago hl hl' hk⟩,
        laid_cons.2 ⟨m, amount, laid_cons.2 ⟨m', unit, ago⟩⟩⟩
    · simp only [fixedTime, convert_took] at h
      obtain ⟨v, hv, h⟩ := h
      split at h
      case h_1 t' ht =>
        obtain rfl : Moment.fixed t' = t := by simpa using h
        obtain ⟨_, ⟨l, hl, rfl⟩, laid⟩ := quotedText_reads.sound hv
        exact ⟨_, ⟨trivial, .fixed hl ht⟩, laid⟩
      case h_2 => simp at h
  complete := by
    rintro s r t ts ⟨fits, form⟩ laid -
    simp only [spaced, moment, expecting_took, orElse_took]
    cases form with
    | now hk =>
      have read := keyword_complete (by decide) hk laid
      refine .inl ?_
      simp only [nowTime, bind_took, pure_took]
      exact ⟨_, _, read, trivial, rfl⟩
    | ago hl hl' hk =>
      obtain ⟨m, amount, rest⟩ := laid_cons.1 laid
      obtain ⟨m', unit, ago⟩ := laid_cons.1 rest
      have readAmount := amount_reads.complete ⟨_, ⟨fits, hl⟩, rfl⟩ amount trivial
      have readUnit := unit_reads.complete ⟨_, hl', rfl⟩ unit trivial
      have readAgo := keyword_complete (by decide) hk ago
      obtain ⟨d, ds, chars, digit⟩ := amount_head hl
      have head := laid_head laid chars (isBlank_eq_false digit (by decide))
      refine .inr ⟨nowTime_declines head (isAlpha_of_isDigit digit), .inl ?_⟩
      simp only [relativeTime, bind_took, blanks_took, commit_took, expecting_took,
        pure_took]
      exact ⟨_, m, readAmount, (), _, rfl, _, m', readUnit, (), _, rfl, (), r,
        readAgo, rfl, rfl⟩
    | fixed hl ht =>
      have read := quotedText_reads.complete ⟨_, hl, rfl⟩ laid trivial
      obtain ⟨q, cs, chars, quote⟩ := quoted_head hl
      have head := laid_head laid chars (by rcases quote with rfl | rfl <;> decide)
      have noAmount : Declines relativeTime (s.dropWhile isBlank) := by
        refine bind_declines.2 (.inl (Declines.convert (run1_declines.2 ?_)))
        rw [head]
        rintro _ ⟨⟩
        rcases quote with rfl | rfl <;> decide
      refine .inr ⟨nowTime_declines head (by rcases quote with rfl | rfl <;> decide),
        .inr ⟨noAmount, ?_⟩⟩
      simp only [fixedTime, convert_took]
      exact ⟨_, read, by rw [ht]⟩

/-- A time range is read, unless it could go on with the word `to`. -/
theorem span_reads : Reads span
    (fun x ts => (MomentFits x.start ∧ ∀ t ∈ x.stop, MomentFits t) ∧ SpanForm x ts)
    (fun r => Declines (keyword "to") (r.dropWhile isBlank)) where
  sound := by
    intro s r x h
    simp only [span, bind_took, blanks_took, optional_took, commit_took, pure_took] at h
    obtain ⟨_, _, rfl, t, m, ht, o, _, ho, rfl, rfl⟩ := h
    obtain ⟨ts, ⟨fits, hts⟩, laid⟩ := moment_reads.sound ht
    rcases ho with ⟨t', ⟨_, _, rfl, _, m', hto, _, _, rfl, ht'⟩, rfl⟩ | ⟨-, rfl, rfl⟩
    · obtain ⟨k, hk, between⟩ := keyword_sound (by decide) hto
      obtain ⟨ts', ⟨fits', hts'⟩, laid'⟩ := moment_reads.sound ht'
      exact ⟨_, ⟨⟨fits, by simpa using fits'⟩, .between hts hk hts'⟩,
        laid_append.2 ⟨m, laid, laid_cons.2 ⟨m', between, laid'⟩⟩⟩
    · exact ⟨ts, ⟨⟨fits, by simp⟩, .since hts⟩, laid⟩
  complete := by
    rintro s r x ts ⟨⟨fits, fits'⟩, form⟩ laid ends
    simp only [span, bind_took, blanks_took, optional_took, commit_took, pure_took]
    cases form with
    | since hts =>
      refine ⟨(), _, rfl, _, r, moment_reads.complete ⟨fits, hts⟩ laid trivial,
        none, r, .inr ?_, rfl, rfl⟩
      simp only [bind_declines, blanks_declines, blanks_took, commit_declines]
      simpa using ends
    | between hts hk hts' =>
      obtain ⟨m, first, rest⟩ := laid_append.1 laid
      obtain ⟨m', between, second⟩ := laid_cons.1 rest
      have readTo := keyword_complete (by decide) hk between
      have readStop := moment_reads.complete ⟨fits' _ rfl, hts'⟩ second trivial
      exact ⟨(), _, rfl, _, m,
        moment_reads.complete ⟨fits, hts⟩ first trivial, some _, r,
        .inl ⟨_, ⟨(), _, rfl, (), m', readTo, (), _, rfl, readStop⟩, rfl⟩, rfl, rfl⟩

/-! ## Lists of names, values and filters -/

/-- A list with commas is read part by part, unless it could go on with a comma. -/
theorem commas_reads {α : Type} {part : Rule α} {form : α → List Lexeme → Prop}
    (reads : Reads (spaced part) form anything) :
    Reads (spaced (separated comma part)) (Listed IsComma form) (Declines comma) :=
  separated_reads comma_separates reads (fun _ _ => trivial) fun hr => ⟨trivial, hr⟩

/-- A filter is read, unless its values could go on with a comma. -/
theorem tagFilter_reads : Reads (spaced tagFilter)
    (fun f ts => f.values ≠ [] ∧ FilterForm f ts) (Declines comma) where
  sound := by
    rintro s r ⟨key, values⟩ h
    simp only [spaced, tagFilter, bind_took, blanks_took, commit_took, expecting_took,
      pure_took] at h
    obtain ⟨_, m, hkey, _, _, rfl, _, m', hsign, _, _, rfl, _, _, hvalues, h, rfl⟩ := h
    obtain ⟨rfl, rfl⟩ := TagFilter.mk.inj h
    obtain ⟨ts, hts, name⟩ := name_reads.sound hkey
    have equals := char_sound (by decide) hsign
    obtain ⟨ts', hts', values⟩ := (commas_reads tagValue_reads).sound hvalues
    exact ⟨_, ⟨hts'.ne_nil, .intro hts hts'⟩,
      laid_append.2 ⟨m, name, laid_cons.2 ⟨m', equals, values⟩⟩⟩
  complete := by
    rintro s r ⟨key, values⟩ _ ⟨-, ⟨hts, hts'⟩⟩ laid ends
    obtain ⟨m, laid, rest⟩ := laid_append.1 laid
    obtain ⟨m', equals, rest⟩ := laid_cons.1 rest
    simp only [spaced, tagFilter, bind_took, blanks_took, commit_took, expecting_took,
      pure_took]
    exact ⟨key, m, name_reads.complete hts laid trivial, (), _, rfl, '=', m',
      char_complete (by decide) equals, (), _, rfl, values, r,
      (commas_reads tagValue_reads).complete hts' rest ends, rfl, rfl⟩

/-- Filters are read one by one, unless they could go on with a comma or with the word
`and`. -/
theorem filters_reads : Reads (spaced (separated conjunction tagFilter))
    (fun fs ts => (∀ f ∈ fs, f.values ≠ []) ∧ Listed (Keyword "and") FilterForm fs ts)
    (fun r => Declines comma r ∧ Declines conjunction r) := by
  refine (separated_reads conjunction_separates tagFilter_reads ?_ fun hr => hr).congr
    Listed.and_iff.symm id
  rintro _ _ s r ⟨hl, -⟩ laid
  have follows : Follows ['a'] s :=
    follows_of_keyword laid hl rfl (by decide) (List.mem_singleton_self _)
  exact follows.comma_declines (by decide)

/-! ## Clauses -/

/-- What a clause gives can be written. -/
def GivenFits : Given → Prop
  | .range x => MomentFits x.start ∧ ∀ t ∈ x.stop, MomentFits t
  | .filters fs => fs ≠ [] ∧ ∀ f ∈ fs, f.values ≠ []
  | .groupBy names => names ≠ []

/-- The clause that gives something. -/
def clauseOf : Given → Clause
  | .range _ => .fromTo
  | .filters _ => .whereTags
  | .groupBy _ => .groupBy

/-- The word that opens a clause. -/
def clauseWord : Clause → String
  | .fromTo => "from"
  | .whereTags => "where"
  | .groupBy => "group"

/-- Clauses begin with letters. -/
private theorem clauseWord_firm (k : Clause) : Firm (clauseWord k) := by
  cases k <;> decide

/-- What follows the word that opens a clause. -/
def clauseRest : Clause → Rule Given
  | .fromTo => Given.range <$> fromClause
  | .whereTags => Given.filters <$> whereClause
  | .groupBy => Given.groupBy <$> groupClause

namespace Clauses

/-- What the clauses read so far give. -/
def given (c : Clauses) : List Given :=
  c.span.toList.map .range ++ c.filters.toList.map .filters ++
    c.groupBy.toList.map .groupBy

/-- Whether a clause has not been read yet. -/
def lacks (c : Clauses) : Clause → Bool
  | .fromTo => c.span.isNone
  | .whereTags => c.filters.isNone
  | .groupBy => c.groupBy.isNone

/-- One more clause has been read. -/
def add (c : Clauses) : Given → Clauses
  | .range x => { c with span := some x }
  | .filters fs => { c with filters := some fs }
  | .groupBy names => { c with groupBy := some names }

/-- A clause that is read once more gives one thing more. -/
theorem given_add {c : Clauses} {g : Given} (lacks : c.lacks (clauseOf g) = true) :
    (c.add g).given.Perm (c.given ++ [g]) := by
  cases g with
  | range x =>
    have none : c.span = none := Option.isNone_iff_eq_none.1 lacks
    simp only [given, add, none, Option.toList_some, Option.toList_none, List.map_cons,
      List.map_nil, List.nil_append]
    exact (List.perm_append_singleton _ _).symm
  | filters fs =>
    have none : c.filters = none := Option.isNone_iff_eq_none.1 lacks
    simp only [given, add, none, Option.toList_some, Option.toList_none, List.map_cons,
      List.map_nil, List.nil_append, List.append_assoc]
    exact (List.perm_append_singleton _ _).symm.append_left _
  | groupBy names =>
    have none : c.groupBy = none := Option.isNone_iff_eq_none.1 lacks
    simp [given, add, none]

/-- Each clause gives one thing at most, and only if it has been read. -/
private theorem countP_given (c : Clauses) (k : Clause) :
    c.given.countP (clauseOf · = k) = if c.lacks k then 0 else 1 := by
  obtain ⟨span, filters, groupBy⟩ := c
  cases k <;> cases span <;> cases filters <;> cases groupBy <;> rfl

/-- A clause that is still to be read has not been read yet. -/
private theorem lacks_of_perm {c c' : Clauses} {g : Given} {gs : List Given}
    (perm : c'.given.Perm (c.given ++ g :: gs)) : c.lacks (clauseOf g) = true := by
  have count := perm.countP_eq (clauseOf · = clauseOf g)
  rw [List.countP_append, List.countP_cons_of_pos (by simp), countP_given,
    countP_given] at count
  split at count <;> split at count <;> first | assumption | omega

/-- What the clauses give tells the clauses. -/
theorem eq_of_perm {c c' : Clauses} (perm : c'.given.Perm c.given) : c' = c := by
  have mem (g : Given) := perm.mem_iff (a := g)
  have spans (x : Span) := mem (.range x)
  have lists (fs : List TagFilter) := mem (.filters fs)
  have names (ns : List String) := mem (.groupBy ns)
  simp only [given, List.mem_append, List.mem_map, Option.mem_toList, reduceCtorEq,
    and_false, exists_false, or_false, false_or, Given.range.injEq,
    Given.filters.injEq, Given.groupBy.injEq, exists_eq_right] at spans lists names
  obtain ⟨span, filters, groupBy⟩ := c
  obtain ⟨span', filters', groupBy'⟩ := c'
  exact Clauses.mk.injEq .. ▸ ⟨Option.ext spans, Option.ext lists, Option.ext names⟩

/-- A clause that is read leaves fewer to be read. -/
theorem open_add {c : Clauses} {g : Given} (lacks : c.lacks (clauseOf g) = true) :
    (c.add g).open < c.open := by
  cases g <;> simp_all [Clauses.lacks, Clauses.add, Clauses.open, clauseOf]

end Clauses

/-- The word at the front of a text tells the clause. -/
theorem clauseHead?_eq_some {k : Clause} :
    clauseHead? s = some (k, r) ↔ keyword (clauseWord k) s = .took () r := by
  constructor
  case mp =>
    intro h
    unfold clauseHead? at h
    split at h
    case h_1 m hm =>
      obtain ⟨rfl, rfl⟩ : .fromTo = k ∧ m = r := by simpa using h
      exact hm
    split at h
    case h_1 m hm =>
      obtain ⟨rfl, rfl⟩ : .whereTags = k ∧ m = r := by simpa using h
      exact hm
    split at h
    case h_1 m hm =>
      obtain ⟨rfl, rfl⟩ : .groupBy = k ∧ m = r := by simpa using h
      exact hm
    simp at h
  case mpr =>
    intro h
    cases k with
    | fromTo => rw [clauseHead?, show keyword "from" s = _ from h]
    | whereTags =>
      obtain ⟨_, noFrom⟩ : Declines (keyword "from") s :=
        keyword_excludes h rfl rfl (by decide)
      rw [clauseHead?, noFrom, show keyword "where" s = _ from h]
    | groupBy =>
      obtain ⟨_, noFrom⟩ : Declines (keyword "from") s :=
        keyword_excludes h rfl rfl (by decide)
      obtain ⟨_, noWhere⟩ : Declines (keyword "where") s :=
        keyword_excludes h rfl rfl (by decide)
      rw [clauseHead?, noFrom, noWhere, show keyword "group" s = _ from h]

/-- Without one of the words no clause begins. -/
private theorem clauseHead?_eq_none (h : ∀ k, Declines (keyword (clauseWord k)) s) :
    clauseHead? s = none := by
  cases head : clauseHead? s with
  | none => rfl
  | some p => exact absurd (clauseHead?_eq_some.1 head) (h p.1).not_took

/-- The loop over the clauses, with one case for all of them. -/
theorem clauses_eq (c : Clauses) (s : List Char) :
    clauses c s =
      match clauseHead? (s.dropWhile isBlank) with
      | none => .took c s
      | some (k, m) =>
        if c.lacks k then
          match clauseRest k m with
          | .took g m' => clauses (c.add g) m'
          | .declined e => .declined e
          | .failed e => .failed e
        else .failed ⟨s.dropWhile isBlank, .duplicate k⟩ := by
  rw [clauses]
  cases hhead : clauseHead? (s.dropWhile isBlank) with
  | none => rfl
  | some p =>
    obtain ⟨k, m⟩ := p
    cases k with
    | fromTo =>
      by_cases lacks : c.span.isNone = true
      · simp only [Clauses.lacks, lacks, clauseRest, map_eq, ↓reduceDIte, ↓reduceIte]
        cases fromClause m <;> rfl
      · simp only [Clauses.lacks, lacks, ↓reduceDIte, Bool.false_eq_true, ↓reduceIte]
    | whereTags =>
      by_cases lacks : c.filters.isNone = true
      · simp only [Clauses.lacks, lacks, clauseRest, map_eq, ↓reduceDIte, ↓reduceIte]
        cases whereClause m <;> rfl
      · simp only [Clauses.lacks, lacks, ↓reduceDIte, Bool.false_eq_true, ↓reduceIte]
    | groupBy =>
      by_cases lacks : c.groupBy.isNone = true
      · simp only [Clauses.lacks, lacks, clauseRest, map_eq, ↓reduceDIte, ↓reduceIte]
        cases groupClause m <;> rfl
      · simp only [Clauses.lacks, lacks, ↓reduceDIte, Bool.false_eq_true, ↓reduceIte]

/-- What follows the word of a clause is committed. -/
private theorem clauseRest_not_declines {k : Clause} : ¬ Declines (clauseRest k) s := by
  cases k <;> simp [clauseRest, fromClause, whereClause, groupClause]

/-- What follows the word of a clause gives what the clause gives. -/
theorem clauseOf_rest {k : Clause} {g : Given} (h : clauseRest k s = .took g r) :
    clauseOf g = k := by
  cases k <;> obtain ⟨_, -, rfl⟩ := map_took.1 h <;> rfl

/-- The loop over the clauses never declines. -/
theorem clauses_not_declines {c : Clauses} : ¬ Declines (clauses c) s := by
  induction n : c.open using Nat.strong_induction_on generalizing c s with
  | h n ih =>
    subst n
    rintro ⟨e, h⟩
    rw [clauses_eq] at h
    cases head : clauseHead? (s.dropWhile isBlank) with
    | none => simp [head] at h
    | some p =>
      obtain ⟨k, m⟩ := p
      simp only [head] at h
      split at h
      case isFalse => simp at h
      case isTrue lacks =>
        cases rest : clauseRest k m with
        | took g m' =>
          rw [rest] at h
          have lacks' : c.lacks (clauseOf g) = true := clauseOf_rest rest ▸ lacks
          exact ih _ (Clauses.open_add lacks') rfl ⟨e, h⟩
        | declined e' => exact clauseRest_not_declines ⟨e', rest⟩
        | failed e' => simp [rest] at h

/-- The loop over the clauses takes one clause after the other, and each one only
once. -/
theorem clauses_took {c c' : Clauses} :
    clauses c s = .took c' r ↔
      clauseHead? (s.dropWhile isBlank) = none ∧ c = c' ∧ s = r ∨
      ∃ k m g m', clauseHead? (s.dropWhile isBlank) = some (k, m) ∧ c.lacks k = true ∧
        clauseRest k m = .took g m' ∧ clauses (c.add g) m' = .took c' r := by
  rw [clauses_eq]
  cases hhead : clauseHead? (s.dropWhile isBlank) with
  | none => simp
  | some p =>
    obtain ⟨k, m⟩ := p
    cases lacks : c.lacks k with
    | false => simp [lacks]
    | true =>
      cases hrest : clauseRest k m <;> simp [lacks, hrest, and_assoc]

/-- At least one blank, and those after it. -/
theorem blanks1_took {u : Unit} :
    blanks1 s = .took u r ↔
      s.dropWhile isBlank = r ∧ ∃ c ∈ s.head?, isBlank c = true := by
  simp only [blanks1, bind_took, run1_took, ← span_eq_iff, pure_took]
  constructor
  case mp =>
    rintro ⟨cs, _, ⟨ne, rfl, rfl⟩, -, rfl⟩
    cases s with
    | nil => exact absurd rfl ne
    | cons c s =>
      refine ⟨rfl, c, rfl, ?_⟩
      by_contra h
      simp [h] at ne
  case mpr =>
    rintro ⟨rfl, c, hc, blank⟩
    obtain ⟨s', rfl⟩ := List.head?_eq_some_iff.1 hc
    exact ⟨_, _, ⟨by simp [blank], rfl, rfl⟩, trivial, rfl⟩

/-- What was read after the word `group`. -/
private theorem groupClause_sound {names : List String}
    (h : groupClause s = .took names r) :
    ∃ k ts, Keyword "by" k ∧ Listed IsComma NameForm names ts ∧ Laid (k :: ts) s r := by
  simp only [groupClause, bind_took, commit_took, expecting_took, blanks1_took,
    blanks_took] at h
  obtain ⟨_, m, ⟨_, _, ⟨rfl, -⟩, hby⟩, _, _, rfl, hnames⟩ := h
  obtain ⟨k, hk, first⟩ := keyword_sound (by decide) hby
  obtain ⟨ts, hts, rest⟩ := (commas_reads name_reads).sound hnames
  exact ⟨k, ts, hk, hts, laid_cons.2 ⟨m, first, rest⟩⟩

/-- What is laid out after the word `group` is read.  The word `by` is a word of its
own, so there is a blank before it. -/
theorem groupClause_complete {names : List String} {k : Lexeme} {ts : List Lexeme}
    (hk : Keyword "by" k) (hts : Listed IsComma NameForm names ts)
    (laid : Laid (k :: ts) s r) (apart : ∀ c ∈ s.head?, isWordChar c = false)
    (ends : Declines comma r) :
    groupClause s = .took names r := by
  obtain ⟨m, first, rest⟩ := laid_cons.1 laid
  have blank : ∃ c ∈ s.head?, isBlank c = true := by
    obtain ⟨d, ds, chars, hd⟩ := hk.head (c := 'b') rfl
    have head := laid_head first chars (isBlank_of_toLower (by rw [hd]; decide))
    cases s with
    | nil => simp at head
    | cons c s =>
      refine ⟨c, rfl, ?_⟩
      by_contra h
      obtain rfl : c = d := by simpa [h] using head
      have word := apart c rfl
      rw [← isWordChar_toLower, hd] at word
      exact absurd word (by decide)
  simp only [groupClause, bind_took, commit_took, expecting_took, blanks1_took,
    blanks_took]
  exact ⟨(), m, ⟨(), _, ⟨rfl, blank⟩, keyword_complete (by decide) hk first⟩, (),
    _, rfl, (commas_reads name_reads).complete hts rest ends⟩

/-- A clause that was read is laid out. -/
theorem clause_sound {k : Clause} {g : Given} {m : List Char}
    (head : clauseHead? (s.dropWhile isBlank) = some (k, m))
    (rest : clauseRest k m = .took g r) :
    ∃ ts, (GivenFits g ∧ ClauseForm g ts) ∧ Laid ts s r := by
  obtain ⟨l, hl, first⟩ :=
    keyword_sound (clauseWord_firm k) (clauseHead?_eq_some.1 head)
  cases k with
  | fromTo =>
    obtain ⟨x, hx, rfl⟩ := map_took.1 rest
    obtain ⟨ts, ⟨fits, hts⟩, laid⟩ := span_reads.sound (commit_took.1 hx)
    exact ⟨_, ⟨fits, .range hl hts⟩, laid_cons.2 ⟨m, first, laid⟩⟩
  | whereTags =>
    obtain ⟨fs, hfs, rfl⟩ := map_took.1 rest
    simp only [whereClause, bind_took, blanks_took, commit_took] at hfs
    obtain ⟨_, _, rfl, hfs⟩ := hfs
    obtain ⟨ts, ⟨fits, hts⟩, laid⟩ := filters_reads.sound hfs
    exact ⟨_, ⟨⟨hts.ne_nil, fits⟩, .filters hl hts⟩, laid_cons.2 ⟨m, first, laid⟩⟩
  | groupBy =>
    obtain ⟨names, hnames, rfl⟩ := map_took.1 rest
    obtain ⟨k, ts, hk, hts, laid⟩ := groupClause_sound hnames
    exact ⟨_, ⟨hts.ne_nil, .groupBy hl hk hts⟩, laid_cons.2 ⟨m, first, laid⟩⟩

/-- A clause that is laid out is read, if another clause or the end of the stage
follows. -/
theorem clause_complete {g : Given} {ts : List Lexeme} (fits : GivenFits g)
    (form : ClauseForm g ts) (laid : Laid ts s r)
    (follows : Follows ['f', 'w', 'g', ';'] r) :
    ∃ m, clauseHead? (s.dropWhile isBlank) = some (clauseOf g, m) ∧
      clauseRest (clauseOf g) m = .took g r := by
  cases form with
  | range hk hts =>
    obtain ⟨m, first, rest⟩ := laid_cons.1 laid
    refine ⟨m, clauseHead?_eq_some.2 (keyword_complete (clauseWord_firm _) hk first),
      map_took.2 ⟨_, commit_took.2 ?_, rfl⟩⟩
    exact span_reads.complete ⟨fits,
      hts⟩ rest (follows.keyword_declines rfl (by decide))
  | filters hk hts =>
    obtain ⟨m, first, rest⟩ := laid_cons.1 laid
    refine ⟨m, clauseHead?_eq_some.2 (keyword_complete (clauseWord_firm _) hk first),
      map_took.2 ⟨_, ?_, rfl⟩⟩
    simp only [whereClause, bind_took, blanks_took, commit_took]
    exact ⟨(), _, rfl, filters_reads.complete ⟨fits.2, hts⟩ rest
      ⟨follows.comma_declines (by decide), follows.conjunction_declines (by decide)⟩⟩
  | groupBy hk hk' hts =>
    obtain ⟨m, first, rest⟩ := laid_cons.1 laid
    have apart := ((Lexeme.laid_iff (hk.solid (by decide))).1 first).2
    obtain ⟨same⟩ := hk
    refine ⟨m,
      clauseHead?_eq_some.2 (keyword_complete (clauseWord_firm _) (.intro same) first),
      map_took.2 ⟨_, ?_, rfl⟩⟩
    exact groupClause_complete hk' hts rest apart (follows.comma_declines (by decide))

/-- A clause begins with the first letter of its word. -/
private theorem clause_follows {g : Given} {ts : List Lexeme} (form : ClauseForm g ts)
    (laid : Laid ts s r) : Follows ['f', 'w', 'g', ';'] s := by
  cases form with
  | range hk => exact follows_of_keyword laid hk rfl (by decide) (by decide)
  | filters hk => exact follows_of_keyword laid hk rfl (by decide) (by decide)
  | groupBy hk => exact follows_of_keyword laid hk rfl (by decide) (by decide)

/-- The clauses that were read are laid out, in the order in which they add up. -/
theorem clauses_sound {c c' : Clauses} (h : clauses c s = .took c' r) :
    ∃ order ts, c'.given.Perm (c.given ++ order) ∧ (∀ g ∈ order, GivenFits g) ∧
      Each ClauseForm order ts ∧ Laid ts s r := by
  induction n : c.open using Nat.strong_induction_on generalizing c s with
  | h n ih =>
    subst n
    rcases clauses_took.1 h with ⟨-, rfl, rfl⟩ | ⟨k, m, g, m', head, lacks, rest, more⟩
    · exact ⟨[], [], by simp, by simp, .nil, .nil s⟩
    · obtain rfl := clauseOf_rest rest
      obtain ⟨ts, ⟨fits, hts⟩, first⟩ := clause_sound head rest
      obtain ⟨order, ts', perm, all, forms, laid⟩ :=
        ih _ (Clauses.open_add lacks) more rfl
      refine ⟨g :: order, ts ++ ts', ?_, by simpa using ⟨fits, all⟩, .cons hts forms,
        laid_append.2 ⟨m', first, laid⟩⟩
      simpa using perm.trans ((Clauses.given_add lacks).append_right order)

/-- Clauses that are laid out are read in any order, if each is there only once. -/
theorem clauses_complete {c c' : Clauses} {order : List Given} {ts : List Lexeme}
    (forms : Each ClauseForm order ts) (fits : ∀ g ∈ order, GivenFits g)
    (laid : Laid ts s r) (perm : c'.given.Perm (c.given ++ order))
    (follows : Follows [';'] r) :
    clauses c s = .took c' r := by
  induction forms generalizing c s with
  | nil =>
    obtain rfl := laid_nil.1 laid
    obtain rfl : c' = c := Clauses.eq_of_perm (by simpa using perm)
    refine clauses_took.2 (.inl ⟨clauseHead?_eq_none fun k => ?_, rfl, rfl⟩)
    cases k <;> exact follows.keyword_declines rfl (by decide)
  | cons form forms ih =>
    obtain ⟨m, first, rest⟩ := laid_append.1 laid
    have next : Follows ['f', 'w', 'g', ';'] m :=
      inner_of_each forms rest clause_follows (follows.mono (by decide))
    obtain ⟨m', head, read⟩ := clause_complete (fits _ (by simp)) form first next
    have lacks := Clauses.lacks_of_perm perm
    refine clauses_took.2 (.inr ⟨_, m', _, m, head, lacks, read, ?_⟩)
    refine ih (fun g hg => fits g (by simp [hg])) rest (perm.trans ?_)
    simpa using ((Clauses.given_add lacks).symm.append_right _)

/-! ## Select stages -/

/-- After the word `select` nothing else can be meant. -/
theorem select_declines_iff : Declines select s ↔ Declines (keyword "select") s := by
  simp [select, clauses_not_declines]

/-- The clauses that a select stage is written with. -/
def clausesOf (x : Select) : Clauses where
  span := x.span
  filters := if x.filters = [] then none else some x.filters
  groupBy := if x.groupBy = [] then none else some x.groupBy

/-- They give what is to be given. -/
private theorem given_clausesOf (x : Select) : (clausesOf x).given = given x := by
  simp only [Clauses.given, clausesOf, given]
  split <;> split <;> rfl

/-- A select stage can be written if all that its clauses give can be. -/
theorem wellFormedSelect_iff {x : Select} : WellFormedSelect x ↔
    ∀ g ∈ given x, GivenFits g := by
  constructor
  case mp =>
    intro h g hg
    simp only [given, List.mem_append, List.mem_map, Option.mem_toList] at hg
    rcases hg with (⟨a, ha, rfl⟩ | hg) | hg
    · exact ⟨h.start a ha, h.stop a ha⟩
    · split at hg
      case isTrue => simp at hg
      case isFalse some =>
        obtain rfl := List.mem_singleton.1 hg
        exact ⟨some, h.values⟩
    · split at hg
      case isTrue => simp at hg
      case isFalse some =>
        obtain rfl := List.mem_singleton.1 hg
        exact some
  case mpr =>
    intro h
    have range (a : Span) (ha : a ∈ x.span) : GivenFits (.range a) :=
      h _ (by simpa [given] using ha)
    refine ⟨fun a ha => (range a ha).1, fun a ha => (range a ha).2, fun f hf => ?_⟩
    have filters : GivenFits (.filters x.filters) :=
      h _ (by simp [given, List.ne_nil_of_mem hf])
    exact filters.2 f hf

/-- Clauses that can be written are those of the select stage that they make up. -/
theorem clausesOf_select {metric : String} {c : Clauses}
    (fits : ∀ g ∈ c.given, GivenFits g) :
    clausesOf ⟨metric, c.span, c.filters.getD [], c.groupBy.getD []⟩ = c := by
  obtain ⟨span, filters, groupBy⟩ := c
  simp only [clausesOf, Clauses.mk.injEq, true_and]
  constructor
  · cases filters with
    | none => rfl
    | some fs =>
      have some : GivenFits (.filters fs) := fits _ (by simp [Clauses.given])
      simp [some.1]
  · cases groupBy with
    | none => rfl
    | some names =>
      have some : GivenFits (.groupBy names) := fits _ (by simp [Clauses.given])
      simp [show names ≠ [] from some]

/-- A select stage is read, with its clauses in any order. -/
theorem select_reads :
    Reads (spaced select) (fun x ts => WellFormedSelect x ∧ SelectForm x ts)
    (Follows [';']) where
  sound := by
    rintro s r x h
    simp only [spaced, select, bind_took, blanks_took, commit_took, expecting_took,
      pure_took] at h
    obtain ⟨_, m, hselect, _, _, rfl, metric, m', hmetric, c, _, hclauses, rfl, rfl⟩ :=
      h
    obtain ⟨k, hk, first⟩ := keyword_sound (by decide) hselect
    obtain ⟨ts, hts, second⟩ := name_reads.sound hmetric
    obtain ⟨order, ts', perm, fits, forms, laid⟩ := clauses_sound hclauses
    replace perm : c.given.Perm order := perm
    have fits' : ∀ g ∈ c.given, GivenFits g := fun g hg => fits g (perm.mem_iff.1 hg)
    have same := given_clausesOf ⟨metric, c.span, c.filters.getD [], c.groupBy.getD []⟩
    rw [clausesOf_select fits'] at same
    exact ⟨_,
      ⟨wellFormedSelect_iff.2 (same ▸ fits'), .intro hk hts (same ▸ perm.symm) forms⟩,
      laid_cons.2 ⟨m, first, laid_append.2 ⟨m', second, laid⟩⟩⟩
  complete := by
    rintro s r x _ ⟨wellFormed, ⟨hk, hts, perm, forms⟩⟩ laid follows
    obtain ⟨m, first, rest⟩ := laid_cons.1 laid
    obtain ⟨m', second, rest⟩ := laid_append.1 rest
    have fits := wellFormedSelect_iff.1 wellFormed
    have read : clauses {} m' = .took (clausesOf x) r :=
      clauses_complete forms (fun g hg => fits g (perm.mem_iff.1 hg)) rest
        (given_clausesOf x ▸ perm.symm) follows
    simp only [spaced, select, bind_took, blanks_took, commit_took, expecting_took,
      pure_took]
    refine ⟨(), m, keyword_complete (by decide) hk first, (), _, rfl, x.metric, m',
      name_reads.complete hts second trivial, clausesOf x, r, read, ?_, rfl⟩
    obtain ⟨metric, span, filters, groupBy⟩ := x
    simp only [clausesOf, Select.mk.injEq, true_and]
    constructor
    · split <;> simp_all
    · split <;> simp_all

end SeriesQuery.Reading
