import SeriesQuery.Proofs.Statement.Selects

/-!
# Reading aggregations

The rules for sources, arguments and their values read their forms, and with them the
rule for an aggregation.  Where alternatives begin alike, the word at that place
decides: the first argument may not be called `of`, and a value is a plain word only if
it spells no truth value.

## Main results

* `sources_reads`: sources, single or in parentheses.
* `argValue_reads`, `argument_reads`: arguments and their values.
* `arguments_sound`, `arguments_complete`: the arguments with or without sources before
  them.
* `aggregation_sound`, `aggregation_complete`: aggregations.
-/

namespace SeriesQuery.Reading

open SeriesQuery.Text (isBlank)
open SeriesQuery.Rendering
open Rule

variable {s r : List Char}

/-! ## Words at a place -/

/-- A word that is laid out stands where the blanks end. -/
theorem word_stands {w : String} {ls : List Lexeme} (hw : IsWord w)
    (laid : Laid (plain w.toList :: ls) s r) :
    ∃ m, (plain w.toList).At (s.dropWhile isBlank) m := by
  obtain ⟨m, laid, -⟩ := laid_cons.1 laid
  exact ⟨m, (Lexeme.laid_iff hw.solid).1 laid⟩

/-- A word that is laid out begins with a letter or an underscore. -/
theorem word_head {w : String} {ls : List Lexeme} (hw : IsWord w)
    (laid : Laid (plain w.toList :: ls) s r) :
    ∃ c ∈ (s.dropWhile isBlank).head?, isWordStart c = true := by
  obtain ⟨c, cs, chars, hc, -⟩ := hw
  exact ⟨c, laid_head laid chars (isBlank_eq_false hc (by decide)), hc⟩

/-- A keyword that is laid out begins with a letter. -/
private theorem keyword_head {w : String} {c : Char} {k : Lexeme} {ls : List Lexeme}
    (hk : Keyword w k) (hw : w.toList.head? = some c) (hc : isWordStart c = true)
    (laid : Laid (k :: ls) s r) :
    ∃ d ∈ (s.dropWhile isBlank).head?, isWordStart d = true := by
  obtain ⟨d, ds, chars, rfl⟩ := hk.head hw
  rw [isWordStart_toLower] at hc
  exact ⟨d, laid_head laid chars (isBlank_eq_false hc (by decide)), hc⟩

/-! ## Sources -/

/-- Sources are names of stages. -/
def SourcesFit (ws : List String) : Prop := ws ≠ [] ∧ ∀ w ∈ ws, IsWord w

/-- A list of words with commas is read, unless it could go on with a comma. -/
private theorem words_reads : Reads (spaced (separated comma word))
    (fun ws ts => (∀ w ∈ ws, IsWord w) ∧ Listed IsComma WordForm ws ts)
    (Declines comma) :=
  (commas_reads word_reads).congr Listed.and_iff.symm id

/-- Sources are read after the word `of`, single or in parentheses. -/
theorem sources_reads : Reads (spaced sources)
    (fun ws ts => SourcesFit ws ∧ SourcesForm (some ws) ts) anything where
  sound := by
    intro s r ws h
    simp only [spaced, sources, bind_took, blanks_took, commit_took, expecting_took,
      orElse_took] at h
    obtain ⟨_, m, hof, _, _, rfl, h⟩ := h
    obtain ⟨k, hk, first⟩ := keyword_sound (by decide) hof
    rcases h with h | ⟨-, h⟩
    · simp only [sourceList, bind_took, blanks_took, pure_took] at h
      obtain ⟨_, m', hopen, _, _, rfl, _, m'', hlist, _, _, rfl, _, _, hclose,
          rfl, rfl⟩ := h
      obtain ⟨ts, ⟨fits, hts⟩, list⟩ := words_reads.sound hlist
      exact ⟨_, ⟨⟨hts.ne_nil, fits⟩, .listed hk hts⟩, laid_cons.2 ⟨m, first,
        laid_cons.2 ⟨m', char_sound (by decide) hopen,
          laid_append.2 ⟨m'', list, char_sound (by decide) hclose⟩⟩⟩⟩
    · simp only [sourceName, bind_took, pure_took] at h
      obtain ⟨w, _, hw, rfl, rfl⟩ := h
      obtain ⟨ts, ⟨fits, hts⟩, single⟩ := word_reads.sound hw
      exact ⟨_, ⟨⟨by simp, by simpa using fits⟩, .single hk hts⟩,
        laid_cons.2 ⟨m, first, single⟩⟩
  complete := by
    rintro s r ws _ ⟨⟨-, fits⟩, form⟩ laid -
    simp only [spaced, sources, bind_took, blanks_took, commit_took, expecting_took,
      orElse_took]
    cases form with
    | single hk hw =>
      obtain ⟨m, first, single⟩ := laid_cons.1 laid
      refine ⟨(), m, keyword_complete (by decide) hk first, (), _, rfl, .inr ⟨?_, ?_⟩⟩
      · obtain ⟨⟩ := hw
        obtain ⟨c, head, hc⟩ := word_head (fits _ (by simp)) single
        refine bind_declines.2 (.inl (char_declines.2 fun hopen => ?_))
        obtain rfl := Option.mem_unique head hopen
        exact absurd hc (by decide)
      · simp only [sourceName, bind_took, pure_took]
        exact ⟨_, r,
          word_reads.complete ⟨fits _ (by simp), hw⟩ single trivial, rfl, rfl⟩
    | listed hk hts =>
      obtain ⟨m, first, rest⟩ := laid_cons.1 laid
      obtain ⟨m', opening, rest⟩ := laid_cons.1 rest
      obtain ⟨m'', list, closing⟩ := laid_append.1 rest
      have follows : Follows [')'] m'' :=
        follows_of_sign closing (by decide) (by decide)
      refine ⟨(), m, keyword_complete (by decide) hk first, (), _, rfl, .inl ?_⟩
      simp only [sourceList, bind_took, blanks_took, pure_took]
      exact ⟨_, m', char_complete (by decide) opening, (), _, rfl, ws, m'',
        words_reads.complete ⟨fits, hts⟩ list (follows.comma_declines (by decide)), (),
        _, rfl, _, r, char_complete (by decide) closing, rfl, rfl⟩

/-- After the word `of` nothing else can be meant. -/
private theorem sources_declines_iff : Declines sources s ↔
    Declines (keyword "of") s := by
  simp [sources]

/-! ## Arguments -/

/-- A value that can be written: a plain word spells no truth value. -/
def ValueFits (v : ArgValue) : Prop :=
  ∀ w, v = .word w → IsWord w ∧ ¬ SameLetters w.toList "true" ∧
    ¬ SameLetters w.toList "false"

/-- An argument that can be written. -/
def ArgumentFits (a : Argument) : Prop := IsWord a.key ∧ ValueFits a.value

/-- What begins with neither a minus sign nor a digit is no number. -/
private theorem number_declines (h : ∀ c ∈ s.head?, c ≠ '-' ∧ c.isDigit = false) :
    Declines number s := by
  have noSign : Rule.optional (char '-') s = .took none s :=
    optional_took.2 (.inr ⟨char_declines.2 fun hc => (h _ hc).1 rfl, rfl, rfl⟩)
  refine Declines.convert?
    (taken_declines.2 (bind_declines.2 (.inr ⟨none, s, noSign, ?_⟩)))
  exact bind_declines.2 (.inl (run1_declines.2 fun c hc => (h c hc).2))

/-- What begins a word begins neither a number nor a quoted text. -/
theorem number_quoted_decline {c : Char} (head : c ∈ s.head?)
    (hc : isWordStart c = true) :
    Declines (ArgValue.number <$> number) s ∧
      Declines (ArgValue.text <$> quotedString) s := by
  have only {d : Char} (hd : d ∈ s.head?) : isWordStart d = true :=
    Option.mem_unique head hd ▸ hc
  refine ⟨map_declines.2 (number_declines fun d hd => ⟨?_, ?_⟩),
    map_declines.2
    (quotedString_declines fun d hd => isBareChar_of_isWordStart (only hd))⟩
  · rintro rfl
    exact absurd (only hd) (by decide)
  · rw [Bool.eq_false_iff]
    intro digit
    have start := only hd
    rw [isWordStart, isAlpha_of_isDigit digit, Bool.false_or, beq_iff_eq] at start
    subst start
    exact absurd digit (by decide)

/-- A value is read in each of its forms. -/
theorem argValue_reads :
    Reads (spaced argValue) (fun v ts => ValueFits v ∧ ValueForm v ts) EndsNumber where
  sound := by
    intro s r v h
    simp only [spaced, argValue, orElse_took, map_took] at h
    rcases h with ⟨x, h, rfl⟩ |
      ⟨-, ⟨t, h, rfl⟩ | ⟨-, h | ⟨noTrue, h | ⟨noFalse, w, h, rfl⟩⟩⟩⟩
    · obtain ⟨_, ⟨l, hl, rfl⟩, laid⟩ := number_reads.sound h
      exact ⟨_, ⟨by rintro _ ⟨⟩, .number hl⟩, laid⟩
    · obtain ⟨_, ⟨l, hl, rfl⟩, laid⟩ := quotedString_reads.sound h
      exact ⟨_, ⟨by rintro _ ⟨⟩, .text hl⟩, laid⟩
    · simp only [trueValue, bind_took, pure_took] at h
      obtain ⟨_, _, h, rfl, rfl⟩ := h
      obtain ⟨k, hk, laid⟩ := keyword_sound (by decide) h
      exact ⟨_, ⟨by rintro _ ⟨⟩, .yes hk⟩, laid⟩
    · simp only [falseValue, bind_took, pure_took] at h
      obtain ⟨_, _, h, rfl, rfl⟩ := h
      obtain ⟨k, hk, laid⟩ := keyword_sound (by decide) h
      exact ⟨_, ⟨by rintro _ ⟨⟩, .no hk⟩, laid⟩
    · simp only [trueValue, bind_declines, pure_declines, and_false, exists_false,
        or_false, falseValue] at noTrue noFalse
      obtain ⟨hw, stands⟩ := word_took.1 h
      obtain ⟨ts, ⟨-, hts⟩, laid⟩ := word_reads.sound h
      refine ⟨ts, ⟨?_, .word hts⟩, laid⟩
      rintro _ ⟨⟩
      exact ⟨hw, fun same => noTrue.not_took (keyword_of_word same stands),
        fun same => noFalse.not_took (keyword_of_word same stands)⟩
  complete := by
    rintro s r v ts ⟨fits, form⟩ laid ends
    simp only [spaced, argValue, orElse_took, map_took]
    cases form with
    | number hl => exact .inl ⟨_, number_reads.complete ⟨_, hl, rfl⟩ laid ends, rfl⟩
    | text hl =>
      obtain ⟨q, cs, chars, quote⟩ := quoted_head hl
      have head := laid_head laid chars (by rcases quote with rfl | rfl <;> decide)
      refine .inr ⟨map_declines.2 (number_declines ?_),
        .inl ⟨_, quotedString_reads.complete ⟨_, hl, rfl⟩ laid trivial, rfl⟩⟩
      rw [head]
      rintro _ ⟨⟩
      rcases quote with rfl | rfl <;> decide
    | yes hk =>
      obtain ⟨d, head, hd⟩ := keyword_head (c := 't') hk rfl (by decide) laid
      obtain ⟨noNumber, noText⟩ := number_quoted_decline head hd
      refine .inr ⟨noNumber, .inr ⟨noText, .inl ?_⟩⟩
      simp only [trueValue, bind_took, pure_took]
      exact ⟨(), r, keyword_complete (by decide) hk laid, trivial, rfl⟩
    | no hk =>
      obtain ⟨d, head, hd⟩ := keyword_head (c := 'f') hk rfl (by decide) laid
      obtain ⟨noNumber, noText⟩ := number_quoted_decline head hd
      have read := keyword_complete (by decide) hk laid
      have noTrue : Declines trueValue (s.dropWhile isBlank) :=
        bind_declines.2 (.inl (keyword_excludes read rfl rfl (by decide)))
      refine .inr ⟨noNumber, .inr ⟨noText, .inr ⟨noTrue, .inl ?_⟩⟩⟩
      simp only [falseValue, bind_took, pure_took]
      exact ⟨(), r, read, trivial, rfl⟩
    | word hw =>
      obtain ⟨isWord, notTrue, notFalse⟩ := fits _ rfl
      have read := word_reads.complete ⟨isWord, hw⟩ laid trivial
      obtain ⟨⟩ := hw
      obtain ⟨d, head, hd⟩ := word_head isWord laid
      obtain ⟨m, stands⟩ := word_stands isWord laid
      obtain ⟨noNumber, noText⟩ := number_quoted_decline head hd
      have noTrue : Declines trueValue (s.dropWhile isBlank) :=
        bind_declines.2
          (.inl (keyword_declines_of_word isWord stands (by decide) notTrue))
      have noFalse : Declines falseValue (s.dropWhile isBlank) :=
        bind_declines.2
          (.inl (keyword_declines_of_word isWord stands (by decide) notFalse))
      exact .inr ⟨noNumber, .inr ⟨noText, .inr ⟨noTrue, .inr ⟨noFalse, _, read, rfl⟩⟩⟩⟩

/-- An argument is read, unless its value could go on. -/
theorem argument_reads :
    Reads (spaced argument) (fun a ts => ArgumentFits a ∧ ArgumentForm a ts)
    EndsNumber where
  sound := by
    rintro s r ⟨key, value⟩ h
    simp only [spaced, argument, bind_took, blanks_took, commit_took, expecting_took,
      pure_took] at h
    obtain ⟨_, m, hkey, _, _, rfl, _, m', hsign, _, _, rfl, _, _, hvalue, h, rfl⟩ := h
    obtain ⟨rfl, rfl⟩ := Argument.mk.inj h
    obtain ⟨ts, ⟨isWord, hts⟩, first⟩ := word_reads.sound hkey
    obtain ⟨ts', ⟨fits, hts'⟩, second⟩ := argValue_reads.sound hvalue
    exact ⟨_, ⟨⟨isWord, fits⟩, .intro hts hts'⟩,
      laid_append.2 ⟨m, first, laid_cons.2 ⟨m', char_sound (by decide) hsign, second⟩⟩⟩
  complete := by
    rintro s r ⟨key, value⟩ _ ⟨⟨isWord, fits⟩, ⟨hts, hts'⟩⟩ laid ends
    obtain ⟨m, first, rest⟩ := laid_append.1 laid
    obtain ⟨m', equals, second⟩ := laid_cons.1 rest
    simp only [spaced, argument, bind_took, blanks_took, commit_took, expecting_took,
      pure_took]
    exact ⟨key, m, word_reads.complete ⟨isWord, hts⟩ first trivial, (), _, rfl, '=', m',
      char_complete (by decide) equals, (), _, rfl, value, r,
      argValue_reads.complete ⟨fits, hts'⟩ second ends, rfl, rfl⟩

/-- A comma or a closing parenthesis does not go on with a number. -/
private theorem Follows.endsNumber (h : Follows [',', ')'] r) : EndsNumber r := by
  intro c hc
  rcases isBlank_or_head hc with blank | hc
  · refine ⟨?_, ?_, ?_⟩ <;> rintro rfl <;> exact absurd blank (by decide)
  · have mem := h c hc
    refine ⟨?_, ?_, ?_⟩ <;> rintro rfl <;> exact absurd mem (by decide)

/-- No word begins where something else follows. -/
private theorem Follows.word_declines {first : List Char} (h : Follows first r)
    (none : first.any isWordStart = false) : Declines word (r.dropWhile isBlank) := by
  refine Reading.word_declines fun c hc => ?_
  rw [← isWordStart_toLower, Bool.eq_false_iff]
  exact List.any_eq_false.1 none _ (h c hc)

/-- An argument after a comma begins with that comma. -/
private theorem after_comma_follows {form : Argument → List Lexeme → Prop}
    {a : Argument} {ts : List Lexeme} (h : After IsComma form a ts)
    (laid : Laid ts s r) :
    EndsNumber s := by
  obtain ⟨rfl, -⟩ := h
  exact Follows.endsNumber (follows_of_sign laid (by decide) (by decide))

/-- An argument after a comma is read. -/
theorem nextArgument_reads : Reads nextArgument
    (After IsComma fun a ts => ArgumentFits a ∧ ArgumentForm a ts) EndsNumber where
  sound := by
    intro s r a h
    simp only [nextArgument, bind_took, commit_took, expecting_took] at h
    obtain ⟨_, _, hcomma, h⟩ := h
    obtain ⟨l, m, hl, first, rfl⟩ := comma_separates.took.1 hcomma
    obtain ⟨ts, hts, rest⟩ := argument_reads.sound h
    exact ⟨_, .intro hl hts, laid_cons.2 ⟨m, first, rest⟩⟩
  complete := by
    rintro s r a _ ⟨hl, hts⟩ laid ends
    obtain ⟨m, first, rest⟩ := laid_cons.1 laid
    simp only [nextArgument, bind_took, commit_took, expecting_took]
    exact ⟨(), _, comma_separates.took.2 ⟨_, m, hl, first, rfl⟩,
      argument_reads.complete hts rest ends⟩

/-- Arguments after sources each follow a comma. -/
private theorem arguments_after_reads : Reads (arguments true)
    (fun as ts => (∀ a ∈ as, ArgumentFits a) ∧ Each (After IsComma ArgumentForm) as ts)
    (Follows [')']) := by
  refine (many_reads nextArgument_reads ?_ after_comma_follows fun hr => ⟨?_, ?_⟩).congr
    each_after_and_iff.symm id
  · rintro a _ s r ⟨rfl, -⟩ laid
    exact (laid.length_lt (sign_solid (by decide))).trans_le
      (List.length_dropWhile_le isBlank s)
  · exact Follows.endsNumber (hr.mono (by decide))
  · exact bind_declines.2 (.inl (hr.comma_declines (by decide)))

/-- Arguments without sources are a list. -/
private theorem arguments_listed_reads : Reads (spaced (separated comma argument))
    (fun as ts => (∀ a ∈ as, ArgumentFits a) ∧ Listed IsComma ArgumentForm as ts)
    (Follows [')']) := by
  refine (separated_reads comma_separates argument_reads after_comma_follows fun hr =>
    ⟨?_, ?_⟩).congr Listed.and_iff.symm id
  · exact Follows.endsNumber (hr.mono (by decide))
  · exact hr.comma_declines (by decide)

/-- The first argument of a list stands where the list begins. -/
private theorem first_stands {as : List Argument} {ts : List Lexeme}
    (fits : ∀ a ∈ as, ArgumentFits a) (form : Listed IsComma ArgumentForm as ts)
    (laid : Laid ts s r) :
    ∀ x ∈ as.head?, ∃ m, (plain x.key.toList).At (s.dropWhile isBlank) m := by
  obtain ⟨⟨⟨⟩, _⟩, _⟩ := form
  rintro _ ⟨⟩
  rw [List.append_assoc] at laid
  exact word_stands (fits _ (by simp)).1 laid

/-! ## Aggregations -/

/-- What stands between the parentheses of an aggregation. -/
structure Inside (sources : Option (List String)) (as : List Argument)
    (ts : List Lexeme) :
    Prop where
  sourcesFit : ∀ ws ∈ sources, SourcesFit ws
  argumentsFit : ∀ a ∈ as, ArgumentFits a
  noSources : sources = none → ∀ x ∈ as.head?, ¬ SameLetters x.key.toList "of"
  form : ∃ ts₁ ts₂, SourcesForm sources ts₁ ∧ ArgumentsForm sources.isSome as ts₂ ∧
    ts = ts₁ ++ ts₂

/-- What was read between the parentheses is laid out, and the closing one after it. -/
theorem inside_sound {o : Option (List String)} {as : List Argument} {c : Char}
    {m m' : List Char}
    (hsources : Rule.optional sources (s.dropWhile isBlank) = .took o m)
    (has : arguments o.isSome m = .took as m')
    (hclose : char ')' (m'.dropWhile isBlank) = .took c r) :
    ∃ ts, Inside o as ts ∧ Laid (ts ++ [sign ')']) s r := by
  have closing := char_sound (by decide) hclose
  rcases optional_took.1 hsources with ⟨ws, hws, rfl⟩ | ⟨noSources, rfl, rfl⟩
  · obtain ⟨ts, ⟨fits, hts⟩, first⟩ := sources_reads.sound hws
    obtain ⟨ts', ⟨fits', hts'⟩, second⟩ := arguments_after_reads.sound has
    exact ⟨_,
      ⟨by simpa using fits, fits', by rintro ⟨⟩, ts, ts', hts, .after hts', rfl⟩,
      laid_append.2 ⟨m', laid_append.2 ⟨m, first, second⟩, closing⟩⟩
  · rw [sources_declines_iff] at noSources
    rcases separated?_took.1 has with h | ⟨-, rfl, rfl⟩
    · obtain ⟨ts, ⟨fits, hts⟩, laid⟩ := arguments_listed_reads.sound h
      refine ⟨ts,
        ⟨by rintro _ ⟨⟩, fits, fun _ x hx same => ?_, [], ts, .none, .listed hts, rfl⟩,
        laid_append.2 ⟨m', laid, closing⟩⟩
      obtain ⟨_, stands⟩ := first_stands fits hts laid x hx
      exact noSources.not_took (keyword_of_word same stands)
    · rw [← (gap_dropWhile s).dropWhile_eq] at hclose
      exact ⟨[], ⟨by rintro _ ⟨⟩, by simp, by simp, [], [], .none, .none, rfl⟩,
        char_sound (by decide) hclose⟩

/-- What is laid out between the parentheses is read, and the closing one after it. -/
theorem inside_complete {o : Option (List String)} {as : List Argument}
    {ts : List Lexeme} (inside : Inside o as ts) (laid : Laid (ts ++ [sign ')']) s r) :
    ∃ m m', Rule.optional sources (s.dropWhile isBlank) = .took o m ∧
      arguments o.isSome m = .took as m' ∧
      char ')' (m'.dropWhile isBlank) = .took ')' r := by
  obtain ⟨ts₁, ts₂, hsources, has, rfl⟩ := inside.form
  obtain ⟨m', laid, closing⟩ := laid_append.1 laid
  obtain ⟨m, first, second⟩ := laid_append.1 laid
  have follows : Follows [')'] m' := follows_of_sign closing (by decide) (by decide)
  cases o with
  | some ws =>
    obtain ⟨has⟩ := has
    exact ⟨m, m', optional_took.2 (.inl ⟨ws, sources_reads.complete
      ⟨inside.sourcesFit ws rfl, hsources⟩ first trivial, rfl⟩),
      arguments_after_reads.complete ⟨inside.argumentsFit, has⟩ second follows,
      char_complete (by decide) closing⟩
  | none =>
    obtain ⟨⟩ := hsources
    obtain rfl := laid_nil.1 first
    cases has with
    | none =>
      obtain rfl := laid_nil.1 second
      have noSources : Declines sources (s.dropWhile isBlank) :=
        sources_declines_iff.2 (follows.keyword_declines rfl (by decide))
      have noArgument : Declines argument (s.dropWhile isBlank) :=
        bind_declines.2 (.inl (follows.word_declines (by decide)))
      refine ⟨_, _, optional_took.2 (.inr ⟨noSources, rfl, rfl⟩),
        separated?_took.2 (.inr ⟨noArgument, rfl, rfl⟩), ?_⟩
      rw [← (gap_dropWhile s).dropWhile_eq]
      exact char_complete (by decide) closing
    | listed hts =>
      have noSources : Declines sources (s.dropWhile isBlank) := by
        obtain ⟨x, xs, rfl⟩ := List.exists_cons_of_ne_nil hts.ne_nil
        obtain ⟨_, stands⟩ := first_stands inside.argumentsFit hts second x rfl
        refine sources_declines_iff.2 (keyword_declines_of_word
          (inside.argumentsFit x (by simp)).1 stands (by decide)
          (inside.noSources rfl x rfl))
      exact ⟨_, m', optional_took.2 (.inr ⟨noSources, rfl, rfl⟩), separated?_took.2
        (.inl
          (arguments_listed_reads.complete ⟨inside.argumentsFit, hts⟩ second follows)),
        char_complete (by decide) closing⟩

/-- An aggregation that was read is laid out. -/
theorem aggregation_sound {a : Aggregation}
    (h : aggregation (s.dropWhile isBlank) = .took a r)
    (noSelect : Declines select (s.dropWhile isBlank)) :
    ∃ ts, (WellFormedAggregation a ∧ AggregationForm a ts) ∧ Laid ts s r := by
  simp only [aggregation, bind_took, blanks_took, commit_took, expecting_took,
    pure_took] at h
  obtain ⟨w, m, hw, _, _, rfl, _, m', hopen, _, _, rfl, o, m'', hsources, as, m₃,
      has, _, _, rfl, _, _, hclose, rfl, rfl⟩ := h
  obtain ⟨isWord, stands⟩ := word_took.1 hw
  obtain ⟨ts, inside, rest⟩ := inside_sound hsources has hclose
  obtain ⟨ts₁, ts₂, hsources, has, rfl⟩ := inside.form
  have lowered : SameLetters w.toList (Text.lower w) := isWord.lower.symm
  refine ⟨_, ⟨⟨isWord.map_toLower isWord.lower, ?_, ?_, inside.sourcesFit,
    fun x hx => (inside.argumentsFit x hx).1, fun x hx => (inside.argumentsFit x hx).2,
    inside.noSources⟩, .intro lowered hsources has⟩,
    laid_cons.2 ⟨m, (Lexeme.laid_iff isWord.solid).2 stands,
      laid_cons.2 ⟨m', char_sound (by decide) hopen, rest⟩⟩⟩
  · rw [SameLetters, isWord.lower, List.map_map]
    exact List.map_congr_left fun c _ => toLower_toLower c
  · intro named
    rw [select_declines_iff] at noSelect
    exact noSelect.not_took (keyword_of_word (named ▸ lowered) stands)

/-- An aggregation that is laid out is read. -/
theorem aggregation_complete {a : Aggregation} {ts : List Lexeme}
    (fits : WellFormedAggregation a) (form : AggregationForm a ts)
    (laid : Laid ts s r) :
    aggregation (s.dropWhile isBlank) = .took a r := by
  obtain ⟨same, hsources, has⟩ := form
  rename_i cs ts₁ ts₂
  obtain ⟨m, first, rest⟩ := laid_cons.1 laid
  obtain ⟨m', opening, rest⟩ := laid_cons.1 rest
  have isWord := fits.name.of_sameLetters same
  have inside : Inside a.sources a.arguments (ts₁ ++ ts₂) :=
    ⟨fits.sources, fun x hx => ⟨fits.keys x hx, fits.words x hx⟩, fits.noSources,
      ts₁, ts₂, hsources, has, rfl⟩
  obtain ⟨m₁, m₂, readSources, readArguments, readClose⟩ := inside_complete inside rest
  have read : word (s.dropWhile isBlank) = .took (String.ofList cs) m :=
    word_reads.complete ⟨isWord, .intro _⟩ (by simpa using first) trivial
  have name : Text.lower (String.ofList cs) = a.name := by
    refine String.toList_injective ?_
    rw [isWord.lower, String.toList_ofList]
    exact same
  simp only [aggregation, bind_took, blanks_took, commit_took, expecting_took,
    pure_took]
  exact ⟨_, m, read, (), _, rfl, '(', m', char_complete (by decide) opening, (), _, rfl,
    a.sources, m₁, readSources, a.arguments, m₂, readArguments, (), _, rfl,
    ')', r, readClose, by rw [name], rfl⟩

end SeriesQuery.Reading
