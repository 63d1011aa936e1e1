import SeriesQuery.Proofs.Statement.Lexemes

/-!
# Reading numbers

The rules for the parts of a relative time and for the numbers of arguments take exactly
the characters of their forms.

## Main results

* `amount_reads`, `unit_reads`: the amount and the unit of a relative time.
* `read?_numeral`: a numeral as written is read as the number that it denotes.
* `number_reads`: a number with its fraction and its exponent.
-/

namespace SeriesQuery.Reading

open SeriesQuery.Rendering
open Rule

variable {s r : List Char}

/-! ## Relative times -/

/-- No digit is a letter. -/
theorem isAlpha_of_isDigit {c : Char} (h : c.isDigit = true) : c.isAlpha = false := by
  rw [isDigit_iff_toNat] at h
  rw [Bool.eq_false_iff, ne_eq, isAlpha_iff, isUpper_iff_toNat, isLower_iff_toNat]
  omega

/-- A run of digits is taken as far as it goes. -/
private theorem digits1_took {ds : List Char} :
    digits1 s = .took ds r ↔ Digits ds ∧ (Lexeme.mk ds Char.isDigit).At s r := by
  rw [digits1, run1_took]
  exact ⟨fun ⟨ne, hs, all, stop⟩ => ⟨⟨ne, all⟩, hs, stop⟩,
    fun ⟨⟨ne, all⟩, hs, stop⟩ => ⟨ne, hs, all, stop⟩⟩

/-- An amount of time is written in digits and fits in 32 bits. -/
theorem amount_took {n : Nat} :
    amount s = .took n r ↔ ∃ l, (n < Nat.pow 2 32 ∧ Amount n l) ∧ l.At s r := by
  simp only [amount, convert_took, digits1_took]
  constructor
  case mp =>
    rintro ⟨ds, ⟨digits, stands⟩, fits⟩
    split at fits
    case isTrue small =>
      obtain rfl : Decimal.natOfDigits ds = n := by simpa using fits
      exact ⟨_, ⟨small, .intro digits⟩, stands⟩
    case isFalse => simp at fits
  case mpr =>
    rintro ⟨_, ⟨small, ⟨digits⟩⟩, stands⟩
    exact ⟨_, ⟨digits, stands⟩, if_pos small⟩

/-- An amount begins with a digit. -/
theorem amount_head {n : Nat} {l : Lexeme} (h : Amount n l) :
    ∃ d ds, l.chars = d :: ds ∧ d.isDigit = true := by
  obtain ⟨digits⟩ := h
  obtain ⟨d, ds, rfl⟩ := List.exists_cons_of_ne_nil digits.1
  exact ⟨d, ds, rfl, digits.2 d (by simp)⟩

/-- An amount is read behind blanks. -/
theorem amount_reads : Reads (spaced amount)
    (fun n ts => ∃ l, (n < Nat.pow 2 32 ∧ Amount n l) ∧ ts = [l]) anything := by
  refine reads_lexeme (fun n l => n < Nat.pow 2 32 ∧ Amount n l) ?_ amount_took
  rintro n l ⟨-, hl⟩
  obtain ⟨d, ds, chars, digit⟩ := amount_head hl
  exact ⟨d, ds, chars, isBlank_eq_false digit (by decide)⟩

/-- The words of a unit name that unit and no other one. -/
private theorem find_unit (u : TimeUnit) :
    ∀ w ∈ u.words, TimeUnit.all.find? (fun v => v.words.contains w) = some u := by
  cases u <;> decide

/-- The words of a unit are made of letters. -/
private theorem words_letters (u : TimeUnit) :
    ∀ w ∈ u.words, w.toList ≠ [] ∧ w.toList.all Char.isAlpha = true := by
  cases u <;> decide

/-- A word for a unit is made of letters in any letter case. -/
private theorem unit_letters {u : TimeUnit} {w : String} {cs : List Char}
    (hw : w ∈ u.words) (same : SameLetters cs w) :
    cs ≠ [] ∧ ∀ c ∈ cs, c.isAlpha = true := by
  obtain ⟨ne, letters⟩ := words_letters u w hw
  rw [← same] at ne letters
  exact ⟨by simpa using ne, by simpa [isAlpha_toLower] using letters⟩

/-- A run of letters that a unit goes by, in any letter case. -/
theorem ofWord?_eq_some_iff {cs : List Char} {u : TimeUnit}
    (alpha : ∀ c ∈ cs, c.isAlpha = true) :
    TimeUnit.ofWord? (String.ofList cs) = some u ↔ ∃ w ∈ u.words, SameLetters cs w := by
  have lowered : (Text.lower (String.ofList cs)).toList = cs.map Char.toLower := by
    rw [Text.lower_ascii, String.toList_ofList]
    intro c hc
    rw [String.toList_ofList] at hc
    exact isWordChar_ascii (by simp [isWordChar, Char.isAlphanum, alpha c hc])
  constructor
  case mp =>
    intro h
    exact ⟨_, by simpa using List.find?_some h, lowered.symm⟩
  case mpr =>
    rintro ⟨w, hw, same⟩
    obtain rfl : Text.lower (String.ofList cs) = w :=
      String.toList_injective (lowered.trans same)
    exact find_unit u _ hw

/-- A unit is a run of letters. -/
theorem unit_took {u : TimeUnit} :
    convert? (run1 Char.isAlpha) (fun cs => TimeUnit.ofWord? (String.ofList cs))
      s = .took u r ↔ ∃ l, UnitWord u l ∧ l.At s r := by
  simp only [convert?_took, run1_took]
  constructor
  case mp =>
    rintro ⟨cs, ⟨-, hs, all, stop⟩, named⟩
    obtain ⟨w, hw, same⟩ := (ofWord?_eq_some_iff all).1 named
    exact ⟨_, .intro hw same, hs, stop⟩
  case mpr =>
    rintro ⟨_, ⟨hw, same⟩, hs, stop⟩
    obtain ⟨ne, all⟩ := unit_letters hw same
    exact ⟨_, ⟨ne, hs, all, stop⟩, (ofWord?_eq_some_iff all).2 ⟨_, hw, same⟩⟩

/-- A unit is read behind blanks. -/
theorem unit_reads : Reads
    (spaced
      (convert? (run1 Char.isAlpha) fun cs => TimeUnit.ofWord? (String.ofList cs)))
    (fun u ts => ∃ l, UnitWord u l ∧ ts = [l]) anything := by
  refine reads_lexeme UnitWord ?_ unit_took
  rintro u _ ⟨hw, same⟩
  obtain ⟨ne, all⟩ := unit_letters hw same
  obtain ⟨c, cs, rfl⟩ := List.exists_cons_of_ne_nil ne
  exact ⟨c, cs, rfl, isBlank_eq_false (all c (by simp)) (by decide)⟩

/-! ## Numbers -/

/-- A point and the digits after it. -/
theorem fractionPart_took {ds : List Char} :
    fractionPart s = .took ds r ↔
      Digits ds ∧ (Lexeme.mk ('.' :: ds) Char.isDigit).At s r := by
  simp only [fractionPart, bind_took, char_took, digits1_took]
  constructor
  case mp =>
    rintro ⟨_, m, ⟨-, rfl⟩, digits, rfl, stop⟩
    exact ⟨digits, rfl, stop⟩
  case mpr =>
    rintro ⟨digits, rfl, stop⟩
    exact ⟨'.', ds ++ r, ⟨rfl, rfl⟩, digits, rfl, stop⟩

/-- Digits begin with a digit. -/
private theorem digits_head {ds : List Char} (h : Digits ds) :
    ∀ c ∈ (ds ++ r).head?, c.isDigit = true := by
  obtain ⟨d, ds', rfl⟩ := List.exists_cons_of_ne_nil h.1
  rintro c hc
  obtain rfl : d = c := by simpa using hc
  exact h.2 d (by simp)

/-- The sign of an exponent, if there is one. -/
theorem exponentSign_took {o : Option Char} (digit : ∀ c ∈ r.head?, c.isDigit = true) :
    Rule.optional (orElse (char '+') (char '-')) s = .took o r ↔
      o = some '+' ∧ s = '+' :: r ∨ o = some '-' ∧ s = '-' :: r ∨ o = none ∧ s = r := by
  simp only [optional_took, orElse_took, orElse_declines, char_took, char_declines]
  constructor
  case mp =>
    rintro (⟨_, ⟨rfl, rfl⟩ | ⟨-, rfl, rfl⟩, rfl⟩ | ⟨-, rfl, rfl⟩)
    · exact .inl ⟨rfl, rfl⟩
    · exact .inr (.inl ⟨rfl, rfl⟩)
    · exact .inr (.inr ⟨rfl, rfl⟩)
  case mpr =>
    rintro (⟨rfl, rfl⟩ | ⟨rfl, rfl⟩ | ⟨rfl, rfl⟩)
    · exact .inl ⟨'+', .inl ⟨rfl, rfl⟩, rfl⟩
    · exact .inl ⟨'-', .inr ⟨by simp, rfl, rfl⟩, rfl⟩
    · exact .inr ⟨⟨fun h => absurd (digit _ h) (by decide),
        fun h => absurd (digit _ h) (by decide)⟩, rfl, rfl⟩

/-- The letter of an exponent, its sign and its digits. -/
theorem exponentPart_took {negative : Bool} {ds : List Char} :
    exponentPart s = .took (negative, ds) r ↔
      ∃ e signs, (e = 'e' ∨ e = 'E') ∧ SignChars negative signs ∧ Digits ds ∧
        (Lexeme.mk (e :: (signs ++ ds)) Char.isDigit).At s r := by
  have letter {m : List Char} {e : Char} :
      orElse (char 'e') (char 'E') s = .took e m ↔
        (e = 'e' ∨ e = 'E') ∧ s = e :: m := by
    simp only [orElse_took, char_took, char_declines]
    constructor
    case mp => rintro (⟨rfl, rfl⟩ | ⟨-, rfl, rfl⟩) <;> simp
    case mpr => rintro ⟨rfl | rfl, rfl⟩ <;> simp
  simp only [exponentPart, bind_took, letter, digits1_took, pure_took]
  constructor
  case mp =>
    rintro ⟨e, m, ⟨he, rfl⟩, o, _, ho, _, _, ⟨digits, rfl, stop⟩, hp, rfl⟩
    obtain ⟨rfl, rfl⟩ := Prod.mk.inj hp
    rcases (exponentSign_took (digits_head digits)).1 ho with ⟨rfl, rfl⟩ |
      ⟨rfl, rfl⟩ | ⟨rfl, rfl⟩
    · exact ⟨e, ['+'], he, .plus, digits, by simp, stop⟩
    · exact ⟨e, ['-'], he, .minus, digits, by simp, stop⟩
    · exact ⟨e, [], he, .none, digits, by simp, stop⟩
  case mpr =>
    rintro ⟨e, signs, he, hsigns, digits, rfl, stop⟩
    have read (o : Option Char) (h : o = some '+' ∧ signs = ['+'] ∨
        o = some '-' ∧ signs = ['-'] ∨ o = none ∧ signs = []) :
        Rule.optional (orElse (char '+') (char '-')) (signs ++ (ds ++ r)) =
          .took o (ds ++ r) := by
      refine (exponentSign_took (digits_head digits)).2 ?_
      rcases h with ⟨rfl, rfl⟩ | ⟨rfl, rfl⟩ | ⟨rfl, rfl⟩ <;> simp
    refine ⟨e, signs ++ (ds ++ r), ⟨he, by simp⟩, ?_⟩
    cases hsigns with
    | minus =>
        exact ⟨some '-', _, read _ (by simp), ds, r, ⟨digits, rfl, stop⟩, rfl, rfl⟩
    | plus =>
        exact ⟨some '+', _, read _ (by simp), ds, r, ⟨digits, rfl, stop⟩, rfl, rfl⟩
    | none => exact ⟨none, _, read _ (by simp), ds, r, ⟨digits, rfl, stop⟩, rfl, rfl⟩

/-- A number begins with a minus sign or a digit. -/
private theorem number_head {n : Decimal.Spelling} {cs : List Char}
    (h : NumberChars n cs) : ∃ c cs', cs = c :: cs' ∧ (c = '-' ∨ c.isDigit = true) := by
  obtain ⟨digits, -, -⟩ := h
  cases n.negative with
  | true => exact ⟨'-', _, by simp; rfl, .inl rfl⟩
  | false =>
    obtain ⟨d, ds, hds⟩ := List.exists_cons_of_ne_nil digits.1
    exact ⟨d, _, by simp [hds]; rfl, .inr (digits.2 d (by simp [hds]))⟩

/-- A number is solid. -/
private theorem number_solid {n : Decimal.Spelling} {cs : List Char} {p : Char → Bool}
    (h : NumberChars n cs) : (Lexeme.mk cs p).Solid := by
  obtain ⟨c, cs', rfl, rfl | hc⟩ := number_head h
  · exact ⟨'-', cs', rfl, by decide⟩
  · exact ⟨c, cs', rfl, isBlank_eq_false hc (by decide)⟩

/-- The follower of a number does not go on with it. -/
def EndsNumber (r : List Char) : Prop := ∀ c ∈ r.head?, c ≠ '.' ∧ c ≠ 'e' ∧ c ≠ 'E'

/-- A fraction is read if there is one. -/
private theorem fraction_sound {o : Option (List Char)}
    (h : Rule.optional fractionPart s = .took o r)
    (digits : ∀ c ∈ s.head?, c.isDigit = false) :
    ∃ cs, FractionChars (o.getD []) cs ∧ (Lexeme.mk cs Char.isDigit).At s r := by
  rcases optional_took.1 h with ⟨ds, hds, rfl⟩ | ⟨-, rfl, rfl⟩
  · obtain ⟨hds, stands⟩ := fractionPart_took.1 hds
    exact ⟨_, .some hds, stands⟩
  · exact ⟨[], .none, rfl, digits⟩

/-- An exponent is read if there is one. -/
private theorem exponent_sound {o : Option (Bool × List Char)}
    (h : Rule.optional exponentPart s = .took o r)
    (digits : ∀ c ∈ s.head?, c.isDigit = false) :
    ∃ cs, ExponentChars ((o.map (·.1)).getD false) ((o.map (·.2)).getD []) cs ∧
      (Lexeme.mk cs Char.isDigit).At s r := by
  rcases optional_took.1 h with ⟨⟨negative, ds⟩, hds, rfl⟩ | ⟨-, rfl, rfl⟩
  · obtain ⟨e, signs, he, hsigns, hds, stands⟩ := exponentPart_took.1 hds
    exact ⟨_, .some he hsigns hds, stands⟩
  · exact ⟨[], .none, rfl, digits⟩

/-- What is read as a number is written like one. -/
theorem spelling_sound {n : Decimal.Spelling} (h : spelling s = .took n r) :
    ∃ cs, NumberChars n cs ∧ (Lexeme.mk cs Char.isDigit).At s r := by
  simp only [spelling, bind_took, digits1_took, pure_took] at h
  obtain ⟨o, _, hsign, whole, m, ⟨digits, rfl, stop⟩, _, m', hfraction, _, _, hexponent,
      rfl, rfl⟩ := h
  obtain ⟨fraction, hf, rfl, stop'⟩ := fraction_sound hfraction stop
  obtain ⟨exponent, he, rfl, stop''⟩ := exponent_sound hexponent stop'
  refine ⟨_, .intro digits hf he, ?_, stop''⟩
  rcases optional_took.1 hsign with ⟨_, hminus, rfl⟩ | ⟨-, rfl, rfl⟩
  · obtain ⟨-, rfl⟩ := char_took.1 hminus
    simp
  · simp

/-- A fraction that was written is read. -/
theorem fraction_complete {ds cs : List Char} (h : FractionChars ds cs)
    (stop : ∀ c ∈ r.head?, c.isDigit = false) (point : '.' ∉ r.head?) :
    ∃ o : Option (List Char), o.getD [] = ds ∧
      Rule.optional fractionPart (cs ++ r) = .took o r := by
  cases h with
  | none =>
    exact ⟨none, rfl,
      optional_took.2 (.inr ⟨bind_declines.2 (.inl (char_declines.2 point)), rfl, rfl⟩)⟩
  | some digits =>
    exact ⟨some ds, rfl, optional_took.2
      (.inl ⟨ds, fractionPart_took.2 ⟨digits, rfl, stop⟩, rfl⟩)⟩

/-- An exponent that was written is read. -/
theorem exponent_complete {negative : Bool} {ds cs : List Char}
    (h : ExponentChars negative ds cs) (stop : ∀ c ∈ r.head?, c.isDigit = false)
    (letter : 'e' ∉ r.head? ∧ 'E' ∉ r.head?) :
    ∃ o : Option (Bool × List Char), (o.map (·.1)).getD false = negative ∧
      (o.map (·.2)).getD [] = ds ∧
      Rule.optional exponentPart (cs ++ r) = .took o r := by
  cases h with
  | none =>
    refine ⟨none, rfl, rfl,
      optional_took.2 (.inr ⟨bind_declines.2 (.inl ?_), rfl, rfl⟩)⟩
    exact orElse_declines.2 ⟨char_declines.2 letter.1, char_declines.2 letter.2⟩
  | some he hsigns digits =>
    exact ⟨some (negative, ds), rfl, rfl, optional_took.2
      (.inl ⟨_, exponentPart_took.2 ⟨_, _, he, hsigns, digits, rfl, stop⟩, rfl⟩)⟩

/-- An exponent begins with its letter. -/
private theorem exponent_head {negative : Bool} {ds cs : List Char}
    (h : ExponentChars negative ds cs) :
    ∀ c ∈ (cs ++ r).head?, c = 'e' ∨ c = 'E' ∨ c ∈ r.head? := by
  intro c hc
  cases h with
  | none => exact .inr (.inr hc)
  | some he =>
    obtain rfl := Option.mem_some.1 hc
    exact he.imp_right .inl

/-- A fraction begins with its point. -/
private theorem fraction_head {ds cs : List Char} (h : FractionChars ds cs) :
    ∀ c ∈ (cs ++ r).head?, c = '.' ∨ c ∈ r.head? := by
  intro c hc
  cases h with
  | none => exact .inr hc
  | some => exact .inl (Option.mem_some.1 hc).symm

/-- An exponent, or what follows where there is none, goes on with neither point nor
digit. -/
private theorem exponent_stops {negative : Bool} {ds cs : List Char}
    (h : ExponentChars negative ds cs) (stop : ∀ c ∈ r.head?, c.isDigit = false)
    (ends : EndsNumber r) :
    ∀ c ∈ (cs ++ r).head?, c ≠ '.' ∧ c.isDigit = false := by
  intro c hc
  rcases exponent_head h c hc with rfl | rfl | hc
  · decide
  · decide
  · exact ⟨(ends c hc).1, stop c hc⟩

/-- A fraction, or what follows where there is none, goes on with no digit. -/
private theorem fraction_stops {ds cs : List Char} (h : FractionChars ds cs)
    (stop : ∀ c ∈ r.head?, c.isDigit = false) :
    ∀ c ∈ (cs ++ r).head?, c.isDigit = false := by
  intro c hc
  rcases fraction_head h c hc with rfl | hc
  · decide
  · exact stop c hc

/-- A number is read as it is written. -/
theorem spelling_complete {n : Decimal.Spelling} {cs : List Char}
    (hn : NumberChars n cs) (stands : (Lexeme.mk cs Char.isDigit).At s r)
    (ends : EndsNumber r) :
    spelling s = .took n r := by
  obtain ⟨digits, hf, he⟩ := hn
  rename_i fraction exponent
  obtain ⟨rfl, stop⟩ := stands
  have afterFraction := exponent_stops he stop ends
  have afterWhole := fraction_stops hf fun c hc => (afterFraction c hc).2
  obtain ⟨o, ho, readFraction⟩ :=
    fraction_complete hf (fun c hc => (afterFraction c hc).2)
    fun hc => (afterFraction _ hc).1 rfl
  obtain ⟨o', hnegative, hdigits, readExponent⟩ := exponent_complete he stop
    ⟨fun hc => (ends _ hc).2.1 rfl, fun hc => (ends _ hc).2.2 rfl⟩
  have readSign : Rule.optional (char '-')
      ((if n.negative then ['-'] else []) ++
        (n.whole ++ (fraction ++ (exponent ++ r)))) =
        .took (if n.negative then some '-' else none)
          (n.whole ++ (fraction ++ (exponent ++ r))) := by
    cases n.negative with
    | true => simp
    | false =>
      refine optional_took.2 (.inr ⟨char_declines.2 fun hc => ?_, by simp, by simp⟩)
      exact absurd (digits_head digits '-' hc) (by decide)
  simp only [spelling, bind_took, digits1_took, pure_took, List.append_assoc]
  refine ⟨_, _, readSign, n.whole, _, ⟨digits, rfl, afterWhole⟩, o, _,
    readFraction, o', r, readExponent, ?_, rfl⟩
  cases n with
  | mk negative whole fraction exponentNegative exponent =>
    simp only [ho, hnegative, hdigits]
    cases negative <;> simp

/-! ## Numerals and the numbers that they denote -/

/-- A fraction is taken as it is written. -/
theorem takeFraction_append {ds fraction exponent : List Char}
    (h : FractionChars ds fraction) (stop : ∀ c ∈ exponent.head?, c.isDigit = false)
    (point : '.' ∉ exponent.head?) :
    Decimal.takeFraction (fraction ++ exponent) = (ds, exponent) := by
  cases h with
  | none =>
    cases exponent with
    | nil => rfl
    | cons c r =>
      rw [List.nil_append, Decimal.takeFraction]
      rintro r ⟨⟩
      exact point rfl
  | some digits =>
    obtain ⟨htake, hdrop⟩ := span_eq_iff.2 ⟨rfl, digits.2, stop⟩
    rw [List.cons_append, Decimal.takeFraction, htake, hdrop]

/-- The sign of an exponent is taken as it is written, before the digits. -/
theorem takeSign_append {negative : Bool} {signs ds : List Char}
    (h : SignChars negative signs) (digits : Digits ds) :
    Decimal.takeSign (signs ++ ds) = (negative, ds) := by
  cases h with
  | minus => rfl
  | plus => rfl
  | none =>
    obtain ⟨c, ds, rfl⟩ := List.exists_cons_of_ne_nil digits.1
    have hc : c.isDigit = true := digits.2 c List.mem_cons_self
    rw [List.nil_append, Decimal.takeSign]
    · rintro r ⟨⟩
      exact absurd hc (by decide)
    · rintro r ⟨⟩
      exact absurd hc (by decide)

/-- An exponent is taken as it is written. -/
private theorem exponent?_eq {negative : Bool} {ds exponent : List Char}
    (h : ExponentChars negative ds exponent) :
    Decimal.exponent? exponent = some (negative, ds) := by
  cases h with
  | none => rfl
  | some letter signs digits =>
    have hall : ds.all Char.isDigit = true := List.all_eq_true.2 digits.2
    rcases letter with rfl | rfl <;>
      simp [Decimal.exponent?, takeSign_append signs digits, digits.1, hall]

/-- A numeral without its minus sign is taken apart as it is written. -/
theorem read?_unsigned {n : Decimal.Spelling} {fraction exponent : List Char}
    (digits : Digits n.whole) (hf : FractionChars n.fraction fraction)
    (he : ExponentChars n.exponentNegative n.exponent exponent) :
    Decimal.Spelling.read? n.negative (n.whole ++ (fraction ++ exponent)) = some n := by
  have afterFraction : ∀ c ∈ exponent.head?, c ≠ '.' ∧ c.isDigit = false := by
    simpa using exponent_stops (r := []) he (by simp) (by simp [EndsNumber])
  have stop : ∀ c ∈ exponent.head?, c.isDigit = false :=
    fun c hc => (afterFraction c hc).2
  have point : '.' ∉ exponent.head? := fun hc => (afterFraction _ hc).1 rfl
  obtain ⟨htake, hdrop⟩ := span_eq_iff.2 ⟨rfl, digits.2, fraction_stops hf stop⟩
  simp [Decimal.Spelling.read?, htake, hdrop, takeFraction_append hf stop point,
    exponent?_eq he, digits.1]

/-- A text that begins with a digit is none of the words for numbers. -/
theorem readMagnitude?_digit {negative : Bool} {d : Char} {cs : List Char}
    (hd : d.isDigit = true) : Decimal.readMagnitude? negative (d :: cs) =
      (Decimal.Spelling.read? negative (d :: cs)).map Decimal.Spelling.value := by
  have hword : ∀ c w, c.isAlpha = true → (d :: cs).map Char.toLower ≠ c :: w := by
    rintro c w hc ⟨⟩
    rw [isAlpha_toLower, isAlpha_of_isDigit hd] at hc
    cases hc
  have hinf : (d :: cs).map Char.toLower ≠ "inf".toList :=
    hword 'i' ['n', 'f'] (by decide)
  have hinfinity : (d :: cs).map Char.toLower ≠ "infinity".toList :=
    hword 'i' ['n', 'f', 'i', 'n', 'i', 't', 'y'] (by decide)
  have hnan : (d :: cs).map Char.toLower ≠ "nan".toList :=
    hword 'n' ['a', 'n'] (by decide)
  rw [Decimal.readMagnitude?, if_neg, if_neg hnan]
  simp only [Bool.or_eq_true, decide_eq_true_eq, not_or]
  exact ⟨hinf, hinfinity⟩

/-- A text that begins with a digit has no sign. -/
theorem read?_digit {d : Char} {cs : List Char} (hd : d.isDigit = true) :
    Decimal.read? (String.ofList (d :: cs)) =
      Decimal.readMagnitude? false (d :: cs) := by
  rw [Decimal.read?, String.toList_ofList]
  split
  case h_1 heq =>
    obtain ⟨rfl, -⟩ := List.cons.inj heq
    exact absurd hd (by decide)
  case h_2 heq =>
    obtain ⟨rfl, -⟩ := List.cons.inj heq
    exact absurd hd (by decide)
  case h_3 => rfl

/-- A numeral is read as the number that it denotes. -/
theorem read?_numeral {n : Decimal.Spelling} {cs : List Char} (h : NumberChars n cs) :
    Decimal.read? (String.ofList cs) = some n.value := by
  obtain ⟨digits, hf, he⟩ := h
  rename_i fraction exponent
  have hparts := read?_unsigned digits hf he
  obtain ⟨d, ds, hds⟩ := List.exists_cons_of_ne_nil digits.1
  have hd : d.isDigit = true := digits.2 d (by simp [hds])
  rw [hds, List.cons_append] at hparts ⊢
  cases hn : n.negative with
  | true =>
    rw [hn] at hparts
    rw [if_pos rfl, Decimal.read?, String.toList_ofList]
    show Decimal.readMagnitude? true (d :: (ds ++ (fraction ++ exponent))) =
        some n.value
    rw [readMagnitude?_digit hd, hparts, Option.map_some]
  | false =>
    rw [hn] at hparts
    rw [if_neg Bool.false_ne_true, List.nil_append, read?_digit hd,
      readMagnitude?_digit hd, hparts, Option.map_some]

/-- A number is read behind blanks, unless what follows would go on with it. -/
theorem number_reads :
    Reads (spaced number) (fun x ts => ∃ l, Number x l ∧ ts = [l]) EndsNumber where
  sound := by
    intro s r x h
    simp only [spaced, number, convert?_took, taken_took] at h
    obtain ⟨cs, ⟨n, hn, htaken⟩, hvalue⟩ := h
    obtain ⟨cs', hcs, stands⟩ := spelling_sound hn
    obtain rfl : cs' = cs := by rw [← htaken, stands.1]; simp
    rw [read?_numeral hcs, Option.some.injEq] at hvalue
    subst hvalue
    exact ⟨_, ⟨_, .intro hcs, rfl⟩, (Lexeme.laid_iff (number_solid hcs)).2 stands⟩
  complete := by
    rintro s r _ _ ⟨_, ⟨hcs⟩, rfl⟩ laid ends
    have stands := (Lexeme.laid_iff (number_solid hcs)).1 laid
    simp only [spaced, number, convert?_took, taken_took]
    exact ⟨_, ⟨_, spelling_complete hcs stands ends, by rw [stands.1]; simp⟩,
      read?_numeral hcs⟩

end SeriesQuery.Reading
