import SeriesQuery.Proofs.Statement.Aggregations

/-!
# Reading stages

The rule for a stage reads its form, and the loop over the stages reads a whole text.  A
name is bound only where one equals sign stands after the first word, and no stage
without a binding has one there.

## Main results

* `body_reads`, `stage_reads`: select and aggregation stages, with the names that they
  bind.
* `stages_sound`: the stages that were read are laid out over the whole text.
* `stages_complete`: stages that are laid out over a whole text are read.
-/

namespace SeriesQuery.Reading

open SeriesQuery.Text (isBlank)
open SeriesQuery.Rendering
open Rule

variable {s r : List Char}

/-! ## Bodies -/

/-- A body begins with a word, and no equals sign comes after it. -/
theorem body_shape {body : StageBody} {ts : List Lexeme} (fits : WellFormedBody body)
    (form : BodyForm body ts) :
    ∃ w ls, ts = plain (w : String).toList :: ls ∧ IsWord w ∧
      ∀ {m r : List Char}, Laid ls m r → '=' ∉ (m.dropWhile isBlank).head? := by
  cases form with
  | select form =>
    obtain ⟨⟨same⟩, hname, -, -⟩ := form
    rename_i cs
    have isWord : IsWord (String.ofList cs) :=
      IsWord.of_sameLetters (spells_of_all (by decide) (by decide)) same
    refine ⟨String.ofList cs, _, by simp; rfl, isWord, fun laid sign => ?_⟩
    obtain ⟨c, head, hc⟩ := name_head hname laid
    obtain rfl := Option.mem_unique head sign
    exact absurd hc (by decide)
  | aggregate form =>
    obtain ⟨same, -, -⟩ := form
    rename_i a cs ts ts'
    replace fits : WellFormedAggregation a := fits
    have isWord := fits.name.of_sameLetters same
    refine ⟨String.ofList cs, _, by simp; rfl, isWord, fun laid sign => ?_⟩
    rw [laid_head laid rfl (by decide)] at sign
    cases sign

/-- What a stage does is read in both of its forms. -/
theorem body_reads :
    Reads
      (spaced
        (orElse (StageBody.select <$> select) (StageBody.aggregate <$> aggregation)))
      (fun body ts => WellFormedBody body ∧ BodyForm body ts) (Follows [';']) where
  sound := by
    intro s r body h
    simp only [spaced, orElse_took, map_took, map_declines] at h
    rcases h with ⟨x, h, rfl⟩ | ⟨noSelect, a, h, rfl⟩
    · obtain ⟨ts, ⟨fits, hts⟩, laid⟩ := select_reads.sound h
      exact ⟨ts, ⟨fits, .select hts⟩, laid⟩
    · obtain ⟨ts, ⟨fits, hts⟩, laid⟩ := aggregation_sound h noSelect
      exact ⟨ts, ⟨fits, .aggregate hts⟩, laid⟩
  complete := by
    rintro s r body ts ⟨fits, form⟩ laid follows
    simp only [spaced, orElse_took, map_took, map_declines]
    cases form with
    | select form =>
        exact .inl ⟨_, select_reads.complete ⟨fits, form⟩ laid follows, rfl⟩
    | aggregate form =>
      refine .inr ⟨?_, _, aggregation_complete fits form laid, rfl⟩
      obtain ⟨same, -, -⟩ := form
      rename_i a cs ts ts'
      replace fits : WellFormedAggregation a := fits
      have isWord := fits.name.of_sameLetters same
      obtain ⟨m, stands⟩ := word_stands isWord (by simpa using laid)
      refine select_declines_iff.2
        (keyword_declines_of_word isWord stands (by decide) ?_)
      intro named
      refine fits.noSelect (String.toList_injective ?_)
      rw [← same, ← named, String.toList_ofList]

/-! ## Bindings -/

/-- A name that was bound is laid out with its equals sign. -/
private theorem binding_sound {w : String}
    (h : binding (s.dropWhile isBlank) = .took w r) :
    IsWord w ∧ ∃ m, Laid [plain w.toList, sign '='] s m ∧ m.dropWhile isBlank = r := by
  simp only [binding, bind_took, blanks_took, absent_took, pure_took] at h
  obtain ⟨_, m, hw, _, _, rfl, _, m', hsign, _, _, ⟨-, rfl⟩, _, _, rfl, rfl, rfl⟩ := h
  obtain ⟨isWord, stands⟩ := word_took.1 hw
  exact ⟨isWord, m', laid_cons.2 ⟨m, (Lexeme.laid_iff isWord.solid).2 stands,
    char_sound (by decide) hsign⟩, rfl⟩

/-- A name that is laid out with an equals sign is bound, unless another equals sign
follows. -/
theorem binding_complete {w : String} (isWord : IsWord w)
    (laid : Laid [plain w.toList, sign '='] s r)
    (single : '=' ∉ (r.dropWhile isBlank).head?) :
    binding (s.dropWhile isBlank) = .took w (r.dropWhile isBlank) := by
  obtain ⟨m, first, second⟩ := laid_cons.1 laid
  have noSign : Declines (char '=') r := by
    refine char_declines.2 fun sign => ?_
    rcases isBlank_or_head sign with blank | head
    · exact absurd blank (by decide)
    · exact single head
  simp only [binding, bind_took, blanks_took, absent_took, pure_took]
  exact ⟨w, m, word_reads.complete ⟨isWord, .intro w⟩ first trivial, (), _, rfl, '=', r,
    char_complete (by decide) second, (), r, ⟨noSign, rfl⟩, (), _, rfl, rfl, rfl⟩

/-- Without an equals sign after the first word no name is bound. -/
private theorem binding_declines {w : String} {ls : List Lexeme} (isWord : IsWord w)
    (laid : Laid (plain w.toList :: ls) s r)
    (other : ∀ {m r : List Char}, Laid ls m r → '=' ∉ (m.dropWhile isBlank).head?) :
    Declines binding (s.dropWhile isBlank) := by
  obtain ⟨m, first, rest⟩ := laid_cons.1 laid
  have read := word_reads.complete ⟨isWord, .intro w⟩ first trivial
  simp only [binding, bind_declines, blanks_took, blanks_declines, false_or]
  exact .inr ⟨w, m, read, (), _, rfl, .inl (char_declines.2 (other rest))⟩

/-! ## One stage -/

/-- A stage that can be written. -/
def StageFits (bound : Option String) (body : StageBody) : Prop :=
  (∀ w ∈ bound, IsWord w) ∧ WellFormedBody body

/-- A stage is read with the name that it binds, up to the end or a semicolon. -/
theorem stage_reads : Reads (spaced stage)
    (fun p ts => StageFits p.1 p.2 ∧ StageForm p.1 p.2 ts) (Follows [';']) where
  sound := by
    rintro s r ⟨bound, body⟩ h
    simp only [spaced, stage, bind_took, optional_took, expecting_took, pure_took] at h
    obtain ⟨_, m, ho, _, _, hbody, h, rfl⟩ := h
    obtain ⟨rfl, rfl⟩ := Prod.mk.inj h
    rcases ho with ⟨w, hw, rfl⟩ | ⟨-, rfl, rfl⟩
    · obtain ⟨isWord, m', first, rfl⟩ := binding_sound hw
      obtain ⟨ts, ⟨fits, form⟩, rest⟩ := body_reads.sound hbody
      have laid := (@laid_append [plain w.toList, sign '='] ts _ _).2 ⟨m', first, rest⟩
      exact ⟨_, ⟨⟨by simpa using isWord, fits⟩, .bound (.intro w) form⟩, laid⟩
    · obtain ⟨ts, ⟨fits, form⟩, laid⟩ := body_reads.sound hbody
      exact ⟨ts, ⟨⟨by rintro _ ⟨⟩, fits⟩, .unbound form⟩, laid⟩
  complete := by
    rintro s r ⟨bound, body⟩ ts ⟨⟨isWord, fits⟩, form⟩ laid follows
    simp only [spaced, stage, bind_took, optional_took, expecting_took, pure_took]
    cases form with
    | unbound form =>
      have read := body_reads.complete ⟨fits, form⟩ laid follows
      obtain ⟨w, ls, rfl, isWord, other⟩ := body_shape fits form
      exact ⟨none, _, .inr ⟨binding_declines isWord laid other, rfl, rfl⟩, body, r,
        read, rfl, rfl⟩
    | bound hw form =>
      obtain ⟨w⟩ := hw
      obtain ⟨m, first, rest⟩ := (@laid_append [plain _, sign '='] _ _ _).1 laid
      have read := body_reads.complete ⟨fits, form⟩ rest follows
      obtain ⟨w', ls, rfl, isWord', -⟩ := body_shape fits form
      obtain ⟨c, head, hc⟩ := word_head isWord' rest
      have single : '=' ∉ (m.dropWhile isBlank).head? := by
        intro sign
        obtain rfl := Option.mem_unique head sign
        exact absurd hc (by decide)
      exact ⟨some _, _, .inl ⟨_, binding_complete (isWord _ rfl) first single, rfl⟩,
        body, r, read, rfl, rfl⟩

/-- A stage begins with a word. -/
theorem stage_first {bound : Option String} {body : StageBody} {ts : List Lexeme}
    (fits : StageFits bound body) (form : StageForm bound body ts) :
    ∃ w ls, ts = plain (w : String).toList :: ls ∧ IsWord w := by
  cases form with
  | unbound form =>
    obtain ⟨w, ls, rfl, isWord, -⟩ := body_shape fits.2 form
    exact ⟨w, ls, rfl, isWord⟩
  | bound hw _ =>
    obtain ⟨⟩ := hw
    exact ⟨_, _, rfl, fits.1 _ rfl⟩

/-! ## All stages -/

/-- The semicolon and the blanks after it. -/
theorem separator_took {u : Unit} :
    separator (s.dropWhile isBlank) = .took u r ↔
      ∃ m, Laid [sign ';'] s m ∧ m.dropWhile isBlank = r := by
  simp only [separator, bind_took, expecting_took, blanks_took]
  constructor
  case mp =>
    rintro ⟨c, m, h, rfl⟩
    exact ⟨m, char_sound (by decide) h, rfl⟩
  case mpr =>
    rintro ⟨m, laid, rfl⟩
    exact ⟨';', m, char_complete (by decide) laid, rfl⟩

/-- A text that begins with a stage does not end before it. -/
theorem stages_ne_nil {source : List Char} {sts : List Stage}
    (form : StagesForm source sts s) (fits : ∀ st ∈ sts, StageFits st.binding st.body) :
    s.dropWhile isBlank ≠ [] := by
  have first {st : Stage} {ts : List Lexeme} {m : List Char}
      (fits : StageFits st.binding st.body)
      (form : StageForm st.binding st.body ts) (laid : Laid ts s m) :
      s.dropWhile isBlank ≠ [] := by
    obtain ⟨w, ls, rfl, isWord⟩ := stage_first fits form
    obtain ⟨c, head, -⟩ := word_head isWord laid
    exact fun empty => by simp [empty] at head
  cases form with
  | last form laid => exact first (fits _ (by simp)) form laid
  | more form laid => exact first (fits _ (by simp)) form laid

/-- The stages that were read are laid out up to the end of the text. -/
theorem stages_sound {source : List Char} {sts : List Stage}
    (h : stages source (s.dropWhile isBlank) = .took sts r) :
    (∀ st ∈ sts, StageFits st.binding st.body) ∧ StagesForm source sts s := by
  induction n :
    (s.dropWhile isBlank).length using Nat.strong_induction_on generalizing s sts r with
  | h n ih =>
    subst n
    rw [stages] at h
    split at h
    case h_2 => simp at h
    case h_3 => simp at h
    case h_1 bound body m hstage =>
      obtain ⟨ts, ⟨fits, form⟩, laid⟩ := stage_reads.sound hstage
      simp only [List.isEmpty_iff] at h
      split at h
      case isTrue done =>
        obtain ⟨rfl, -⟩ : [_] = sts ∧ _ := by simpa using h
        exact ⟨by simpa using fits, .last form laid rfl (.plain (gap_nil_iff.2 done))⟩
      case isFalse =>
        split at h
        case h_2 => simp at h
        case h_3 => simp at h
        case h_1 m' hseparator =>
          obtain ⟨e, semicolon, rfl⟩ := separator_took.1 hseparator
          split at h
          case isTrue done =>
            obtain ⟨rfl, -⟩ : [_] = sts ∧ _ := by simpa using h
            exact ⟨by simpa using fits,
              .last form laid rfl (.semicolon semicolon (gap_nil_iff.2 done))⟩
          case isFalse =>
            split at h
            case isFalse => simp at h
            case isTrue shorter =>
              split at h
              case h_2 other => exact absurd h (other _ _)
              case h_1 more r' hmore =>
                obtain ⟨rfl, -⟩ : _ :: more = sts ∧ r' = r := by simpa using h
                obtain ⟨all, rest⟩ := ih _ shorter hmore rfl
                exact ⟨by simpa using ⟨fits, all⟩, .more form laid rfl semicolon rest⟩

/-- Stages that are laid out up to the end of a text are read. -/
theorem stages_complete {source : List Char} {sts : List Stage}
    (fits : ∀ st ∈ sts, StageFits st.binding st.body) (form : StagesForm source sts s) :
    stages source (s.dropWhile isBlank) = .took sts [] := by
  have skip {m e r : List Char} (semicolon : Laid [sign ';'] m e)
      (rest : e.dropWhile isBlank = r) :
      m.dropWhile isBlank ≠ [] ∧ separator (m.dropWhile isBlank) = .took () r := by
    refine ⟨fun empty => ?_, separator_took.2 ⟨e, semicolon, rest⟩⟩
    have head := laid_head semicolon rfl (by decide)
    simp [empty] at head
  induction form with
  | @last st ts s r form laid place closing =>
    obtain ⟨bound, body, position⟩ := st
    obtain rfl : position = _ := place
    have fits := fits _ (List.mem_singleton_self _)
    cases closing with
    | plain done =>
      have read : stage (s.dropWhile isBlank) = .took (bound, body) r :=
        stage_reads.complete ⟨fits, form⟩ laid (follows_of_gap done)
      rw [stages, read]
      simp [gap_nil_iff.1 done]
    | @semicolon e semicolon done =>
      obtain ⟨some, skip⟩ := skip semicolon (gap_nil_iff.1 done)
      have read : stage (s.dropWhile isBlank) = .took (bound, body) r :=
        stage_reads.complete ⟨fits, form⟩ laid
          (follows_of_sign semicolon (by decide) (by decide))
      rw [stages, read]
      simp [some, skip]
  | @more st sts ts s m r form laid place semicolon rest ih =>
    obtain ⟨bound, body, position⟩ := st
    obtain rfl : position = _ := place
    have fitsHere := fits _ List.mem_cons_self
    have fitsLater := fun st hst => fits st (List.mem_cons_of_mem _ hst)
    obtain ⟨some, skip⟩ := skip semicolon rfl
    have read : stage (s.dropWhile isBlank) = .took (bound, body) m :=
      stage_reads.complete ⟨fitsHere, form⟩ laid
        (follows_of_sign semicolon (by decide) (by decide))
    have more := stages_ne_nil rest fitsLater
    have shorter : (r.dropWhile isBlank).length < (s.dropWhile isBlank).length := by
      obtain ⟨w, ls, rfl, isWord⟩ := stage_first fitsHere form
      have := laid.length_lt isWord.solid
      have := semicolon.suffix.length_le
      have := List.length_dropWhile_le isBlank r
      omega
    rw [stages, read]
    simp [some, skip, more, shorter, ih fitsLater]

end SeriesQuery.Reading
