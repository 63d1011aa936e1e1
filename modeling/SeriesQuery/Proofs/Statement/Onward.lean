import SeriesQuery.Proofs.Statement.Inward
import SeriesQuery.Proofs.Statement.Stages

/-!
# Texts that go on behind a semicolon

No lexeme goes on with a semicolon.  So what is laid out up to the end of a text is laid
out in the same way when a semicolon and more text come after it, and the stages of the
text are read in front of those that the semicolon separates from them.

## Main results

* `StageForm.halts`: no lexeme of a stage goes on with a semicolon.
* `Laid.onward`: a row of lexemes is laid out in a longer text.
* `stages_onward`: the stages in front of a semicolon, and then those behind it.
-/

namespace SeriesQuery.Rendering

open SeriesQuery.Text (isBlank)
open SeriesQuery.Reading

/-! ## Lexemes -/

/-- None of some lexemes goes on with a semicolon. -/
def Halts (ts : List Lexeme) : Prop := ∀ l ∈ ts, l.joins ';' = false

@[simp] theorem halts_nil : Halts [] := fun _ h => nomatch h

@[simp] theorem halts_cons {l : Lexeme} {ts : List Lexeme} :
    Halts (l :: ts) ↔ l.joins ';' = false ∧ Halts ts := List.forall_mem_cons

@[simp] theorem halts_append {ts ts' : List Lexeme} :
    Halts (ts ++ ts') ↔ Halts ts ∧ Halts ts' := List.forall_mem_append

@[simp] theorem joins_sign (c d : Char) : (sign c).joins d = false := by
  rw [sign]

@[simp] theorem joins_plain (cs : List Char) : (plain cs).joins ';' = false :=
  show isWordChar ';' = false by decide

private theorem Keyword.joins {w : String} {k : Lexeme} (h : Keyword w k) :
    k.joins ';' = false := by
  cases h
  exact joins_plain _

private theorem Quoted.joins {v : List Char} {l : Lexeme} (h : Quoted v l) :
    l.joins ';' = false := by
  cases h
  rfl

theorem WordForm.halts {w : String} {ts : List Lexeme} (h : WordForm w ts) :
    Halts ts := by
  cases h
  simp

/-! ## Lists -/

section Lists

variable {α : Type} {form : α → List Lexeme → Prop} {separator : Lexeme → Prop}
  {as : List α} {ts : List Lexeme}

theorem Each.halts (h : Each form as ts) (hform : ∀ {a ts}, form a ts → Halts ts) :
    Halts ts := by
  induction h with
  | nil => exact halts_nil
  | cons hhead _ ih => exact halts_append.2 ⟨hform hhead, ih⟩

theorem After.halts {a : α} (h : After separator form a ts)
    (hseparator : ∀ {l}, separator l → l.joins ';' = false)
    (hform : ∀ {a ts}, form a ts → Halts ts) : Halts ts := by
  cases h with
  | intro hl hts => exact halts_cons.2 ⟨hseparator hl, hform hts⟩

theorem Listed.halts (h : Listed separator form as ts)
    (hseparator : ∀ {l}, separator l → l.joins ';' = false)
    (hform : ∀ {a ts}, form a ts → Halts ts) : Halts ts := by
  cases h with
  | intro hhead hrest =>
    exact halts_append.2 ⟨hform hhead,
      hrest.halts fun hafter => hafter.halts hseparator hform⟩

private theorem IsComma.joins {l : Lexeme} (h : IsComma l) : l.joins ';' = false := by
  cases h
  rfl

end Lists

/-! ## Select stages -/

theorem NameForm.halts {v : String} {ts : List Lexeme} (h : NameForm v ts) :
    Halts ts := by
  cases h with
  | quoted hl => simp [hl.joins]
  | bare => simp [show isNameChar ';' = false by decide]

theorem TagValueForm.halts {v : String} {ts : List Lexeme} (h : TagValueForm v ts) :
    Halts ts := by
  cases h with
  | quoted hl => simp [hl.joins]
  | bare => simp [show isBareChar ';' = false by decide]

theorem MomentForm.halts {m : Moment} {ts : List Lexeme} (h : MomentForm m ts) :
    Halts ts := by
  cases h with
  | now hk => simp [hk.joins]
  | ago hn hu hk =>
    cases hn
    cases hu
    simp [hk.joins, show Char.isDigit ';' = false by decide,
      show Char.isAlpha ';' = false by decide]
  | fixed hl => simp [hl.joins]

theorem SpanForm.halts {s : Span} {ts : List Lexeme} (h : SpanForm s ts) :
    Halts ts := by
  cases h with
  | since hstart => exact hstart.halts
  | between hstart hk hstop => simp [hstart.halts, hk.joins, hstop.halts]

theorem FilterForm.halts {f : TagFilter} {ts : List Lexeme} (h : FilterForm f ts) :
    Halts ts := by
  cases h with
  | intro hkey hvalues =>
    simp [hkey.halts, hvalues.halts IsComma.joins TagValueForm.halts]

theorem ClauseForm.halts {g : Given} {ts : List Lexeme} (h : ClauseForm g ts) :
    Halts ts := by
  cases h with
  | range hk hspan => simp [hk.joins, hspan.halts]
  | filters hk hfilters =>
      simp [hk.joins, hfilters.halts Keyword.joins FilterForm.halts]
  | groupBy hk hk' hnames =>
      simp [hk.joins, hk'.joins, hnames.halts IsComma.joins NameForm.halts]

theorem SelectForm.halts {x : Select} {ts : List Lexeme} (h : SelectForm x ts) :
    Halts ts := by
  cases h with
  | intro hk hname _ hclauses =>
      simp [hk.joins, hname.halts, hclauses.halts ClauseForm.halts]

/-! ## Aggregations -/

theorem SourcesForm.halts {o : Option (List String)} {ts : List Lexeme}
    (h : SourcesForm o ts) : Halts ts := by
  cases h with
  | none => exact halts_nil
  | single hk hw => simp [hk.joins, hw.halts]
  | listed hk hws => simp [hk.joins, hws.halts IsComma.joins WordForm.halts]

theorem ValueForm.halts {v : ArgValue} {ts : List Lexeme} (h : ValueForm v ts) :
    Halts ts := by
  cases h with
  | number hn =>
    cases hn
    simp [show Char.isDigit ';' = false by decide]
  | text hl => simp [hl.joins]
  | yes hk => simp [hk.joins]
  | no hk => simp [hk.joins]
  | word hw => exact hw.halts

theorem ArgumentForm.halts {a : Argument} {ts : List Lexeme} (h : ArgumentForm a ts) :
    Halts ts := by
  cases h with
  | intro hkey hvalue => simp [hkey.halts, hvalue.halts]

theorem ArgumentsForm.halts {afterSources : Bool} {as : List Argument}
    {ts : List Lexeme} (h : ArgumentsForm afterSources as ts) : Halts ts := by
  cases h with
  | after has =>
      exact has.halts fun hafter => hafter.halts IsComma.joins ArgumentForm.halts
  | none => exact halts_nil
  | listed has => exact has.halts IsComma.joins ArgumentForm.halts

theorem AggregationForm.halts {a : Aggregation} {ts : List Lexeme}
    (h : AggregationForm a ts) : Halts ts := by
  cases h with
  | intro _ hsources harguments => simp [hsources.halts, harguments.halts]

/-- No lexeme of a stage goes on with a semicolon. -/
theorem StageForm.halts {bound : Option String} {body : StageBody} {ts : List Lexeme}
    (h : StageForm bound body ts) : Halts ts := by
  have hbody : ∀ {ts : List Lexeme}, BodyForm body ts → Halts ts := by
    intro ts hform
    cases hform with
    | select hform => exact hform.halts
    | aggregate hform => exact hform.halts
  cases h with
  | unbound hform => exact hbody hform
  | bound hw hform => simp [hw.halts, hbody hform]

/-! ## Longer texts -/

private theorem Gap.append {s m : List Char} (h : Gap s m) (more : List Char) :
    Gap (s ++ more) (m ++ more) := by
  obtain ⟨g, hg, rfl⟩ := h
  exact ⟨g, hg, List.append_assoc g m more⟩

/-- A row of lexemes is laid out in a longer text if the text goes on behind a
semicolon. -/
theorem Laid.onward {ts : List Lexeme} {s r : List Char} (h : Laid ts s r)
    (hts : Halts ts) (more : List Char) :
    Laid ts (s ++ ';' :: more) (r ++ ';' :: more) := by
  induction h with
  | nil s => exact .nil _
  | @cons l ls s m m' r gap stands rest ih =>
    obtain ⟨hl, hls⟩ := halts_cons.1 hts
    refine .cons (gap.append _) ⟨?_, ?_⟩ (ih hls)
    · rw [stands.1, List.append_assoc]
    · -- the semicolon is the next character only where the text ended
      cases m' with
      | nil => simpa using hl
      | cons c m' => exact stands.2

/-- Blanks are skipped alike in a longer text that goes on behind a semicolon. -/
theorem dropWhile_onward (s more : List Char) :
    (s ++ ';' :: more).dropWhile isBlank = s.dropWhile isBlank ++ ';' :: more := by
  induction s with
  | nil => exact List.dropWhile_cons_of_neg (by decide)
  | cons c s ih =>
    rw [List.cons_append, List.dropWhile_cons, List.dropWhile_cons]
    split
    · exact ih
    · rfl

/-- A place is the same in a longer text. -/
theorem positionOf_onward (source rest more : List Char) :
    positionOf (source ++ more) (rest ++ more) = positionOf source rest := by
  have hlength : (source ++ more).length - (rest ++ more).length =
      source.length - rest.length := by
    simp only [List.length_append]
    omega
  rw [positionOf, positionOf, hlength, List.take_append_of_le_length (Nat.sub_le _ _)]

/-! ## The last stage -/

/-- The last character of a text that is no blank. -/
def lastInk? (s : List Char) : Option Char := (s.filter fun c => !isBlank c).getLast?

private theorem lastInk?_append_sign {before e : List Char} {c : Char}
    (hc : isBlank c = false) (he : Gap e []) :
    lastInk? (before ++ c :: e) = some c := by
  obtain ⟨g, hg, rfl⟩ := he
  have hnone : (g.filter fun c => !isBlank c) = [] :=
    List.filter_eq_nil_iff.2 fun d hd => by simp [hg d hd]
  simp [lastInk?, List.filter_append, hc, hnone]

/-- Stages do not end with a semicolon if the text does not. -/
theorem Closing.gap {source r : List Char} (h : Closing r) (suffix : r <:+ source)
    (last : lastInk? source ≠ some ';') : Gap r [] := by
  cases h with
  | plain hgap => exact hgap
  | semicolon laid hgap =>
    have stands := (Lexeme.laid_iff (sign_solid (by decide))).1 laid
    obtain ⟨before, rfl⟩ := suffix
    have hsplit := List.takeWhile_append_dropWhile (p := isBlank) (l := r)
    rw [stands.1] at hsplit
    rw [← hsplit, ← List.append_assoc] at last
    exact absurd (lastInk?_append_sign (by decide) hgap) last

end SeriesQuery.Rendering

namespace SeriesQuery.Reading

open SeriesQuery.Text (isBlank)
open SeriesQuery.Rendering
open Rule

/-- A step with its value turned over. -/
def Step.map {α β : Type} (f : α → β) : Step α → Step β
  | .took a r => .took (f a) r
  | .declined e => .declined e
  | .failed e => .failed e

variable {source s r more : List Char} {bound : Option String} {body : StageBody}

/-- The semicolon behind a stage is taken with the blanks around it. -/
theorem separator_onward (hr : r.dropWhile isBlank = ';' :: more) :
    separator (r.dropWhile isBlank) = .took () (more.dropWhile isBlank) := by
  refine separator_took.2 ⟨more,
    (Lexeme.laid_iff (sign_solid (by decide))).2 ⟨hr, ?_⟩, rfl⟩
  simp

/-- One stage, a semicolon, and what is read behind it. -/
theorem stages_more (h : stage s = .took (bound, body) r)
    (hr : r.dropWhile isBlank = ';' :: more) (hmore : more.dropWhile isBlank ≠ [])
    (shorter : (more.dropWhile isBlank).length < s.length) :
    stages source s = (stages source (more.dropWhile isBlank)).map
      fun sts => ⟨bound, body, positionOf source s⟩ :: sts := by
  have hskip := separator_onward hr
  have hsome : (r.dropWhile isBlank).isEmpty = false := by rw [hr]; rfl
  have hmore' : (more.dropWhile isBlank).isEmpty = false := by simpa using hmore
  rw [stages, h]
  simp only [hsome, hskip, hmore', Bool.false_eq_true, if_false, shorter, dif_pos]
  cases stages source (more.dropWhile isBlank) <;> rfl

/-- A stage of a text is read in the longer text, and then what is behind the
semicolon. -/
theorem stages_cons_onward {st : Stage} {ts : List Lexeme} {behind : List Char}
    (fits : StageFits st.binding st.body) (form : StageForm st.binding st.body ts)
    (laid : Laid ts s r) (place : st.position = positionOf source (s.dropWhile isBlank))
    (hr : (r ++ ';' :: more).dropWhile isBlank = ';' :: behind)
    (hbehind : behind.dropWhile isBlank ≠ []) :
    stages (source ++ ';' :: more) ((s ++ ';' :: more).dropWhile isBlank) =
      (stages (source ++ ';' :: more) (behind.dropWhile isBlank)).map (st :: ·) := by
  have follows : Follows [';'] (r ++ ';' :: more) := by
    rw [Follows, hr]
    simp
  have read : stage ((s ++ ';' :: more).dropWhile isBlank) =
      .took (st.binding, st.body) (r ++ ';' :: more) :=
    stage_reads.complete ⟨fits, form⟩ (laid.onward form.halts more) follows
  have shorter : (behind.dropWhile isBlank).length <
      ((s ++ ';' :: more).dropWhile isBlank).length := by
    have htaken := (built_stage.inward.took read).length_le
    have hskipped := (List.dropWhile_suffix isBlank (l := r ++ ';' :: more)).length_le
    have hblank := (List.dropWhile_suffix isBlank (l := behind)).length_le
    rw [hr, List.length_cons] at hskipped
    omega
  have here : positionOf (source ++ ';' :: more)
      ((s ++ ';' :: more).dropWhile isBlank) = st.position := by
    rw [place, dropWhile_onward, positionOf_onward]
  rw [stages_more read hr hbehind shorter, here]

/-- The stages of a text are read in front of those behind a semicolon. -/
theorem stages_onward {sts : List Stage} (form : StagesForm source sts s)
    (fits : ∀ st ∈ sts, StageFits st.binding st.body) (suffix : s <:+ source)
    (last : lastInk? source ≠ some ';') (hmore : more.dropWhile isBlank ≠ []) :
    stages (source ++ ';' :: more) ((s ++ ';' :: more).dropWhile isBlank) =
      (stages (source ++ ';' :: more) (more.dropWhile isBlank)).map (sts ++ ·) := by
  induction form with
  | @last st ts s r form laid place closing =>
    have done := gap_nil_iff.1 (closing.gap (laid.suffix.trans suffix) last)
    exact stages_cons_onward (fits st List.mem_cons_self) form laid place
      (by rw [dropWhile_onward, done]; rfl) hmore
  | @more st sts ts s m r form laid place semicolon rest ih =>
    have onward : r <:+ s := semicolon.suffix.trans laid.suffix
    have skipped : m.dropWhile isBlank = ';' :: r :=
      ((Lexeme.laid_iff (sign_solid (by decide))).1 semicolon).1
    have hrest : (r ++ ';' :: more).dropWhile isBlank ≠ [] := by simp [dropWhile_onward]
    rw [stages_cons_onward (fits st List.mem_cons_self) form laid place
      (by rw [dropWhile_onward, skipped]; rfl) hrest,
      ih (fun st' hst' => fits st' (List.mem_cons_of_mem st hst'))
      (onward.trans suffix)]
    cases stages (source ++ ';' :: more) (more.dropWhile isBlank) <;> rfl

end SeriesQuery.Reading
