import SeriesQuery.Proofs.Statement.Composition
import SeriesQuery.Execution.Failure

/-!
# Where problems are told

A text that is no statement has one problem, and its place is one of the text.  The
stages in front of it are in order: each is followed by a semicolon.  The problem stands
at or behind the beginning of the first stage of which this is not so, since a rule
stops only inside the text that it was given, and since of two places in a text the one
with less text behind it is later.

## Main results

* `positionOf_within`: the place where a rest of a text begins is one of the text.
* `stages_open`: reading stops inside the first stage that is not completed.
* `Statement.problem_in_open_stage`: where the problem of a text stands.
-/

namespace SeriesQuery

open SeriesQuery.Text (isBlank)

/-! ## Places of a text -/

/-- A place is one of a text: there is such a line, and at most the end of the line is
meant. -/
structure Position.Within (source : List Char) (p : Position) : Prop where
  line_pos : 1 ≤ p.line
  line_le : p.line ≤ 1 + source.count '\n'
  column_pos : 1 ≤ p.column
  column_le : ∃ l, (source.splitOn '\n')[p.line - 1]? = some l ∧ p.column ≤ 1 + l.length

/-- The place behind some characters lies in the last of their lines, as far as that
goes on. -/
theorem Position.column_after_le (before rest : List Char) :
    ∃ l, ((before ++ rest).splitOn '\n')[(Position.after before).line - 1]? = some l ∧
      (Position.after before).column ≤ 1 + l.length := by
  induction before with
  | nil =>
    have hlines : 0 < (rest.splitOn '\n').length :=
      List.length_pos_iff.2 (List.splitOn_ne_nil _ rest)
    exact ⟨_, List.getElem?_eq_getElem hlines, by simp [Position.after]⟩
  | cons c before ih =>
    obtain ⟨l, hl, hcolumn⟩ := ih
    have hafter : Position.after (c :: before) = (Position.after before).past [c] :=
      Position.after_append [c] before
    obtain ⟨k, hk⟩ : ∃ k, (Position.after before).line = k + 1 := ⟨_, rfl⟩
    rw [hk, Nat.add_sub_cancel] at hl
    rw [hafter, List.cons_append, List.splitOn_cons_eq_if_modifyHead]
    by_cases hc : c = '\n'
    case pos =>
      subst hc
      exact ⟨l, by simpa [Position.past, hk] using hl, by
        simpa [Position.past] using hcolumn⟩
    case neg =>
      cases k with
      | zero =>
        refine ⟨c :: l, ?_, ?_⟩
        · simp [Position.past, hk, hc, hl]
        · simp only [Position.past, hk, Nat.zero_add, if_true, List.reverse_singleton]
          simp [hc]
          omega
      | succ k =>
        refine ⟨l, ?_, by simpa [Position.past, hk] using hcolumn⟩
        simpa [Position.past, hk, hc] using hl

private theorem Position.within_after (before rest : List Char) :
    (Position.after before).Within (before ++ rest) where
  line_pos := Nat.le_add_left 1 _
  line_le := by
    simp only [Position.after, List.count_append]
    omega
  column_pos := Nat.le_add_left 1 _
  column_le := Position.column_after_le before rest

namespace Reading

open SeriesQuery.Rendering
open Rule

variable {source s t u m r : List Char} {f : Fault}

/-- The place where a rest of a text begins is one of the text. -/
theorem positionOf_within (h : r <:+ source) : (positionOf source r).Within source := by
  obtain ⟨before, rfl⟩ := h
  rw [positionOf_append]
  exact Position.within_after before r

/-- Of two rests of a text the shorter one begins later. -/
theorem earlier_of_suffix (h : r <:+ source) (h' : s <:+ source)
    (hlt : s.length < r.length) :
    Earlier (positionOf source r) (positionOf source s) := by
  obtain ⟨before, rfl⟩ := h
  obtain ⟨before', heq⟩ := h'
  rw [positionOf_append, ← heq, positionOf_append]
  exact earlier_of_length_lt heq.symm hlt

end Reading

/-! ## Stages that are completed -/

namespace Rendering

open SeriesQuery.Reading (StageFits)

/-- A stage stands at the front of a text, behind blanks. -/
def StageAt (s m : List Char) : Prop :=
  ∃ bound body ts, StageFits bound body ∧ StageForm bound body ts ∧ Laid ts s m

/-- A text begins with a stage that is completed: by a semicolon, or by the end of the
text. -/
def Completed (s : List Char) : Prop :=
  ∃ m, StageAt s m ∧ (Gap m [] ∨ ∃ r, Laid [sign ';'] m r)

/-- From a text some stages lead to a rest of it, each with the semicolon that completes
it. -/
inductive Leads : List Char → List Char → Prop
  | refl (s : List Char) : Leads s s
  | stage {s m r t : List Char} : StageAt s m → Laid [sign ';'] m r →
      Leads r t → Leads s t

private theorem Leads.suffix {s t : List Char} (h : Leads s t) : t <:+ s := by
  induction h with
  | refl s => exact List.suffix_rfl
  | stage hstage semicolon _ ih =>
    obtain ⟨bound, body, ts, -, -, laid⟩ := hstage
    exact ih.trans (semicolon.suffix.trans laid.suffix)

/-- The first stage of a text that is not completed begins the rest: every other rest
that stages lead to leads on to this one. -/
structure OpenAt (s t : List Char) : Prop where
  leads : Leads s t
  incomplete : ¬ Completed t
  first : ∀ u, Leads s u → Leads u t

end Rendering

namespace Reading

open SeriesQuery.Rendering
open Rule

variable {source s t u m m' r r' : List Char} {f : Fault}

/-- A stage that a semicolon or the end completes is read. -/
theorem stage_of_stageAt (h : StageAt s m) (follows : Follows [';'] m) :
    ∃ p, stage (s.dropWhile isBlank) = .took p m := by
  obtain ⟨bound, body, ts, fits, form, laid⟩ := h
  exact ⟨(bound, body), stage_reads.complete ⟨fits, form⟩ laid follows⟩

private theorem stageAt_of_stage {p : Option String × StageBody}
    (h : stage (s.dropWhile isBlank) = .took p m) : StageAt s m := by
  obtain ⟨ts, ⟨fits, form⟩, laid⟩ := stage_reads.sound h
  exact ⟨p.1, p.2, ts, fits, form, laid⟩

private theorem follows_of_completed (h : Gap m [] ∨ ∃ r, Laid [sign ';'] m r) :
    Follows [';'] m := by
  rcases h with hend | ⟨r, semicolon⟩
  · exact follows_of_gap hend
  · exact follows_of_sign semicolon (by decide) (by decide)

/-- What a completed stage leaves is told by the text. -/
theorem stageAt_unique (h : StageAt s m) (h' : StageAt s m') (follows : Follows [';'] m)
    (follows' : Follows [';'] m') : m = m' := by
  obtain ⟨p, hp⟩ := stage_of_stageAt h follows
  obtain ⟨p', hp'⟩ := stage_of_stageAt h' follows'
  rw [hp] at hp'
  exact (Step.took.inj hp').2

private theorem semicolon_unique (h : Laid [sign ';'] m r) (h' : Laid [sign ';'] m r') :
    r = r' := by
  have hsolid : (sign ';').Solid := sign_solid (by decide)
  have heq :=
    ((Lexeme.laid_iff hsolid).1 h).1.symm.trans ((Lexeme.laid_iff hsolid).1 h').1
  exact List.append_cancel_left heq

/-- Completed stages lead one way only. -/
theorem leads_of_leads (hu : Leads s u) (ht : Leads s t) (incomplete : ¬ Completed t) :
    Leads u t := by
  induction hu with
  | refl s => exact ht
  | @stage s m r u hstage semicolon _ ih =>
    cases ht with
    | refl => exact absurd ⟨m, hstage, .inr ⟨r, semicolon⟩⟩ incomplete
    | @stage _ m' r' _ hstage' semicolon' ht =>
      obtain rfl : m = m' := stageAt_unique hstage hstage'
        (follows_of_completed (.inr ⟨r, semicolon⟩))
        (follows_of_completed (.inr ⟨r', semicolon'⟩))
      obtain rfl := semicolon_unique semicolon semicolon'
      exact ih ht

/-! ## Where reading stops -/

/-- Without a stage in front nothing is completed. -/
theorem not_completed_of_stage (h : ∀ p m, stage (s.dropWhile isBlank) ≠ .took p m) :
    ¬ Completed s := by
  rintro ⟨m, hstage, done⟩
  obtain ⟨p, hp⟩ := stage_of_stageAt hstage (follows_of_completed done)
  exact h p m hp

/-- A stage behind which neither the end nor a semicolon stands is not completed. -/
theorem not_completed_of_separator {p : Option String × StageBody}
    (hstage : stage (s.dropWhile isBlank) = .took p m) (more : ¬ Gap m [])
    (h : ∀ u r, separator (m.dropWhile isBlank) ≠ .took u r) : ¬ Completed s := by
  rintro ⟨m', hstage', done⟩
  obtain ⟨p', hp'⟩ := stage_of_stageAt hstage' (follows_of_completed done)
  rw [hstage] at hp'
  obtain rfl := (Step.took.inj hp').2
  rcases done with gap | ⟨r, semicolon⟩
  · exact more gap
  · exact h () _ (separator_took.2 ⟨r, semicolon, rfl⟩)

/-- Reading the stages stops inside the first one that is not completed. -/
theorem stages_open (h : ∀ sts r, stages source (s.dropWhile isBlank) ≠ .took sts r) :
    ∃ t, Leads s t ∧ ¬ Completed t ∧
      (stages source (s.dropWhile isBlank)).rest <:+ t.dropWhile isBlank := by
  induction n : s.length using Nat.strong_induction_on generalizing s with
  | h n ih =>
    subst n
    rw [stages] at h ⊢
    cases hstage : stage (s.dropWhile isBlank) with
    | declined e =>
      have incomplete : ¬ Completed s := not_completed_of_stage (by simp [hstage])
      exact ⟨s, .refl s, incomplete, built_stage.inward.declined hstage⟩
    | failed e =>
      have incomplete : ¬ Completed s := not_completed_of_stage (by simp [hstage])
      exact ⟨s, .refl s, incomplete, built_stage.inward.failed hstage⟩
    | took p m =>
      simp only [hstage] at h ⊢
      have hat := stageAt_of_stage hstage
      have onward : m.dropWhile isBlank <:+ s.dropWhile isBlank :=
        (List.dropWhile_suffix isBlank).trans (built_stage.inward.took hstage)
      by_cases hend : (m.dropWhile isBlank).isEmpty = true
      case pos =>
        rw [if_pos hend] at h
        exact absurd rfl (h _ _)
      case neg =>
        have more : ¬ Gap m [] := fun gap => hend (by simp [gap_nil_iff.1 gap])
        rw [if_neg hend] at h ⊢
        cases hsep : separator (m.dropWhile isBlank) with
        | declined e =>
          have incomplete : ¬ Completed s :=
            not_completed_of_separator hstage more (by simp [hsep])
          exact ⟨s, .refl s, incomplete,
            (built_separator.inward.declined hsep).trans onward⟩
        | failed e =>
          have incomplete : ¬ Completed s :=
            not_completed_of_separator hstage more (by simp [hsep])
          exact ⟨s, .refl s, incomplete,
            (built_separator.inward.failed hsep).trans onward⟩
        | took u r' =>
          obtain ⟨r, semicolon, rfl⟩ := separator_took.1 hsep
          simp only [hsep] at h ⊢
          have behind : r.length < (s.dropWhile isBlank).length :=
            (semicolon.length_lt (sign_solid (by decide))).trans_le onward.length_le
          have shorter : (r.dropWhile isBlank).length < (s.dropWhile isBlank).length :=
            (List.length_dropWhile_le isBlank r).trans_lt behind
          by_cases hlast : (r.dropWhile isBlank).isEmpty = true
          case pos =>
            rw [if_pos hlast] at h
            exact absurd rfl (h _ _)
          case neg =>
            rw [if_neg hlast, dif_pos shorter] at h ⊢
            have hmore :
                ∀ sts r', stages source (r.dropWhile isBlank) ≠ .took sts r' := by
              intro sts r' heq
              rw [heq] at h
              exact absurd rfl (h _ _)
            have smaller := behind.trans_le (List.length_dropWhile_le isBlank s)
            obtain ⟨t, leads, incomplete, hrest⟩ := ih r.length smaller hmore rfl
            refine ⟨t, .stage hat semicolon leads, incomplete, ?_⟩
            cases heq : stages source (r.dropWhile isBlank) with
            | took sts r' => exact absurd heq (hmore sts r')
            | declined e => rwa [heq] at hrest
            | failed e => rwa [heq] at hrest

end Reading

open Rendering Reading

/-- **Problems point into the right stage.**  A text that is no statement has one
problem.  Its place is one of the text, and it is where the first stage that is not
completed begins, or later.  For the rule for stages is put together from rules that
stop inside the text that they were given, and places grow along a text. -/
theorem Statement.problem_in_open_stage {text : String} {p : SyntaxProblem}
    (h : Statement.parse text = .error p) :
    (∀ combiners now, planText combiners now text = .error (.unreadable [p])) ∧
      p.position.Within text.toList ∧
      (∃ t rest, OpenAt text.toList t ∧ rest <:+ t.dropWhile isBlank ∧
        p.position = positionOf text.toList rest ∧
          (p.position = positionOf text.toList (t.dropWhile isBlank) ∨
            Earlier (positionOf text.toList (t.dropWhile isBlank)) p.position)) ∧
      (Reading.stages text.toList).Built ∧
      (∀ {α : Type} (q : Rule α), q.Built → ∀ s, (q s).rest <:+ s) ∧
      ∀ r s, r <:+ text.toList → s <:+ text.toList → s.length < r.length →
        Earlier (positionOf text.toList r) (positionOf text.toList s) := by
  obtain ⟨f, hf, rfl⟩ := exists_fault_of_parse h
  have hstop : ∀ sts r,
      Reading.stages text.toList (text.toList.dropWhile isBlank) ≠ .took sts r := by
    rcases hf with hf | hf <;> simp [hf]
  have hrest :
      (Reading.stages text.toList (text.toList.dropWhile isBlank)).rest = f.rest := by
    rcases hf with hf | hf <;> rw [hf] <;> rfl
  obtain ⟨t, leads, incomplete, hsuffix⟩ := stages_open hstop
  rw [hrest] at hsuffix
  have hopen : OpenAt text.toList t :=
    ⟨leads, incomplete, fun u hu => leads_of_leads hu leads incomplete⟩
  have hstart : t.dropWhile isBlank <:+ text.toList :=
    (List.dropWhile_suffix isBlank).trans leads.suffix
  have hplace : positionOf text.toList f.rest =
      positionOf text.toList (t.dropWhile isBlank) ∨
      Earlier (positionOf text.toList (t.dropWhile isBlank))
      (positionOf text.toList f.rest) := by
    rcases hsuffix.length_le.lt_or_eq with hlt | heq
    · exact .inr (earlier_of_suffix hstart (hsuffix.trans hstart) hlt)
    · rw [hsuffix.eq_of_length heq]
      exact .inl rfl
  refine ⟨fun combiners now => ?_, positionOf_within (hsuffix.trans hstart),
    ⟨t, f.rest, hopen, hsuffix, rfl, hplace⟩, built_stages text.toList,
    fun q hq => hq.inward, fun r s => earlier_of_suffix⟩
  rw [planText, h]
  rfl

/-- The first stage of a text is completed; the problem lies in the second one, on the
second line. -/
theorem Statement.problem_in_second_stage :
    Statement.parse "max();\n min(of)" =
        .error ⟨⟨2, 8⟩, "expected a stage name or '(' after 'of'"⟩ ∧
      Position.Within "max();\n min(of)".toList ⟨2, 8⟩ ∧
      ∃ t rest, OpenAt "max();\n min(of)".toList t ∧ Leads "\n min(of)".toList t ∧
        rest <:+ t.dropWhile isBlank ∧
        (⟨2, 8⟩ : Position) = positionOf "max();\n min(of)".toList rest := by
  have first : stage "max();\n min(of)".toList =
      .took (none, .aggregate ⟨"max", none, []⟩) ";\n min(of)".toList := rfl
  have second : stage "min(of)".toList = .failed ⟨[')'], .expected .source⟩ := rfl
  have between : separator ";\n min(of)".toList = .took () "min(of)".toList := rfl
  have start : "max();\n min(of)".toList.dropWhile isBlank =
      "max();\n min(of)".toList := rfl
  have later : ";\n min(of)".toList.dropWhile isBlank = ";\n min(of)".toList := rfl
  have failed : Statement.parse "max();\n min(of)" =
      .error ⟨⟨2, 8⟩, "expected a stage name or '(' after 'of'"⟩ := by
    have rest : Reading.stages "max();\n min(of)".toList "min(of)".toList =
        .failed ⟨[')'], .expected .source⟩ := by rw [Reading.stages, second]
    rw [Statement.parse]
    simp only [start]
    rw [Reading.stages, first]
    simp only [later]
    rw [if_neg (by decide), between]
    simp only
    rw [if_neg (by decide), dif_pos (by decide), rest]
    rfl
  have hstage : StageAt "max();\n min(of)".toList ";\n min(of)".toList :=
    stageAt_of_stage (by rw [start]; exact first)
  have semicolon : Laid [sign ';'] ";\n min(of)".toList "\n min(of)".toList :=
    .cons ⟨[], by simp, rfl⟩ ⟨rfl, by simp [sign]⟩ (.nil _)
  obtain ⟨-, within, ⟨t, rest, hopen, hsuffix, hplace, -⟩, -, -, -⟩ :=
    Statement.problem_in_open_stage failed
  exact ⟨failed, within, t, rest, hopen,
    hopen.first _ (.stage hstage semicolon (.refl _)), hsuffix, hplace⟩

end SeriesQuery
