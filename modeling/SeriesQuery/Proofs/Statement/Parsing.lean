import SeriesQuery.Proofs.Statement.Stages

/-!
# Parsing and rendering

A statement is parsed from exactly the texts that write it.  The parser takes every text
that lays out the lexemes of a well-formed statement, whatever the layout, and it takes
no other text: what it gives back is well formed and written in the whole of the text.

## Main results

* `parse_rendering`: every rendering of a well-formed statement is parsed as that
  statement.
* `parse_sound`: a text that is parsed is a rendering of what it is parsed as.
-/

namespace SeriesQuery.Rendering

open SeriesQuery.Text (isBlank)
open SeriesQuery.Reading

/-! ## Places -/

/-- What is earlier than something earlier is earlier. -/
private theorem Earlier.trans {p q t : Position} (h : Earlier p q) (h' : Earlier q t) :
    Earlier p t := by
  unfold Earlier at *
  omega

/-- One character further on is later. -/
private theorem earlier_snoc (before : List Char) (c : Char) :
    Earlier (Position.after before) (Position.after (before ++ [c])) := by
  by_cases h : c = '\n'
  · subst h
    exact .inl (by simp [Position.after])
  · exact .inr (by simp [Position.after, h])

/-- A place is later than another one if more stands before it. -/
private theorem earlier_append {before more : List Char} (ne : more ≠ []) :
    Earlier (Position.after before) (Position.after (before ++ more)) := by
  induction more generalizing before with
  | nil => exact absurd rfl ne
  | cons c more ih =>
    rw [List.append_cons]
    cases more with
    | nil => simpa using earlier_snoc before c
    | cons d more => exact (earlier_snoc before c).trans (ih (List.cons_ne_nil d more))

/-- Of two places in one text the one with less text behind it is later. -/
theorem earlier_of_length_lt {before before' rest rest' : List Char}
    (same : before ++ rest = before' ++ rest') (h : rest'.length < rest.length) :
    Earlier (Position.after before) (Position.after before') := by
  have lengths := congrArg List.length same
  simp only [List.length_append] at lengths
  obtain ⟨more, rfl⟩ : before <+: before' :=
    List.prefix_of_prefix_length_le ⟨rest, same⟩ ⟨rest', rfl⟩ (by omega)
  refine earlier_append fun none => ?_
  simp only [none, List.append_nil] at lengths
  omega

/-- The place of a rest is the place after what stands before it. -/
theorem positionOf_append (before rest : List Char) :
    positionOf (before ++ rest) rest = Position.after before := by
  simp [positionOf]

/-- A place of the source at which a rest of it holds a character that is no blank. -/
def MarksIn (source s : List Char) (p : Position) : Prop :=
  ∃ before c rest, source = before ++ c :: rest ∧ isBlank c = false ∧
    p = Position.after before ∧ (c :: rest) <:+ s

/-- A stage is marked by its first word, which stands where the blanks end. -/
theorem stage_place {source s m : List Char} {st : Stage} {ts : List Lexeme}
    (fits : StageFits st.binding st.body) (form : StageForm st.binding st.body ts)
    (laid : Laid ts s m) (place : st.position = positionOf source (s.dropWhile isBlank))
    (suffix : s <:+ source) :
    ∃ before c rest, source = before ++ c :: rest ∧ isBlank c = false ∧
      st.position = Position.after before ∧ s.dropWhile isBlank = c :: rest := by
  obtain ⟨w, ls, rfl, isWord⟩ := stage_first fits form
  obtain ⟨c, head, hc⟩ := word_head isWord laid
  obtain ⟨rest, hrest⟩ := List.head?_eq_some_iff.1 head
  obtain ⟨before, hbefore⟩ := (List.dropWhile_suffix isBlank).trans suffix
  rw [hrest] at hbefore place
  refine ⟨before, c, rest, hbefore.symm, isBlank_eq_false hc (by decide), ?_, hrest⟩
  rw [place, ← hbefore, positionOf_append]

/-- Stages begin where their first words stand, each later than the one before. -/
theorem stages_places {source s : List Char} {sts : List Stage}
    (form : StagesForm source sts s) (fits : ∀ st ∈ sts, StageFits st.binding st.body)
    (suffix : s <:+ source) :
    (∀ st ∈ sts, MarksIn source s st.position) ∧
      (sts.map Stage.position).Pairwise Earlier := by
  induction form with
  | @last st ts s m form laid place _ =>
    obtain ⟨before, c, rest, hbefore, hc, hp, hs⟩ :=
      stage_place (fits _ List.mem_cons_self) form laid place suffix
    have marks : MarksIn source s st.position :=
      ⟨before, c, rest, hbefore, hc, hp, hs ▸ List.dropWhile_suffix isBlank⟩
    exact ⟨by simpa using marks, by simp⟩
  | @more st sts ts s m r form laid place semicolon rest ih =>
    have onward : r <:+ s := semicolon.suffix.trans laid.suffix
    obtain ⟨marks, ordered⟩ :=
      ih (fun st hst => fits st (List.mem_cons_of_mem _ hst)) (onward.trans suffix)
    obtain ⟨before, c, rest, hbefore, hc, hp, hs⟩ :=
      stage_place (fits _ List.mem_cons_self) form laid place suffix
    refine ⟨List.forall_mem_cons.2 ⟨?_, fun st' hst' => ?_⟩,
      List.pairwise_cons.2 ⟨List.forall_mem_map.2 fun st' hst' => ?_, ordered⟩⟩
    · exact ⟨before, c, rest, hbefore, hc, hp, hs ▸ List.dropWhile_suffix isBlank⟩
    · obtain ⟨before', c', rest', hbefore', hc', hp', hr'⟩ := marks st' hst'
      exact ⟨before', c', rest', hbefore', hc', hp', hr'.trans onward⟩
    · obtain ⟨before', c', rest', hbefore', -, hp', hr'⟩ := marks st' hst'
      obtain ⟨w, ls, rfl, isWord⟩ := stage_first (fits _ List.mem_cons_self) form
      have shorter := laid.length_lt isWord.solid
      have := semicolon.suffix.length_le
      have := hr'.length_le
      rw [hs] at shorter
      rw [hp, hp']
      exact earlier_of_length_lt (hbefore.symm.trans hbefore') (by omega)

/-! ## Statements -/

/-- The demands on a statement are demands on its stages. -/
private theorem wellFormed_iff {s : Statement} :
    WellFormed s ↔ s.stages ≠ [] ∧ ∀ st ∈ s.stages, StageFits st.binding st.body := by
  constructor
  case mp =>
    exact fun h => ⟨h.nonempty, fun st hst => ⟨h.bindings st hst, h.bodies st hst⟩⟩
  case mpr =>
    exact fun ⟨h, fits⟩ =>
      ⟨h, fun st hst => (fits st hst).1, fun st hst => (fits st hst).2⟩

/-- A text is parsed if its stages are read. -/
theorem parse_eq_ok_iff {text : String} {s : Statement} :
    Statement.parse text = .ok s ↔
      ∃ r, stages text.toList (text.toList.dropWhile isBlank) = .took s.stages r := by
  obtain ⟨sts⟩ := s
  rw [Statement.parse]
  cases stages text.toList (text.toList.dropWhile isBlank) <;> simp

/-- The problem of a text is where the reading of its stages stopped. -/
theorem exists_fault_of_parse {text : String} {p : SyntaxProblem}
    (h : Statement.parse text = .error p) :
    ∃ f, (stages text.toList (text.toList.dropWhile isBlank) = .declined f ∨
      stages text.toList (text.toList.dropWhile isBlank) = .failed f) ∧
        p = f.problem text.toList := by
  rw [Statement.parse] at h
  cases hs : stages text.toList (text.toList.dropWhile isBlank) with
  | took sts r => simp [hs] at h
  | declined f =>
    simp only [hs] at h
    exact ⟨f, .inl rfl, (Except.error.inj h).symm⟩
  | failed f =>
    simp only [hs] at h
    exact ⟨f, .inr rfl, (Except.error.inj h).symm⟩

/-- A lexeme at the front of a text, behind blanks. -/
private theorem laid_next {g cs m r : List Char} {joins : Char → Bool}
    {ls : List Lexeme} (blank : g.all isBlank = true)
    (stop : m.head?.all (fun c => !joins c) = true) (rest : Laid ls m r) :
    Laid (⟨cs, joins⟩ :: ls) (g ++ (cs ++ m)) r := by
  refine .cons ⟨g, by simpa using blank, rfl⟩ ⟨rfl, fun c hc => ?_⟩ rest
  rw [Option.mem_def.1 hc] at stop
  simpa using stop

/-- A metric since two hours ago, and its greatest value. -/
def peak : Statement := ⟨[
  ⟨some "a", .select ⟨"cpu", some ⟨.ago 2 .hour, none⟩, [], []⟩, ⟨1, 1⟩⟩,
  ⟨none, .aggregate ⟨"max", some ["a"], []⟩, ⟨2, 2⟩⟩]⟩

/-- It can be written. -/
theorem peak_wellFormed : WellFormed peak where
  nonempty := by simp [peak]
  bindings := by
    simp only [peak, List.mem_cons, List.not_mem_nil, or_false]
    rintro st (rfl | rfl) w ⟨⟩
    exact spells_of_all (by decide) (by decide)
  bodies := by
    simp only [peak, List.mem_cons, List.not_mem_nil, or_false]
    rintro st (rfl | rfl)
    · refine ⟨?_, by rintro _ ⟨⟩ _ ⟨⟩, by rintro _ ⟨⟩⟩
      rintro _ ⟨⟩
      show 2 < Nat.pow 2 32
      decide
    · refine ⟨spells_of_all (by decide) (by decide), rfl, by decide, ?_, by rintro _ ⟨⟩,
        by rintro _ ⟨⟩, by rintro ⟨⟩⟩
      rintro _ ⟨⟩
      refine ⟨by decide, fun w hw => ?_⟩
      obtain rfl := List.mem_singleton.1 hw
      exact spells_of_all (by decide) (by decide)

/-- Keywords, the unit and the name of the aggregation may be capitals, blanks may be
missing. -/
theorem peak_renders : Renders peak "a= SELECT cpu From 2H ago;\n Max(of a) ; " := by
  have keyword {cs : List Char} {w : String} (h : cs.map Char.toLower = w.toList) :
      Keyword w (plain cs) := .intro h
  have ago : MomentForm (.ago 2 .hour) [⟨['2'], Char.isDigit⟩, ⟨['H'], Char.isAlpha⟩,
      plain "ago".toList] :=
    .ago (show Amount (Decimal.natOfDigits ['2']) _ from .intro ⟨by decide, by simp⟩)
      (.intro (show "h" ∈ TimeUnit.hour.words by decide)
        (show SameLetters ['H'] "h" from rfl))
      (keyword rfl)
  have clause : ClauseForm (.range ⟨.ago 2 .hour, none⟩) (plain "From".toList :: _) :=
    .range (keyword rfl) (.since ago)
  have select : SelectForm ⟨"cpu", some ⟨.ago 2 .hour, none⟩, [], []⟩
      (plain "SELECT".toList :: ([⟨"cpu".toList, isNameChar⟩] ++ _)) :=
    .intro (keyword rfl) (.bare (spells_of_all (by decide) (by decide))) (.refl _)
      (.cons clause .nil)
  have max : AggregationForm ⟨"max", some ["a"], []⟩
      (plain "Max".toList :: sign '(' ::
        ([plain "of".toList, plain "a".toList] ++ [] ++ _)) :=
    .intro (show SameLetters "Max".toList "max" from rfl)
      (.single (keyword rfl) (.intro "a")) (.after .nil)
  have chars : "a= SELECT cpu From 2H ago;\n Max(of a) ; ".toList =
      [] ++ ("a".toList ++ ([] ++ (['='] ++ ([' '] ++ ("SELECT".toList ++ ([' '] ++
      ("cpu".toList ++ ([' '] ++ ("From".toList ++ ([' '] ++ (['2'] ++ ([] ++ (['H'] ++
      ([' '] ++ ("ago".toList ++ ([] ++ ([';'] ++ (['\n', ' '] ++ ("Max".toList ++
      ([] ++ (['('] ++ ([] ++ ("of".toList ++ ([' '] ++ ("a".toList ++ ([] ++ ([')'] ++
      ([' '] ++ ([';'] ++ [' ']))))))))))))))))))))))))))))) := by decide
  rw [Renders, chars]
  exact .more (.bound (.intro "a") (.select select))
    (laid_next rfl rfl (laid_next rfl rfl (laid_next rfl rfl (laid_next rfl rfl
      (laid_next rfl rfl (laid_next rfl rfl (laid_next rfl rfl (laid_next rfl rfl
      (.nil _)))))))))
    (by decide) (laid_next rfl rfl (.nil _))
    (.last (.unbound (.aggregate max))
      (laid_next rfl rfl (laid_next rfl rfl (laid_next rfl rfl (laid_next rfl rfl
        (laid_next rfl rfl (.nil _))))))
      (by decide)
      (.semicolon (laid_next rfl rfl (.nil _)) ⟨[' '], by simp [isBlank], rfl⟩))

/-- Every text that writes a well-formed statement is parsed as that statement. -/
theorem parse_rendering {s : Statement} {text : String} (wellFormed : WellFormed s)
    (renders : Renders s text) : Statement.parse text = .ok s :=
  parse_eq_ok_iff.2 ⟨[], stages_complete (wellFormed_iff.1 wellFormed).2 renders⟩

/-- The statement above is parsed from its rendering. -/
theorem parse_rendering_peak :
    WellFormed peak ∧ Renders peak "a= SELECT cpu From 2H ago;\n Max(of a) ; " ∧
      Statement.parse "a= SELECT cpu From 2H ago;\n Max(of a) ; " = .ok peak :=
  ⟨peak_wellFormed, peak_renders, parse_rendering peak_wellFormed peak_renders⟩

/-- A text that is parsed writes the statement that it is parsed as, which is well
formed; its stages stand one after the other, each at a character that is no blank. -/
theorem parse_sound {s : Statement} {text : String}
    (parsed : Statement.parse text = .ok s) :
    WellFormed s ∧ Renders s text ∧ (∀ st ∈ s.stages, Marks text.toList st.position) ∧
      (s.stages.map Stage.position).Pairwise Earlier := by
  obtain ⟨r, read⟩ := parse_eq_ok_iff.1 parsed
  obtain ⟨fits, form⟩ := stages_sound read
  have nonempty : s.stages ≠ [] := by
    obtain ⟨sts⟩ := s
    cases form <;> simp
  obtain ⟨marks, ordered⟩ := stages_places form fits List.suffix_rfl
  refine ⟨wellFormed_iff.2 ⟨nonempty, fits⟩, form, fun st hst => ?_, ordered⟩
  obtain ⟨before, c, rest, hbefore, hc, hp, -⟩ := marks st hst
  exact ⟨before, c, rest, hbefore, hc, hp⟩

/-- The statement above stands at two places of its rendering. -/
theorem parse_sound_peak :
    Statement.parse "a= SELECT cpu From 2H ago;\n Max(of a) ; " = .ok peak ∧
      WellFormed peak ∧ (peak.stages.map Stage.position).Pairwise Earlier := by
  have parsed :
      Statement.parse "a= SELECT cpu From 2H ago;\n Max(of a) ; " = .ok peak :=
    parse_eq_ok_iff.2 ⟨[],
      stages_complete (wellFormed_iff.1 peak_wellFormed).2 peak_renders⟩
  obtain ⟨wellFormed, -, -, ordered⟩ := parse_sound parsed
  exact ⟨parsed, wellFormed, ordered⟩

end SeriesQuery.Rendering
