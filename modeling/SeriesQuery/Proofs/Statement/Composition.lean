import SeriesQuery.Proofs.Statement.Onward
import SeriesQuery.Proofs.Statement.Parsing

/-!
# Parsing part by part

Two texts with a semicolon between them are parsed as the one and then the other.  The
stages of the first stay at their places.  What is said about the second, its stages or
its fault, moves past all that stands before it: down by the lines, and to the right if
it is on the first line.

## Main results

* `after_append`, `positionOf_past`: how places move when more stands before a text.
* `stages_past`: the stages of a text move when more stands before it.
* `parse_append`: texts with a semicolon between them are parsed part by part.
-/

namespace SeriesQuery

open SeriesQuery.Text (isBlank)

/-! ## Places behind other text -/

/-- The place at which a place in a text comes to stand when more text is put before
it. -/
def Position.past (before : List Char) (p : Position) : Position where
  line := p.line + before.count '\n'
  column :=
    if p.line = 1 then p.column + (before.reverse.takeWhile (· != '\n')).length
    else p.column

/-- A stage when more text is put before it. -/
def Stage.past (before : List Char) (st : Stage) : Stage :=
  { st with position := st.position.past before }

/-- A problem when more text is put before its place. -/
def SyntaxProblem.past (before : List Char) (p : SyntaxProblem) : SyntaxProblem :=
  { p with position := p.position.past before }

/-- Text before another one moves the places behind it. -/
theorem Position.after_append (before consumed : List Char) :
    Position.after (before ++ consumed) = (Position.after consumed).past before := by
  have lines : (before ++ consumed).count '\n' =
      before.count '\n' + consumed.count '\n' :=
    List.count_append
  by_cases here : '\n' ∈ consumed
  · -- the last line begins in the text behind
    have later : consumed.count '\n' + 1 ≠ 1 := by
      have some := List.count_pos_iff.2 here
      omega
    have stops : (consumed.reverse.takeWhile (· != '\n')).length ≠
        consumed.reverse.length := by
      intro all
      have whole := (List.takeWhile_prefix (· != '\n')).eq_of_length all
      have free := List.takeWhile_eq_self_iff.1 whole '\n' (List.mem_reverse.2 here)
      exact absurd free (by decide)
    simp only [Position.after, Position.past, lines, List.reverse_append,
      List.takeWhile_append, if_neg stops]
    congr 1
    · omega
    · exact (if_neg later).symm
  · -- the last line goes on with the text behind
    have none : consumed.count '\n' = 0 := List.count_eq_zero.2 here
    have whole : consumed.reverse.takeWhile (· != '\n') = consumed.reverse := by
      refine List.takeWhile_eq_self_iff.2 fun c hc => ?_
      simpa using fun heq : c = '\n' => here (heq ▸ List.mem_reverse.1 hc)
    simp only [Position.after, Position.past, lines, List.reverse_append,
      List.takeWhile_append, whole, none, if_true, List.length_append]
    congr 1
    · omega
    · omega

namespace Reading

open Rule

variable {source before rest s r : List Char}

theorem positionOf_past (h : rest.length ≤ source.length) :
    positionOf (before ++ source) rest = (positionOf source rest).past before := by
  have hlength : (before ++ source).length - rest.length =
      before.length + (source.length - rest.length) := by
    rw [List.length_append]
    omega
  rw [positionOf, positionOf, hlength, List.take_length_add_append,
    Position.after_append]

private theorem Fault.problem_past {f : Fault} (h : f.rest.length ≤ source.length) :
    f.problem (before ++ source) = (f.problem source).past before := by
  rw [Fault.problem, positionOf_past h]
  rfl

/-- The stages of a text move when more stands before it. -/
theorem stages_past (h : s.length ≤ source.length) :
    stages (before ++ source) s =
      (stages source s).map (List.map (Stage.past before)) := by
  induction n : s.length using Nat.strong_induction_on generalizing s with
  | h n ih =>
    subst n
    rw [stages.eq_1 (before ++ source), stages.eq_1 source, positionOf_past h]
    cases stage s with
    | declined e => rfl
    | failed e => rfl
    | took p r =>
      obtain ⟨bound, body⟩ := p
      simp only
      split
      case isTrue => rfl
      case isFalse =>
        cases separator (r.dropWhile isBlank) with
        | declined e => rfl
        | failed e => rfl
        | took u r' =>
          simp only
          split
          case isTrue => rfl
          case isFalse =>
            split
            case isTrue shorter =>
              rw [ih r'.length shorter (by omega) rfl]
              cases stages source r' <;> rfl
            case isFalse => rfl

end Reading

/-- **Parsing part by part.**  Behind a text that is parsed and a semicolon another text
is parsed as it is by itself, and what comes of it moves past them. -/
theorem Statement.parse_append {first second : String} {s : Statement}
    (parsed : Statement.parse first = .ok s)
    (last : Rendering.lastInk? first.toList ≠ some ';')
    (more : ∃ c ∈ second.toList, isBlank c = false) :
    Statement.parse (first ++ ";" ++ second) =
      match Statement.parse second with
      | .ok t => .ok ⟨s.stages ++ t.stages.map (Stage.past (first ++ ";").toList)⟩
      | .error e => .error (e.past (first ++ ";").toList) := by
  have front : (first ++ ";").toList = first.toList ++ [';'] := String.toList_append
  have chars : (first ++ ";" ++ second).toList =
      first.toList ++ ';' :: second.toList := by
    rw [String.toList_append, front, List.append_assoc]
    rfl
  have split : first.toList ++ ';' :: second.toList =
      (first ++ ";").toList ++ second.toList := by
    rw [← chars, String.toList_append]
  have ink : second.toList.dropWhile isBlank ≠ [] := by
    intro none
    obtain ⟨c, hc, hblank⟩ := more
    exact absurd (List.dropWhile_eq_nil_iff.1 none c hc) (by simp [hblank])
  obtain ⟨r, read⟩ := Rendering.parse_eq_ok_iff.1 parsed
  obtain ⟨fits, form⟩ := Reading.stages_sound read
  have within := (List.dropWhile_suffix isBlank (l := second.toList)).length_le
  have onward := Reading.stages_onward form fits List.suffix_rfl last ink
  rw [split, Reading.stages_past within, ← split] at onward
  have inward :=
    (Reading.built_stages second.toList).inward (second.toList.dropWhile isBlank)
  unfold Statement.parse
  simp only [chars]
  rw [onward, split]
  cases h : Reading.stages second.toList (second.toList.dropWhile isBlank) with
  | took sts r' => rfl
  | declined e =>
    rw [h] at inward
    exact congrArg Except.error
      (Reading.Fault.problem_past (inward.length_le.trans within))
  | failed e =>
    rw [h] at inward
    exact congrArg Except.error
      (Reading.Fault.problem_past (inward.length_le.trans within))

/-- On the first line behind the semicolon a stage moves to the right, on the next one
it does not. -/
theorem Statement.parse_append_twice :
    Statement.parse "select cpu" =
      .ok ⟨[⟨none, .select ⟨"cpu", none, [], []⟩, ⟨1, 1⟩⟩]⟩ ∧
      Statement.parse ("select cpu" ++ ";" ++ " max();\n min()") =
        .ok ⟨[⟨none, .select ⟨"cpu", none, [], []⟩, ⟨1, 1⟩⟩,
          ⟨none, .aggregate ⟨"max", none, []⟩, ⟨1, 13⟩⟩,
          ⟨none, .aggregate ⟨"min", none, []⟩, ⟨2, 2⟩⟩]⟩ := by
  -- Reading recurs on the length of what is left, so only full unfolding computes it.
  have first : Statement.parse "select cpu" =
      .ok ⟨[⟨none, .select ⟨"cpu", none, [], []⟩, ⟨1, 1⟩⟩]⟩ := by
    with_unfolding_all rfl
  have second : Statement.parse " max();\n min()" =
      .ok ⟨[⟨none, .aggregate ⟨"max", none, []⟩, ⟨1, 2⟩⟩,
        ⟨none, .aggregate ⟨"min", none, []⟩, ⟨2, 2⟩⟩]⟩ := by
    with_unfolding_all rfl
  have ink : 'm' ∈ " max();\n min()".toList ∧ isBlank 'm' = false := by decide
  refine ⟨first, (Statement.parse_append first (by decide) ⟨'m', ink⟩).trans ?_⟩
  rw [second]
  rfl

end SeriesQuery
