import SeriesQuery.Proofs.Statement.Reasons

/-!
# Quoted texts are decoded exactly

A quoted text is gone through twice, first for the quote that closes it and then for its
escapes.  Both times a backslash takes the character after it along, so both agree on
where the body ends.  Whatever stands between the quotes is a way of writing the value,
every way of writing it is read, and there are two faults only: the body is not closed,
or one of its escapes is none.

## Main results

* `quotedText_cons_failed`: the faults of a text that begins with a quote.
* `quotedString_exact`: what is read, and why reading fails.
-/

namespace SeriesQuery.Reading

open SeriesQuery.Rendering
open Rule

variable {q : Char} {s : List Char} {f : Fault}

/-- The letters that may stand behind a backslash, each with what it stands for
there. -/
def escapes : List (Char × Char) :=
  [('\\', '\\'), ('b', '\x08'), ('n', '\n'), ('t', '\t'), ('r', '\r'), ('f', '\x0c'),
    ('\'', '\''), ('"', '"')]

private theorem escapeLetter?_eq_some {c d : Char} : escapeLetter? c = some d ↔
    (c, d) ∈ escapes := by
  constructor
  case mp =>
    intro h
    unfold escapeLetter? at h
    repeat' split at h
    all_goals cases h
    all_goals
      subst_vars
      decide
  case mpr =>
    intro h
    simp only [escapes, List.mem_cons, Prod.mk.injEq, List.not_mem_nil, or_false] at h
    rcases h with ⟨rfl, rfl⟩ | ⟨rfl, rfl⟩ | ⟨rfl, rfl⟩ | ⟨rfl, rfl⟩ |
      ⟨rfl, rfl⟩ | ⟨rfl, rfl⟩ | ⟨rfl, rfl⟩ | ⟨rfl, rfl⟩ <;> rfl

/-- What is wrong behind an opening quote: the body is not closed, or it is, and then
the first escape that is none tells. -/
inductive QuotedFault (q : Char) (s : List Char) : Fault → Prop
  | unterminated : (∀ body r, Scanned q body → s ≠ body ++ q :: r) →
      QuotedFault q s ⟨q :: s, .unterminated⟩
  | escape {before value after r : List Char} {c : Char} :
      s = before ++ '\\' :: c :: (after ++ q :: r) → Body q before value →
      escapeLetter? c = none → Scanned q after →
      QuotedFault q s ⟨q :: s, .literal (.invalidEscape c)⟩

/-- The part of a closed body before an escape and the part after it are closed, too. -/
theorem scanned_append {before after : List Char} {c : Char}
    (hbefore : Scanned q before) (hafter : Scanned q after) :
    Scanned q (before ++ '\\' :: c :: after) := by
  induction hbefore with
  | nil => exact .pair hafter
  | plain ne plain _ ih => exact .plain ne plain ih
  | pair _ ih => exact .pair ih

/-- After an opening quote nothing else is tried. -/
theorem quotedText_cons_not_declined (hq : q = '"' ∨ q = '\'') :
    quotedText (q :: s) ≠ .declined f := by
  intro h
  rw [quotedText, if_pos (by simpa using hq)] at h
  split at h
  · cases h
  · split at h
    · cases h
    · cases h

/-- Why a text that begins with a quote is no quoted text. -/
theorem quotedText_cons_failed (hq : q = '"' ∨ q = '\'') :
    quotedText (q :: s) = .failed f ↔ QuotedFault q s f := by
  have hslash := quote_ne_slash hq
  rw [quotedText, if_pos (by simpa using hq)]
  constructor
  case mp =>
    intro h
    cases split : splitQuoted q s with
    | none =>
      rw [split] at h
      cases h
      refine .unterminated fun body r scanned heq => ?_
      rw [(splitQuoted_eq_some hslash).2 ⟨scanned, heq⟩] at split
      cases split
    | some p =>
      obtain ⟨body, r⟩ := p
      obtain ⟨scanned, rfl⟩ := (splitQuoted_eq_some hslash).1 split
      rw [split] at h
      cases legible : unescape body with
      | ok value => simp [legible] at h
      | error fault =>
        obtain ⟨before, value, c, after, rfl, hbefore, hc, hafter, rfl⟩ :=
          (unescape_eq_error scanned).1 legible
        simp only [legible] at h
        cases h
        have hsplit : before ++ '\\' :: c :: after ++ q :: r =
            before ++ '\\' :: c :: (after ++ q :: r) := List.append_assoc _ _ _
        exact .escape hsplit hbefore hc hafter
  case mpr =>
    intro h
    cases h with
    | unterminated hopen =>
      cases split : splitQuoted q s with
      | none => rfl
      | some p =>
        obtain ⟨scanned, heq⟩ := (splitQuoted_eq_some hslash).1 split
        exact absurd heq (hopen _ _ scanned)
    | @escape before value after r c heq hbefore hc hafter =>
      have scanned := scanned_append (c := c) (scanned_of_body hbefore) hafter
      have split : splitQuoted q s = some (before ++ '\\' :: c :: after, r) :=
        (splitQuoted_eq_some hslash).2 ⟨scanned, by simpa using heq⟩
      have hfault :=
        (unescape_eq_error scanned).2 ⟨before, value, c, after, rfl, hbefore,
          hc, hafter, rfl⟩
      rw [split]
      simp only [hfault]

private theorem quotedString_declined : quotedString s = .declined f ↔
    quotedText s = .declined f := by
  rw [quotedString, bind_eq]
  cases quotedText s <;> simp [pure, Rule.pure]

private theorem quotedString_failed : quotedString s = .failed f ↔
    quotedText s = .failed f := by
  rw [quotedString, bind_eq]
  cases quotedText s <;> simp [pure, Rule.pure]

/-- **Quoted texts are decoded exactly.**  A string is read off a text exactly if the
text begins with a way of writing it between two equal quotes, and all of it is taken.
A text that begins with a quote fails otherwise, since its body is not closed or since
an escape in it is none; that a body ends with a lone backslash is never said of a
text. -/
theorem quotedString_exact :
    (∀ c d, escapeLetter? c = some d ↔ (c, d) ∈ escapes) ∧
      (∀ (v : String) (s r : List Char), quotedString s = .took v r ↔
        ∃ q body,
          (q = '"' ∨ q = '\'') ∧ Body q body v.toList ∧ s = q :: (body ++ q :: r)) ∧
      (∀ (q : Char) (s : List Char), q = '"' ∨ q = '\'' →
        (∀ f, quotedString (q :: s) ≠ .declined f) ∧
          ∀ f, quotedString (q :: s) = .failed f ↔ QuotedFault q s f) ∧
      ∀ text p, Statement.parse text = .error p →
        p.message ≠ LiteralFault.danglingEscape.message := by
  refine ⟨fun c d => escapeLetter?_eq_some, fun v s r => ?_, fun q s hq => ?_,
    fun text p h => ?_⟩
  · rw [quotedString_took]
    constructor
    case mp =>
      rintro ⟨_, ⟨hq, hbody⟩, rfl, -⟩
      exact ⟨_, _, hq, hbody, by simp⟩
    case mpr =>
      rintro ⟨q, body, hq, hbody, rfl⟩
      exact ⟨_, .intro hq hbody, by simp, fun _ _ => rfl⟩
  · refine ⟨fun f h => ?_, fun f => ?_⟩
    · exact quotedText_cons_not_declined hq (quotedString_declined.1 h)
    · rw [quotedString_failed, quotedText_cons_failed hq]
  · obtain ⟨reason, hsound, hmessage⟩ := parse_reason h
    rw [hmessage]
    exact hsound.message_ne

/-- A quote and a backslash behind backslashes belong to the value, the first letter
that is no escape is told, and a backslash before the last quote leaves the text
open. -/
theorem quotedString_exact_slashes :
    quotedString "'it\\'s\\\\' by cpu".toList = .took "it's\\" " by cpu".toList ∧
      quotedString "\"a\\qb\\z\" by cpu".toList =
        .failed ⟨"\"a\\qb\\z\" by cpu".toList, .literal (.invalidEscape 'q')⟩ ∧
      Statement.parse "select 'cpu\\'" =
        .error ⟨⟨1, 8⟩, "unterminated string literal"⟩ ∧
      "unterminated string literal" ≠ LiteralFault.danglingEscape.message := by
  obtain ⟨-, htook, hfault, hparse⟩ := quotedString_exact
  have hvalue : "it's\\".toList = ['i', 't', '\'', 's', '\\'] := by decide
  have hbody : Body '\'' ['i', 't', '\\', '\'', 's', '\\', '\\'] "it's\\".toList := by
    rw [hvalue]
    exact .plain (by decide) (by decide) <| .plain (by decide) (by decide) <|
      .escape rfl <| .plain (by decide) (by decide) <| .escape rfl .nil
  have htext : "'it\\'s\\\\' by cpu".toList =
      '\'' ::
      (['i', 't', '\\', '\'', 's', '\\', '\\'] ++ '\'' :: " by cpu".toList) := by decide
  have hfirst : Body '"' ['a'] ['a'] := .plain (by decide) (by decide) .nil
  have hlater : Scanned '"' ['b', '\\', 'z'] :=
    .plain (by decide) (by decide) <| .pair .nil
  have hwrong : "\"a\\qb\\z\" by cpu".toList =
      '"' ::
      (['a'] ++ '\\' :: 'q' :: (['b', '\\', 'z'] ++ '"' :: " by cpu".toList)) := by
        decide
  have hopen : Statement.parse "select 'cpu\\'" =
      .error ⟨⟨1, 8⟩, "unterminated string literal"⟩ := by
    rw [Statement.parse, stages]
    rfl
  refine ⟨(htook _ _ _).2 ⟨'\'', _, .inr rfl, hbody, htext⟩, ?_, hopen,
    hparse _ _ hopen⟩
  rw [hwrong]
  exact ((hfault '"' _ (.inl rfl)).2 _).2 (.escape rfl hfirst rfl hlater)

end SeriesQuery.Reading
