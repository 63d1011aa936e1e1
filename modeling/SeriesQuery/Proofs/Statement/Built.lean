import SeriesQuery.Proofs.Statement.Selects

/-!
# How rules are put together

Every rule of the grammar is put together from rules for single characters, runs of
characters and quoted texts by a few ways of combining rules.  What these ways keep
holds of every rule: it is proved once for each way and not once for each rule.  A loop
is put together step by step, from what it does on shorter texts.

## Main results

* `Built.of_shorter`: a rule that calls itself on shorter texts only.
* `built_stage`, `built_separator`, `built_stages`: the rules that a statement is read
  with.
-/

namespace SeriesQuery.Reading

open SeriesQuery.Text (isBlank)
open SeriesQuery.Rendering
open Rule

/-- A reason that a reading may have: of the faults of literals, an escape that there is
not and a text that is no date-time. -/
def Reason.Sound : Reason → Prop
  | .literal fault => (∃ c, fault = .invalidEscape c) ∨
      ∃ text, fault = .invalidDateTime text
  | _ => True

/-- A rule that is put together from rules for characters and for quoted texts. -/
inductive Rule.Built : {α : Type} → Rule α → Prop
  | protected char (c : Char) : Built (Rule.char c)
  | protected satisfy (p : Char → Bool) : Built (Rule.satisfy p)
  | protected run (p : Char → Bool) : Built (Rule.run p)
  | protected run1 (p : Char → Bool) : Built (Rule.run1 p)
  | protected spelled (word : List Char) : Built (Rule.spelled word)
  | protected quotedText : Built Reading.quotedText
  | protected pure {α : Type} (a : α) : Built (pure a : Rule α)
  | protected fail {α : Type} {reason : Reason} : reason.Sound →
      Built (Rule.fail reason : Rule α)
  | protected bind {α β : Type} {p : Rule α} {f : α → Rule β} : Built p →
      (∀ a, Built (f a)) → Built (p >>= f)
  | protected orElse {α : Type} {p q : Rule α} : Built p → Built q →
      Built (Rule.orElse p q)
  | protected optional {α : Type} {p : Rule α} : Built p → Built (Rule.optional p)
  | protected commit {α : Type} {p : Rule α} : Built p → Built (Rule.commit p)
  | protected expecting {α : Type} {p : Rule α} {what : Expectation} : Built p →
      Built (Rule.expecting what p)
  | protected absent {α : Type} {p : Rule α} : Built p → Built (Rule.absent p)
  | protected convert {α β : Type} {p : Rule α} {f : α → Except Reason β} : Built p →
      (∀ a reason, f a = .error reason → reason.Sound) → Built (Rule.convert p f)
  | protected convert? {α β : Type} {p : Rule α} {f : α → Option β} : Built p →
      Built (Rule.convert? p f)
  | protected taken {α : Type} {p : Rule α} : Built p → Built (Rule.taken p)
  /-- At every text it does what some rule does that is put together. -/
  | protected pointwise {α : Type} {p : Rule α} (q : List Char → Rule α) :
      (∀ s, Built (q s)) → (∀ s, q s s = p s) → Built p

/-! ## Derived ways -/

section Derived

variable {α β : Type} {p : Rule α} {s : List Char}

theorem bind_eq {f : α → Rule β} : (p >>= f) s =
    match p s with
    | .took a r => f a r
    | .declined e => .declined e
    | .failed e => .failed e := rfl

/-- The rule on texts of fewer than `n` characters. -/
def Rule.upTo (n : Nat) (p : Rule α) : Rule α := fun s =>
  if s.length < n then p s else .failed ⟨s, .unexpectedEnd⟩

private theorem upTo_eq {n : Nat} (h : s.length < n) : p.upTo n s = p s := if_pos h

protected theorem Rule.Built.map (f : α → β) (hp : p.Built) : (f <$> p).Built :=
  hp.bind fun a => .pure (f a)

/-- A rule that always declines. -/
theorem built_declined : Rule.Built (fun s => .declined (.unexpected s) : Rule α) :=
  (Rule.Built.pure ()).convert? (f := fun _ => none)

private theorem Rule.Built.of_exists (h : ∀ s, ∃ q : Rule α, q.Built ∧ q s = p s) :
    p.Built := by
  choose q hq heq using h
  exact .pointwise q hq heq

/-- A rule that calls itself on shorter texts only is put together like one that does
not. -/
theorem Rule.Built.of_shorter
    (step : ∀ s : List Char, (p.upTo s.length).Built → ∃ q : Rule α,
      q.Built ∧ q s = p s) : p.Built := by
  have hupTo : ∀ n, (p.upTo n).Built := by
    intro n
    induction n using Nat.strong_induction_on with
    | h n ih =>
      refine .of_exists fun t => ?_
      by_cases h : t.length < n
      · obtain ⟨q, hq, heq⟩ := step t (ih t.length h)
        exact ⟨q, hq, by rw [heq, upTo_eq h]⟩
      · exact ⟨fail .unexpectedEnd,
          .fail (show Reason.Sound .unexpectedEnd from trivial), by
          rw [upTo, if_neg h, fail]⟩
  exact .of_exists fun s => step s (hupTo s.length)

/-! ## Lists -/

protected theorem Rule.Built.many (hp : p.Built) : (many p).Built := by
  refine .of_shorter fun s hmore => ?_
  cases h : p s with
  | took a r =>
    by_cases shorter : r.length < s.length
    · refine ⟨p >>= fun a => (Rule.many p).upTo s.length >>= fun as => pure (a :: as),
        hp.bind fun _ => hmore.bind fun _ => .pure _, ?_⟩
      rw [Rule.many, bind_eq, h]
      simp only [dif_pos shorter, bind_eq, upTo_eq shorter]
      cases Rule.many p r <;> rfl
    · refine ⟨_, built_declined, ?_⟩
      rw [Rule.many, h]
      simp only [dif_neg shorter]
  | declined e => exact ⟨pure [], .pure [], by rw [Rule.many, h]; rfl⟩
  | failed e => exact ⟨p >>= fun _ => pure [], hp.bind fun _ => .pure [],
      by rw [Rule.many, bind_eq, h]⟩

protected theorem Rule.Built.others {separator : Rule β} (hs : separator.Built)
    (hp : p.Built) : (others separator p).Built := by
  refine .of_shorter fun s hmore => ?_
  rw [Rule.others]
  cases h : separator s with
  | took b r =>
    by_cases onward : r.length < s.length
    · simp only [if_pos onward]
      cases h' : p r with
      | took a r' =>
        by_cases shorter : r'.length < s.length
        · refine ⟨separator >>= fun _ => p >>= fun a =>
            (Rule.others separator p).upTo s.length >>= fun as => pure (a :: as),
            hs.bind fun _ => hp.bind fun _ => hmore.bind fun _ => .pure _, ?_⟩
          simp only [bind_eq, h, h', dif_pos shorter, upTo_eq shorter]
          cases Rule.others separator p r' <;> rfl
        · refine ⟨separator >>= fun _ => p >>= fun _ => _,
            hs.bind fun _ => hp.bind fun _ => built_declined, ?_⟩
          simp only [bind_eq, h, h', dif_neg shorter]
      | declined e => exact ⟨pure [], .pure [], rfl⟩
      | failed e => exact ⟨separator >>= fun _ => p >>= fun _ => pure [],
          hs.bind fun _ => hp.bind fun _ => .pure [], by simp only [bind_eq, h, h']⟩
    · refine ⟨separator >>= fun _ => _, hs.bind fun _ => built_declined, ?_⟩
      simp only [bind_eq, h, if_neg onward]
  | declined e => exact ⟨pure [], .pure [], rfl⟩
  | failed e => exact ⟨separator >>= fun _ => pure [], hs.bind fun _ => .pure [],
      by rw [bind_eq, h]⟩

protected theorem Rule.Built.separated {separator : Rule β} (hs : separator.Built)
    (hp : p.Built) : (separated separator p).Built :=
  hp.bind fun _ => (hs.others hp).bind fun _ => .pure _

protected theorem Rule.Built.separated? {separator : Rule β} (hs : separator.Built)
    (hp : p.Built) : (separated? separator p).Built := by
  refine .of_exists fun s => ?_
  rw [Rule.separated?]
  cases h : p s with
  | declined e => exact ⟨pure [], .pure [], rfl⟩
  | failed e =>
      exact ⟨p >>= fun _ => pure [], hp.bind fun _ => .pure [], by rw [bind_eq, h]⟩
  | took a r =>
    refine ⟨Rule.separated separator p, hs.separated hp, ?_⟩
    rw [Rule.separated, bind_eq, h]
    simp only [bind_eq]
    cases Rule.others separator p r <;> rfl

end Derived

/-! ## Lexemes -/

section Lexemes

private theorem built_blanks : blanks.Built :=
  (Rule.Built.run isBlank).bind fun _ => .pure ()

private theorem built_blanks1 : blanks1.Built :=
  (Rule.Built.run1 _).bind fun _ => .pure _

private theorem built_keyword (w : String) : (keyword w).Built :=
  (Rule.Built.spelled _).bind fun _ => (Rule.Built.satisfy _).absent

private theorem built_comma : comma.Built :=
  built_blanks.bind fun _ => (Rule.Built.char _).bind fun _ => built_blanks

private theorem built_word : word.Built :=
  (Rule.Built.satisfy _).bind fun _ => (Rule.Built.run _).bind fun _ => .pure _

private theorem built_quotedString : quotedString.Built :=
  Rule.Built.quotedText.bind fun _ => .pure _

private theorem built_name : name.Built :=
  built_quotedString.orElse
    ((Rule.Built.satisfy _).bind fun _ => (Rule.Built.run _).bind fun _ => .pure _)

private theorem built_tagValue : tagValue.Built :=
  built_quotedString.orElse ((Rule.Built.run1 _).bind fun _ => .pure _)

private theorem built_digits1 : digits1.Built := .run1 _

private theorem built_number : number.Built := by
  have hfraction : fractionPart.Built := (Rule.Built.char _).bind fun _ => built_digits1
  have hexponent : exponentPart.Built :=
    ((Rule.Built.char _).orElse (.char _)).bind fun _ =>
      ((Rule.Built.char _).orElse (.char _)).optional.bind fun _ =>
        built_digits1.bind fun _ => .pure _
  have hspelling : spelling.Built :=
    (Rule.Built.char _).optional.bind fun _ => built_digits1.bind fun _ =>
      hfraction.optional.bind fun _ => hexponent.optional.bind fun _ => .pure _
  exact hspelling.taken.convert?

private theorem built_amount : amount.Built := by
  refine built_digits1.convert fun ds reason h => ?_
  simp only at h
  split at h
  · cases h
  · cases h
    trivial

end Lexemes

/-! ## Select stages -/

section Selects

private theorem built_moment : moment.Built := by
  have hnow : nowTime.Built := (built_keyword _).bind fun _ => .pure _
  have hrelative : relativeTime.Built :=
    built_amount.bind fun _ => built_blanks.bind fun _ =>
      (Rule.Built.run1 _).convert?.expecting.commit.bind fun _ =>
        built_blanks.bind fun _ =>
          (built_keyword _).expecting.commit.bind fun _ => .pure _
  have hfixed : fixedTime.Built := by
    refine Rule.Built.quotedText.convert fun cs reason h => ?_
    split at h
    case h_1 => cases h
    case h_2 fault hfault =>
      cases h
      unfold readDateTime at hfault
      split at hfault
      · cases hfault
      · cases hfault
        exact .inr ⟨_, rfl⟩
  exact (hnow.orElse (hrelative.orElse hfixed)).expecting

private theorem built_span : span.Built := by
  have hstop : (do
      blanks
      keyword "to"
      blanks
      commit moment).Built :=
    built_blanks.bind fun _ => (built_keyword _).bind fun _ =>
      built_blanks.bind fun _ => built_moment.commit
  exact built_blanks.bind fun _ => built_moment.bind fun _ =>
    hstop.optional.bind fun _ => .pure _

private theorem built_tagFilter : tagFilter.Built :=
  built_name.expecting.bind fun _ => built_blanks.bind fun _ =>
    (Rule.Built.char _).expecting.commit.bind fun _ => built_blanks.bind fun _ =>
      (built_comma.separated built_tagValue).expecting.commit.bind fun _ => .pure _

private theorem built_conjunction : conjunction.Built :=
  built_blanks.bind fun _ => (built_keyword _).bind fun _ => built_blanks

private theorem built_clauseRest (k : Clause) : (clauseRest k).Built := by
  cases k with
  | fromTo => exact built_span.commit.map _
  | whereTags =>
    exact (built_blanks.bind fun _ =>
      (built_conjunction.separated built_tagFilter).commit).map _
  | groupBy =>
    have hby : (do
        blanks1
        keyword "by").Built := built_blanks1.bind fun _ => built_keyword _
    exact Rule.Built.map _ (hby.expecting.commit.bind fun _ =>
      built_blanks.bind fun _ => (built_comma.separated built_name).expecting.commit)

/-- The loop over the clauses ends since each clause that is read leaves fewer to be
read. -/
theorem built_clauses (c : Clauses) : (clauses c).Built := by
  induction n : c.open using Nat.strong_induction_on generalizing c with
  | h n ih =>
    subst n
    refine .of_exists fun s => ?_
    rw [clauses_eq]
    cases head : clauseHead? (s.dropWhile isBlank) with
    | none => exact ⟨pure c, .pure c, rfl⟩
    | some p =>
      obtain ⟨k, m⟩ := p
      have hword := clauseHead?_eq_some.1 head
      by_cases lacks : c.lacks k = true
      · have hmore : ∀ g,
            (if c.lacks (clauseOf g) then clauses (c.add g) else pure c).Built := by
          intro g
          split
          case isTrue lacks' => exact ih _ (Clauses.open_add lacks') _ rfl
          case isFalse => exact .pure c
        refine ⟨blanks >>= fun _ => keyword (clauseWord k) >>= fun _ =>
            clauseRest k >>= fun g =>
              if c.lacks (clauseOf g) then clauses (c.add g) else pure c,
          built_blanks.bind fun _ => (built_keyword _).bind fun _ =>
            (built_clauseRest k).bind hmore, ?_⟩
        simp only [bind_eq, blanks, hword, if_pos lacks]
        cases rest : clauseRest k m with
        | took g m' =>
          have lacks' : c.lacks (clauseOf g) = true := clauseOf_rest rest ▸ lacks
          simp only [if_pos lacks']
        | declined e => rfl
        | failed e => rfl
      · refine ⟨blanks >>= fun _ => fail (.duplicate k),
          built_blanks.bind fun _ => .fail trivial, ?_⟩
        simp only [bind_eq, blanks, fail, if_neg lacks]

private theorem built_select : select.Built :=
  (built_keyword _).bind fun _ => built_blanks.bind fun _ =>
    built_name.expecting.commit.bind fun _ => (built_clauses {}).bind fun _ => .pure _

end Selects

/-! ## Aggregations -/

section Aggregations

private theorem built_sources : sources.Built := by
  have hlist : sourceList.Built :=
    (Rule.Built.char _).bind fun _ => built_blanks.bind fun _ =>
      (built_comma.separated built_word).bind fun _ => built_blanks.bind fun _ =>
        (Rule.Built.char _).bind fun _ => .pure _
  have hname : sourceName.Built := built_word.bind fun _ => .pure _
  exact (built_keyword _).bind fun _ => built_blanks.bind fun _ =>
    (hlist.orElse hname).expecting.commit

private theorem built_argValue : argValue.Built := by
  have htrue : trueValue.Built := (built_keyword _).bind fun _ => .pure _
  have hfalse : falseValue.Built := (built_keyword _).bind fun _ => .pure _
  exact (built_number.map _).orElse ((built_quotedString.map _).orElse
    (htrue.orElse (hfalse.orElse (built_word.map _))))

private theorem built_argument : argument.Built :=
  built_word.bind fun _ => built_blanks.bind fun _ =>
    (Rule.Built.char _).expecting.commit.bind fun _ => built_blanks.bind fun _ =>
      built_argValue.expecting.commit.bind fun _ => .pure _

private theorem built_arguments (afterSources : Bool) :
    (arguments afterSources).Built := by
  have hnext : nextArgument.Built :=
    built_comma.bind fun _ => built_argument.expecting.commit
  cases afterSources with
  | true => exact hnext.many
  | false => exact built_comma.separated? built_argument

private theorem built_aggregation : aggregation.Built :=
  built_word.bind fun _ => built_blanks.bind fun _ => (Rule.Built.char _).bind fun _ =>
    built_blanks.bind fun _ => built_sources.optional.bind fun _ =>
      (built_arguments _).bind fun _ => built_blanks.bind fun _ =>
        (Rule.Built.char _).expecting.commit.bind fun _ => .pure _

end Aggregations

/-! ## Stages -/

theorem built_stage : stage.Built := by
  have hbinding : binding.Built :=
    built_word.bind fun _ => built_blanks.bind fun _ =>
      (Rule.Built.char _).bind fun _ => (Rule.Built.char _).absent.bind fun _ =>
        built_blanks.bind fun _ => .pure _
  exact hbinding.optional.bind fun _ =>
    ((built_select.map _).orElse (built_aggregation.map _)).expecting.bind fun _ =>
      .pure _

theorem built_separator : separator.Built :=
  (Rule.Built.char _).expecting.bind fun _ => built_blanks

/-- The loop over the stages ends since each stage takes something. -/
theorem built_stages (source : List Char) : (stages source).Built := by
  refine .of_shorter fun s hmore => ?_
  rw [stages]
  cases h : stage s with
  | declined e =>
    exact ⟨stage >>= fun _ => pure [], built_stage.bind fun _ => .pure [],
      by rw [bind_eq, h]⟩
  | failed e =>
    exact ⟨stage >>= fun _ => pure [], built_stage.bind fun _ => .pure [],
      by rw [bind_eq, h]⟩
  | took st r =>
    let next : Rule Unit := stage >>= fun _ => blanks
    have hnext : next.Built := built_stage.bind fun _ => built_blanks
    have behind : next s = .took () (r.dropWhile isBlank) := by
      simp only [next, bind_eq, h, blanks]
    simp only
    generalize Stage.mk st.1 st.2 (positionOf source s) = here
    split
    case isTrue done =>
      refine ⟨next >>= fun _ => pure [here], hnext.bind fun _ => .pure _, ?_⟩
      rw [bind_eq, behind, List.isEmpty_iff.1 done]
      rfl
    case isFalse =>
      cases h' : separator (r.dropWhile isBlank) with
      | declined e =>
        exact ⟨next >>= fun _ => separator >>= fun _ => pure [],
          hnext.bind fun _ => built_separator.bind fun _ => .pure [],
          by simp only [bind_eq, behind, h']⟩
      | failed e =>
        exact ⟨next >>= fun _ => separator >>= fun _ => pure [],
          hnext.bind fun _ => built_separator.bind fun _ => .pure [],
          by simp only [bind_eq, behind, h']⟩
      | took u r' =>
        simp only
        split
        case isTrue done =>
          refine ⟨next >>= fun _ => separator >>= fun _ => pure [here],
            hnext.bind fun _ => built_separator.bind fun _ => .pure _, ?_⟩
          simp only [bind_eq, behind, h', List.isEmpty_iff.1 done]
          rfl
        case isFalse =>
          split
          case isTrue shorter =>
            refine ⟨next >>= fun _ => separator >>= fun _ =>
                (stages source).upTo s.length >>= fun more => pure (here :: more),
              hnext.bind fun _ => built_separator.bind fun _ =>
                hmore.bind fun _ => .pure _, ?_⟩
            simp only [bind_eq, behind, h', upTo_eq shorter]
            cases stages source r' <;> rfl
          case isFalse =>
            refine ⟨next >>= fun _ => separator >>= fun _ => commit _,
              hnext.bind fun _ => built_separator.bind fun _ =>
                built_declined.commit, ?_⟩
            simp only [bind_eq, behind, h', commit]

end SeriesQuery.Reading
