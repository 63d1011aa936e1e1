import SeriesQuery.Proofs.Plan.Acceptance
import SeriesQuery.Proofs.Plan.Registering
import SeriesQuery.Proofs.Statement.Parsing

/-!
# Referring to aggregators

An aggregation names its aggregator in any letter case, and it is read by the reader
that was registered last under that name, in any letter case too.  Only when there is
none is the aggregator reported.  A function of the backend over a single request never
comes to what is registered.

## Main results

* `Rendering.exists_named`: the word of the text by which an aggregation names its
  aggregator.
* `Binding.Reached.lifts`, `Binding.Reached.combines`, `Binding.Reached.unregistered`:
  what becomes of an aggregation.
* `Statement.registered_last`: what it is for any calls and any text.
-/

namespace SeriesQuery

open SeriesQuery.Backend Fallible
open SeriesQuery.Text (isBlank)
open SeriesQuery.Time (Instant)

/-! ## Names in a text -/

namespace Rendering

/-- The lexemes by which a stage binds a name. -/
def bindingLexemes : Option String → List Lexeme
  | none => []
  | some m => [plain m.toList, sign '=']

/-- The aggregation of a stage is written in a source with a word for the name of its
aggregator: the word stands where the stage begins, or behind the name that the stage
binds. -/
def NamedBy (source : List Char) (st : Stage) (w : String) : Prop :=
  ∃ s r ts,
    s <:+ source ∧ st.position = Reading.positionOf source (s.dropWhile isBlank) ∧
    Laid (bindingLexemes st.binding ++ plain w.toList :: sign '(' :: ts) s r

private theorem StageForm.named {st : Stage} {a : Aggregation} {ts : List Lexeme}
    (form : StageForm st.binding st.body ts) (ha : st.body = .aggregate a) :
    ∃ w ls, SameLetters (w : String).toList a.name ∧
      ts = bindingLexemes st.binding ++ plain w.toList :: sign '(' :: ls := by
  have hbody : ∀ {ts}, BodyForm st.body ts → ∃ w ls,
      SameLetters (w : String).toList a.name ∧
      ts = plain w.toList :: sign '(' :: ls := by
    intro ts body
    rw [ha] at body
    obtain - | ⟨⟨same, -, -⟩⟩ := body
    rename_i cs ts ts'
    exact ⟨String.ofList cs, _, by rwa [String.toList_ofList], by
      rw [String.toList_ofList]⟩
  generalize st.binding = bound, st.body = body at form hbody
  cases form with
  | unbound body =>
      obtain ⟨w, ls, same, rfl⟩ := hbody body
      exact ⟨w, ls, same, rfl⟩
  | bound bound body =>
      obtain ⟨w, ls, same, rfl⟩ := hbody body
      obtain ⟨m⟩ := bound
      exact ⟨w, ls, same, rfl⟩

private theorem StagesForm.named {source s : List Char} {sts : List Stage} {st : Stage}
    {a : Aggregation} (form : StagesForm source sts s) (suffix : s <:+ source)
    (hst : st ∈ sts) (ha : st.body = .aggregate a) :
    ∃ w, NamedBy source st w ∧ SameLetters w.toList a.name := by
  have here : ∀ {ts s r}, StageForm st.binding st.body ts → Laid ts s r → s <:+ source →
      st.position = Reading.positionOf source (s.dropWhile isBlank) →
      ∃ w, NamedBy source st w ∧ SameLetters w.toList a.name := by
    intro ts s r form laid suffix place
    obtain ⟨w, ls, same, rfl⟩ := form.named ha
    exact ⟨w, ⟨s, r, ls, suffix, place, laid⟩, same⟩
  induction form with
  | last form laid place _ =>
      obtain rfl := List.mem_singleton.1 hst
      exact here form laid suffix place
  | more form laid place separator _ ih =>
      rcases List.mem_cons.1 hst with rfl | hst
      · exact here form laid suffix place
      · exact ih ((separator.suffix.trans laid.suffix).trans suffix) hst

/-- Every aggregation of a text that is parsed is written with a word, and its name is
that word in small letters. -/
theorem exists_named {text : String} {s : Statement} {st : Stage} {a : Aggregation}
    (parsed : Statement.parse text = .ok s) (hst : st ∈ s.stages)
    (ha : st.body = .aggregate a) :
    ∃ w, NamedBy text.toList st w ∧ IsAscii w ∧ a.name = Text.lower w := by
  obtain ⟨wellFormed, renders, -, -⟩ := parse_sound parsed
  obtain ⟨w, named, same⟩ := StagesForm.named renders List.suffix_rfl hst ha
  have hbody := wellFormed.bodies st hst
  rw [ha] at hbody
  have isWord : IsWord w := by
    have h := hbody.name.of_sameLetters same
    rwa [String.ofList_toList] at h
  refine ⟨w, named, fun c hc => isWordChar_ascii (isWord.all c hc), ?_⟩
  rw [← String.toList_inj, isWord.lower]
  exact same.symm

end Rendering

/-! ## The fault of an aggregation that is not registered -/

/-- The fault of an aggregation whose name is not registered. -/
def Aggregation.unregistered (a : Aggregation) (p : Position) : PlanFault :=
  if isBackendFunction a.name then .notSingleSelect a.name p
    else .unknownAggregator a.name p

/-- Where a fault says that a name is not registered. -/
def PlanFault.unregisteredAt? : PlanFault → Option Position
  | .unknownAggregator _ p => some p
  | .notSingleSelect _ p => some p
  | _ => none

private theorem Aggregation.unregisteredAt? (a : Aggregation) (p : Position) :
    (a.unregistered p).unregisteredAt? = some p := by
  unfold unregistered
  split <;> rfl

/-- A plan that fails with this fault fails when its stages are bound. -/
theorem Statement.bindStages_of_plan {α : Type} [Settles α] {combiners : Combiners α}
    {now : Instant} {s : Statement} {fault : PlanFault} {p : Position}
    (h : s.plan combiners now = .error fault) (hp : fault.unregisteredAt? = some p) :
    Binding.bindStages combiners now s.stages = .error fault := by
  rcases bind_eq_error.1 h with h | ⟨b, -, h⟩
  · exact h
  · -- Once its stages are bound, a statement fails only for want of stages or for a
    -- faulty request.
    have hother : fault.unregisteredAt? = none := by
      split at h
      · cases h
        rfl
      · split at h
        · rename_i hfault
          cases h
          obtain ⟨d, -, hd⟩ := List.exists_of_findSome?_eq_some hfault
          split at hd
          · split at hd
            · cases hd
            · cases hd
              rfl
          · cases hd
        · cases h
    rw [hother] at hp
    cases hp

namespace Binding

variable {α : Type} [Settles α] {combiners : Combiners α} {now : Instant} {b : Binding}
  {st : Stage} {a : Aggregation} {inputs : List Nat} {target : Nat} {r : Request}
  {g : Getter α} {ss : List Stage} {k n : Nat} {fault : PlanFault} {p : Position}

/-! ## Where names are reported -/

private theorem unregisteredAt?_of_sources (h : b.sources a p = .error fault) :
    fault.unregisteredAt? = none := by
  rcases bind_eq_error.1 h with h | ⟨found, -, h⟩
  · unfold named at h
    split at h
    · obtain ⟨before, name, after, -, -, -, rfl⟩ := mapM_find?_eq_error.1 h
      rfl
    · cases h
  · split at h
    · cases h
      rfl
    · cases h

private theorem unregisteredAt?_of_bindAggregation
    (h : bindAggregation combiners b a p = .error fault) :
    fault.unregisteredAt? = none ∨ fault = a.unregistered p := by
  rcases bind_eq_error.1 h with h | ⟨inputs, -, h⟩
  · exact .inl (unregisteredAt?_of_sources h)
  · split at h
    · rcases bind_eq_error.1 h with h | ⟨d, -, h⟩
      · obtain ⟨faults, -, rfl⟩ := mapError_eq_error.1 h
        exact .inl rfl
      · cases h
    · split at h
      · exact .inr (Except.error.inj h).symm
      · rcases bind_eq_error.1 h with h | ⟨d, -, h⟩
        · obtain ⟨faults, -, rfl⟩ := mapError_eq_error.1 h
          exact .inl rfl
        · cases h

/-- A stage reports a name that is not registered at its own place. -/
theorem unregisteredAt?_of_bindStage (h : bindStage combiners now b st = .error fault) :
    fault.unregisteredAt? = none ∨ fault.unregisteredAt? = some st.position := by
  unfold bindStage at h
  split at h
  · cases h
    exact .inl rfl
  · rcases bind_eq_error.1 h with h | ⟨c, -, h⟩
    · unfold bindBody at h
      split at h
      · obtain ⟨span, e, -, -, rfl⟩ := bindSelect_eq_error.1 h
        exact .inl rfl
      · rename_i a ha
        refine (unregisteredAt?_of_bindAggregation h).imp_right fun heq => ?_
        rw [heq, Aggregation.unregisteredAt?]
    · cases h

/-- Stages that are not bound fail at one of them. -/
theorem exists_of_bindStages_error (hn : n ≤ ss.length)
    (h : bindStages combiners now (ss.take n) = .error fault) :
    ∃ k st b, ss[k]? = some st ∧ bindStages combiners now (ss.take k) = .ok b ∧
      bindStage combiners now b st = .error fault := by
  induction n with
  | zero => cases h
  | succ n ih =>
      have hs : ss[n]? = some ss[n] := List.getElem?_eq_getElem hn
      rw [bindStages_take_succ hs] at h
      rcases bind_eq_error.1 h with h | ⟨b, hb, h⟩
      · exact ih (Nat.le_of_succ_le hn) h
      · exact ⟨n, ss[n], b, hs, hb, h⟩

/-- Stages that are not bound are not bound when more follow. -/
theorem bindStages_of_take_error
    (h : bindStages combiners now (ss.take n) = .error fault) :
    bindStages combiners now ss = .error fault := by
  rw [← List.take_append_drop n ss]
  unfold bindStages at h ⊢
  rw [List.foldlM_append, h]
  rfl

/-! ## What becomes of an aggregation -/

/-- A function of the backend is put over a single request. -/
def Lifts (b : Binding) (a : Aggregation) (inputs : List Nat) (target : Nat)
    (r : Request) : Prop :=
  isBackendFunction a.name = true ∧ inputs = [target] ∧ b.work? target = some (.ask r)

/-- What is known after a function was put into a request, or into a copy of one that is
read. -/
def lifted (b : Binding) (st : Stage) (a : Aggregation) (target : Nat) (r : Request) :
    Except PlanFault Binding :=
  match decodeBackend a.name a.arguments with
  | .ok d =>
    .ok (if b.isRead target then (b.warn d.warnings).grow st
      (.ask (aggregated r d.value)) []
      else (b.warn d.warnings).fold st target (aggregated r d.value))
  | .error faults => .error (.invalidArguments a.name faults)

/-- What is known after an aggregation was read by a registered reader. -/
def combined (b : Binding) (st : Stage) (a : Aggregation) (inputs : List Nat)
    (g : Getter α) : Except PlanFault Binding :=
  match decodeArguments a.name a.arguments g with
  | .ok d => .ok ((b.warn d.warnings).grow st (Settles.work d.value) inputs)
  | .error faults => .error (.invalidArguments a.name faults)

/-- The stages up to an aggregation are bound, and nothing is wrong with its own name
and its sources: what is left to do is to find out what it does. -/
structure Reached (combiners : Combiners α) (now : Instant) (ss : List Stage) (k : Nat)
    (st : Stage) (a : Aggregation) (b : Binding) (inputs : List Nat) : Prop where
  stage : ss[k]? = some st
  body : st.body = .aggregate a
  bound : bindStages combiners now (ss.take k) = .ok b
  fresh : ∀ m, st.binding = some m → b.find? m = none
  sources : b.sources a st.position = .ok inputs

private theorem lifts_iff :
    (if isBackendFunction a.name then b.requestAmong? inputs else none) =
    some (target, r) ↔ b.Lifts a inputs target r := by
  constructor
  · intro h
    by_cases hname : isBackendFunction a.name = true
    · rw [if_pos hname] at h
      exact ⟨hname, requestAmong?_eq_some h⟩
    · rw [if_neg hname] at h
      cases h
  · rintro ⟨hname, rfl, hwork⟩
    rw [if_pos hname, requestAmong?, hwork]
    rfl

private theorem not_lifts_iff :
    (if isBackendFunction a.name then b.requestAmong? inputs else none) = none ↔
    ∀ target r, ¬ b.Lifts a inputs target r := by
  rw [Option.eq_none_iff_forall_ne_some]
  constructor
  · exact fun h target r hlifts => h (target, r) (lifts_iff.2 hlifts)
  · exact fun h e heq => h e.1 e.2 (lifts_iff.1 heq)

/-- An aggregation with sources is lifted, or it is read by a registered reader, or it
is reported. -/
theorem bindAggregation_of_sources (h : b.sources a p = .ok inputs) :
    bindAggregation combiners b a p =
      match if isBackendFunction a.name then b.requestAmong? inputs else none with
      | some (target, r) =>
        (decodeBackend a.name a.arguments).mapError (.invalidArguments a.name) >>=
          fun d => .ok ((b.warn d.warnings).lift target r d.value p)
      | none =>
        match combiners.decode? a.name a.arguments with
        | none => .error (a.unregistered p)
        | some decoded =>
          decoded.mapError (.invalidArguments a.name) >>= fun d =>
            .ok ((b.warn d.warnings).add (Settles.work d.value) inputs p) := by
  unfold bindAggregation
  rw [h]
  rfl

namespace Reached

private theorem bindStage_eq (h : Reached combiners now ss k st a b inputs) :
    bindStage combiners now b st =
      bindAggregation combiners b a st.position >>=
        fun c => .ok (c.1.stand st c.2) := by
  have hfree : st.binding.filter (fun m => (b.find? m).isSome) = none := by
    rw [Option.filter_eq_none_iff]
    intro m hm
    simp [h.fresh m hm]
  unfold bindStage bindBody
  rw [hfree, h.body]
  rfl

private theorem bindStages_eq (h : Reached combiners now ss k st a b inputs) :
    bindStages combiners now (ss.take (k + 1)) = bindStage combiners now b st := by
  rw [bindStages_take_succ h.stage, h.bound]
  rfl

/-- A function over a single request is lifted, whatever is registered under its
name. -/
theorem lifts (h : Reached combiners now ss k st a b inputs)
    (hlifts : b.Lifts a inputs target r) :
    bindStages combiners now (ss.take (k + 1)) = b.lifted st a target r := by
  rw [h.bindStages_eq, h.bindStage_eq, bindAggregation_of_sources h.sources,
    lifts_iff.2 hlifts, lifted]
  cases decodeBackend a.name a.arguments with
  | error faults => rfl
  | ok d =>
      exact congrArg Except.ok (stand_lift (b.warn d.warnings) st target r d.value)

/-- Any other aggregation is read by the reader that its name stands for. -/
theorem combines (h : Reached combiners now ss k st a b inputs)
    (hnot : ∀ target r, ¬ b.Lifts a inputs target r)
    (hg : combiners.find? a.name = some g) :
    bindStages combiners now (ss.take (k + 1)) = b.combined st a inputs g := by
  have hdecode : combiners.decode? a.name a.arguments =
      some (decodeArguments a.name a.arguments g) := by
    rw [Combiners.decode?, hg, Option.map_some]
  rw [h.bindStages_eq, h.bindStage_eq, bindAggregation_of_sources h.sources,
    not_lifts_iff.2 hnot, hdecode, combined]
  cases decodeArguments a.name a.arguments g with
  | error faults => rfl
  | ok d =>
      exact congrArg Except.ok
        (stand_add (b.warn d.warnings) st (Settles.work d.value) inputs)

/-- It is reported when its name stands for nothing. -/
theorem unregistered (h : Reached combiners now ss k st a b inputs)
    (hnot : ∀ target r, ¬ b.Lifts a inputs target r)
    (hnone : combiners.find? a.name = none) :
    bindStages combiners now (ss.take (k + 1)) =
      .error (a.unregistered st.position) := by
  have hdecode : combiners.decode? a.name a.arguments = none := by
    rw [Combiners.decode?, hnone, Option.map_none]
  rw [h.bindStages_eq, h.bindStage_eq, bindAggregation_of_sources h.sources,
    not_lifts_iff.2 hnot, hdecode]
  rfl

/-- Where no two stages stand in one place, the statement is refused for the name of an
aggregation just if the name stands for nothing. -/
theorem plan_unregistered (h : Reached combiners now ss k st a b inputs)
    (hnot : ∀ target r, ¬ b.Lifts a inputs target r)
    (hplaces : (ss.map Stage.position).Nodup) :
    Statement.plan combiners now ⟨ss⟩ = .error (a.unregistered st.position) ↔
      combiners.find? a.name = none := by
  have hat := a.unregisteredAt? st.position
  constructor
  · intro hplan
    have hbind := Statement.bindStages_of_plan hplan hat
    rw [← ss.take_length] at hbind
    obtain ⟨j, st', b', hst', hb', hfails⟩ :=
      exists_of_bindStages_error (Nat.le_refl _) hbind
    have hplace : st.position = st'.position := by
      rcases unregisteredAt?_of_bindStage hfails with hnone | hsome
      · rw [hat] at hnone
        cases hnone
      · exact Option.some.inj (hat.symm.trans hsome)
    -- The fault tells where its stage stands, and no other stage stands there.
    have hj : k = j := by
      have hk := (List.getElem?_eq_some_iff.1 h.stage).1
      refine (List.getElem?_inj (by rwa [List.length_map]) hplaces).1 ?_
      rw [List.getElem?_map, List.getElem?_map, h.stage, hst', Option.map_some,
        Option.map_some, hplace]
    subst hj
    rw [h.bound] at hb'
    cases hb'
    rw [h.stage] at hst'
    cases hst'
    cases hg : combiners.find? a.name with
    | none => rfl
    | some g =>
        have hcombined := (h.combines hnot hg).symm.trans h.bindStages_eq
        rw [hfails, combined] at hcombined
        cases hd : decodeArguments a.name a.arguments g with
        | ok d =>
            rw [hd] at hcombined
            cases hcombined
        | error faults =>
            rw [hd] at hcombined
            rw [← Except.error.inj hcombined] at hat
            cases hat
  · intro hnone
    unfold Statement.plan
    rw [bindStages_of_take_error (h.unregistered hnot hnone)]
    rfl

end Reached

end Binding

open Binding Combiners

/-- **Registration and reference agree.**  Calls that follow on the aggregators that are
always there are calls like any others.  Whatever is registered, by calls with ASCII
names, the names are those of the calls in small letters, sorted and each once.  An
aggregation of a text that is parsed is written with some word, and when it is reached
and not lifted, it is read by the reader that was registered last under that word, in
whatever letter case either is written; the statement is refused for its name just if no
call has the word.  When it is lifted, no call matters. -/
theorem Statement.registered_last {α : Type} [Settles α]
    {calls : List (String × Getter α)} (hcalls : ∀ c ∈ calls, IsAscii c.1) :
    (∀ more, more.foldl (fun cs c => cs.register c.1 c.2) standard =
        registered (standardCalls ++ more)) ∧
      ((registered calls).names.Pairwise (· < ·) ∧ ∀ m, m ∈ (registered calls).names ↔
          ∃ c ∈ calls, m.toList = c.1.toList.map Char.toLower) ∧
      ∀ {now text s k st a b inputs}, Statement.parse text = .ok s →
        Reached (registered calls) now s.stages k st a b inputs →
        ∃ w, Rendering.NamedBy text.toList st w ∧
          a.name.toList = w.toList.map Char.toLower ∧
          ((∀ target r, ¬ b.Lifts a inputs target r) →
            (∀ before n g after, calls = before ++ (n, g) :: after →
              Text.sameIgnoringCase n w = true →
              (∀ c ∈ after, Text.sameIgnoringCase c.1 w = false) →
              bindStages (registered calls) now (s.stages.take (k + 1)) =
                b.combined st a inputs g) ∧
            (s.plan (registered calls) now = .error (a.unregistered st.position) ↔
              ∀ c ∈ calls, Text.sameIgnoringCase c.1 w = false)) ∧
          ∀ target r, b.Lifts a inputs target r →
            bindStages (registered calls) now (s.stages.take (k + 1)) =
              b.lifted st a target r := by
  refine ⟨fun more => (registered_standard more).symm,
    ⟨(names_registered calls).1, fun m => ?_⟩, ?_⟩
  · rw [(names_registered calls).2]
    refine exists_congr fun c => and_congr_right fun hc => ?_
    rw [← Text.lower_ascii (hcalls c hc), String.toList_inj]
  intro now text s k st a b inputs parsed h
  obtain ⟨w, named, hw, hname⟩ :=
    Rendering.exists_named parsed (List.mem_of_getElem? h.stage) h.body
  have hfind : (registered calls).find? a.name = latest? calls w := by
    rw [hname, find?_registered hcalls hw]
  have hplaces : (s.stages.map Stage.position).Nodup := by
    refine (Rendering.parse_sound parsed).2.2.2.imp fun hearlier heq => ?_
    unfold Rendering.Earlier at hearlier
    rw [heq] at hearlier
    omega
  refine ⟨w, named, by rw [hname, Text.lower_ascii hw], fun hnot => ⟨?_, ?_⟩,
    fun _ _ => h.lifts⟩
  · intro before n g after hsplit hsame hafter
    have hlast := latest?_eq_some.2 ⟨before, n, after, hsplit, hsame, hafter⟩
    exact h.combines hnot (hfind.trans hlast)
  · rw [← latest?_eq_none, ← hfind]
    exact h.plan_unregistered hnot hplaces

/-- The aggregators that are always there, and two more calls for one name. -/
def medianTwice : List (String × Getter Combination) :=
  standardCalls ++ [("MEDIAN", thresholdGetter), ("Median", unionGetter)]

/-- `select cpu; mEdIaN()`. -/
def medianOfCpu : List Stage :=
  [⟨none, .select ⟨"cpu", none, [], []⟩, ⟨1, 1⟩⟩,
    ⟨none, .aggregate ⟨"median", none, []⟩, ⟨1, 13⟩⟩]

/-- The later of the two calls reads the aggregation, which is written in another letter
case than both names. -/
theorem Statement.registered_last_median :
    Statement.parse "select cpu; mEdIaN()" = .ok ⟨medianOfCpu⟩ ∧
      (registered medianTwice).names = ["median", "threshold", "union"] ∧
      ∃ b, bindStages (registered medianTwice) ⟨0, 0⟩ medianOfCpu = .ok b ∧
        b.work? 1 = some (.combine .union) := by
  -- Reading recurs on the length of what is left, so only full unfolding computes it.
  have parsed : Statement.parse "select cpu; mEdIaN()" = .ok ⟨medianOfCpu⟩ := by
    with_unfolding_all rfl
  have hcalls : ∀ c ∈ medianTwice, IsAscii c.1 := by
    unfold medianTwice standardCalls IsAscii
    simp
  have hprefix :
      bindStages (registered medianTwice) ⟨0, 0⟩ (medianOfCpu.take 1) = .ok _ := rfl
  have hreached : Reached (registered medianTwice) ⟨0, 0⟩ medianOfCpu 1 _ ⟨"median",
      none, []⟩ _ [0] :=
    ⟨rfl, rfl, hprefix, fun m h => absurd h (Option.some_ne_none m).symm, rfl⟩
  obtain ⟨w, -, hname, hread, -⟩ :=
    (Statement.registered_last hcalls).2.2 parsed hreached
  have hsame : Text.sameIgnoringCase "Median" w = true := sameIgnoringCase_iff.2 hname
  have hbound :=
    (hread fun target r h => by cases h.1).1 (medianTwice.take 3) "Median"
      unionGetter []
    rfl hsame (by simp)
  exact ⟨parsed, rfl, _, hbound, rfl⟩

/-- Sources are looked at before the name: where a source is no earlier stage, a name
that is not registered goes unnoticed. -/
theorem Statement.unregistered_unnoticed :
    ∃ s st a, Statement.parse "select cpu; Median(of nowhere)" = .ok s ∧
      s.stages[1]? = some st ∧ st.body = .aggregate a ∧ a.name = Text.lower "Median" ∧
      isBackendFunction a.name = false ∧ Combiners.standard.find? a.name = none ∧
      s.plan .standard ⟨0, 0⟩ = .error (.undefinedSource "nowhere" st.position) ∧
      s.plan .standard ⟨0, 0⟩ ≠ .error (.unknownAggregator "median" st.position) := by
  have parsed : Statement.parse "select cpu; Median(of nowhere)" =
      .ok ⟨[⟨none, .select ⟨"cpu", none, [], []⟩, ⟨1, 1⟩⟩,
        ⟨none, .aggregate ⟨"median", some ["nowhere"], []⟩, ⟨1, 13⟩⟩]⟩ := by
    with_unfolding_all rfl
  refine ⟨_, _, _, parsed, rfl, rfl, rfl, rfl, rfl, rfl, ?_⟩
  intro h
  cases h

end SeriesQuery
