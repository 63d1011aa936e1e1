import SeriesQuery.Proofs.Plan.Fields

/-!
# Readers

Whoever reads the arguments of an aggregator calls getters, in an order that may depend
on what the earlier calls gave.  No call takes a fault back, and a call that gives
nothing has recorded why.  So a reader that gives nothing only after some call gave
nothing never refuses arguments without a word.

## Main results

* `ArgumentCall.run_eq`: what one call does.
* `Reader.kept`, `Reader.told`: what all calls of a reader do together.
* `Reader.Earnest.frank`: such a reader tells a fault when it refuses.
* `earnest_threshold`, `earnest_backend`: the readers of the aggregators are such.
-/

namespace SeriesQuery

open SeriesQuery.Backend (Count SamplingUnit Sampling Aggregator)
open Getter (Answers answer)

/-! ## Calls -/

/-- A call of a getter. -/
inductive ArgumentCall : Type → Type 1 where
  | number? (field : String) : ArgumentCall (Option Float)
  | number (field : String) : ArgumentCall Float
  | boolean? (field : String) : ArgumentCall (Option Bool)
  | choice? {α : Type} (field : String) (word? : String → Option α)
      (choices : List String) :
      ArgumentCall (Option α)
  | choice {α : Type} (field : String) (word? : String → Option α)
      (choices : List String) :
      ArgumentCall α
  | count? (field : String) : ArgumentCall (Option Count)
  | fraction (field : String) : ArgumentCall Float

namespace ArgumentCall

variable {α : Type}

/-- What a call does. -/
def getter : {α : Type} → ArgumentCall α → Asking (Option α)
  | _, number? field => Getter.number? field
  | _, number field => Getter.number field
  | _, boolean? field => Getter.boolean? field
  | _, choice? field word? choices => Getter.choice? field word? choices
  | _, choice field word? choices => Getter.choice field word? choices
  | _, count? field => Getter.count? field
  | _, fraction field => Getter.fraction field

/-- Every call asks for one field and answers what is found for it. -/
theorem answers (c : ArgumentCall α) : ∃ field found, Answers c.getter field found := by
  cases c with
  | number? field => exact ⟨_, _, Getter.number?_answers⟩
  | number field => exact ⟨_, _, Getter.number_answers⟩
  | boolean? field => exact ⟨_, _, Getter.boolean?_answers⟩
  | choice? field word? choices =>
      exact ⟨_, _, Getter.choice?_answers fun _ _ => Iff.rfl⟩
  | choice field word? choices =>
      exact ⟨_, _, Getter.choice_answers fun _ _ => Iff.rfl⟩
  | count? field => exact ⟨_, _, Getter.count?_answers⟩
  | fraction field => exact ⟨_, _, Getter.fraction_answers⟩

/-- A call that gives something records nothing, and one that gives nothing records one
fault. -/
theorem run_eq (c : ArgumentCall α) (s : Arguments) : ∃ field x,
    c.getter.run s =
      (x.toOption, ⟨s.given, s.asked ++ [field], s.faults ++ (faultOf x).toList⟩) := by
  obtain ⟨field, found, hanswers⟩ := c.answers
  exact ⟨field, found s.given, by rw [hanswers s, Getter.run_answer]⟩

/-- A call takes no fault back. -/
theorem kept (c : ArgumentCall α) (s : Arguments) :
    s.faults <+: (c.getter.run s).2.faults := by
  obtain ⟨field, x, hrun⟩ := c.run_eq s
  rw [hrun]
  exact List.prefix_append _ _

/-- A call that gives nothing has recorded a fault. -/
theorem told (c : ArgumentCall α) (s : Arguments) (h : (c.getter.run s).1 = none) :
    s.faults.length < (c.getter.run s).2.faults.length := by
  obtain ⟨field, x, hrun⟩ := c.run_eq s
  rw [hrun] at h ⊢
  cases x with
  | ok a => cases h
  | error fault => simp [faultOf]

end ArgumentCall

/-! ## Readers -/

/-- A way of reading arguments: calls, each chosen by what the earlier ones gave, and
what is made of all they gave. -/
inductive Reader (α : Type) : Type 1 where
  | done (a? : Option α)
  | call {β : Type} (c : ArgumentCall β) (next : Option β → Reader α)

namespace Reader

variable {α : Type}

/-- What a reader does. -/
def getter : Reader α → Asking (Option α)
  | done a? => pure a?
  | call c next => do
    let b? ← c.getter
    (next b?).getter

/-- Some call of a reader gives nothing. -/
def Refused : Reader α → Arguments → Prop
  | done _, _ => False
  | call c next, s =>
    (c.getter.run s).1 = none ∨ (next (c.getter.run s).1).Refused (c.getter.run s).2

/-- A reader gives nothing only after some call gave nothing. -/
def Earnest (r : Reader α) : Prop := ∀ s, (r.getter.run s).1 = none → r.Refused s

private theorem run_call {β : Type} (c : ArgumentCall β) (next : Option β → Reader α)
    (s : Arguments) :
    (call c next).getter.run s =
      (next (c.getter.run s).1).getter.run (c.getter.run s).2 := rfl

/-- A reader takes no fault back. -/
theorem kept (r : Reader α) : ∀ s, s.faults <+: (r.getter.run s).2.faults := by
  induction r with
  | done a? => exact fun s => List.prefix_refl s.faults
  | call c next ih =>
      intro s
      rw [run_call]
      exact (c.kept s).trans (ih _ _)

/-- When some call gives nothing, a fault has been recorded in the end. -/
theorem told (r : Reader α) :
    ∀ s, r.Refused s → s.faults.length < (r.getter.run s).2.faults.length := by
  induction r with
  | done a? => exact fun s h => h.elim
  | call c next ih =>
      intro s h
      rw [run_call]
      rcases h with hnone | hlater
      · exact Nat.lt_of_lt_of_le (c.told s hnone) ((next _).kept _).length_le
      · exact Nat.lt_of_le_of_lt (c.kept s).length_le (ih _ _ hlater)

end Reader

/-- Arguments are never refused without a fault. -/
def Frank {α : Type} (g : Getter α) : Prop :=
  ∀ aggregator given faults,
    decodeArguments aggregator given g = .error faults → faults ≠ []

/-- Arguments are refused with the faults that have been recorded. -/
theorem decodeArguments_eq_error {α : Type} {aggregator : String}
    {given : List Argument} {g : Getter α} {faults : List ArgumentFault}
    (h : decodeArguments aggregator given g = .error faults) :
    faults = (g.run (.start given)).2.faults ∧
      ((g.run (.start given)).1 = none ∨ faults ≠ []) := by
  unfold decodeArguments at h
  split at h
  rename_i a? s hrun
  rw [hrun]
  split at h
  · split at h
    · cases h
    · rename_i hfaults
      cases h
      exact ⟨rfl, Or.inr fun hnil => hfaults (by rw [hnil]; rfl)⟩
  · cases h
    exact ⟨rfl, Or.inl rfl⟩

/-- A reader that gives nothing only after some call gave nothing tells a fault when it
refuses. -/
theorem Reader.Earnest.frank {α : Type} {r : Reader α} (h : r.Earnest) :
    Frank r.getter := by
  intro aggregator given faults hrefused
  obtain ⟨hfaults, hnone | hfaulty⟩ := decodeArguments_eq_error hrefused
  · have htold := r.told _ (h _ hnone)
    rw [hfaults]
    intro hnil
    rw [hnil] at htold
    cases htold
  · exact hfaulty

/-! ## The readers of the aggregators -/

namespace Reader

variable {α : Type}

theorem earnest_done (a : α) : (done (some a)).Earnest := fun _ h => by cases h

/-- It is enough to look at what comes after calls that gave something. -/
theorem earnest_call {β : Type} {c : ArgumentCall β} {next : Option β → Reader α}
    (h : ∀ b, (next (some b)).Earnest) : (call c next).Earnest := by
  intro s hnone
  rw [run_call] at hnone
  by_cases hrefused : (c.getter.run s).1 = none
  · exact Or.inl hrefused
  · obtain ⟨b, hb⟩ := Option.ne_none_iff_exists'.1 hrefused
    refine Or.inr ?_
    rw [hb] at hnone ⊢
    exact h b _ hnone

end Reader

/-- A union calls no getter. -/
def unionReader : Reader Combination := .done (some .union)

/-- The calls for a threshold. -/
def thresholdReader : Reader Combination :=
  .call (.number "threshold") fun limit? =>
    .call (.choice "operator" Comparison.ofWord?
      (Comparison.all.map Comparison.text)) fun comparison? =>
    .call (.choice? "non_numeric" NonNumeric.ofWord?
      (NonNumeric.all.map NonNumeric.text)) fun nonNumeric? => .done do
        let limit ← limit?
        let comparison ← comparison?
        let nonNumeric ← nonNumeric?
        some (.threshold ⟨limit, comparison, nonNumeric.getD .skip⟩)

/-- The calls for a function of the backend. -/
def backendReader (name : String) : Reader Aggregator :=
  .call (.boolean? "align_sampling") fun align? =>
    .call (.choice? "sampling_unit" SamplingUnit.ofWord?
      (SamplingUnit.all.map (·.text))) fun unit? =>
    .call (.count? "sampling_value") fun count? =>
      let finish (percentile? : Option (Option Float)) : Reader Aggregator := .done do
        let align ← align?
        let unit ← unit?
        let count ← count?
        let percentile ← percentile?
        some ⟨name, align.getD true,
          ⟨unit.getD Sampling.default.unit, count.getD Sampling.default.count⟩,
          percentile⟩
      if name = "percentile" then .call (.fraction "percentile") fun x? =>
        finish (x?.map some)
      else finish (some none)

theorem unionReader_getter : unionReader.getter = unionGetter := rfl

theorem thresholdReader_getter : thresholdReader.getter = thresholdGetter := rfl

theorem backendReader_getter (name : String) :
    (backendReader name).getter = backendGetter name := by
  unfold backendReader backendGetter
  by_cases hname : name = "percentile"
  · simp only [if_pos hname]
    rfl
  · simp only [if_neg hname]
    rfl

theorem earnest_threshold : thresholdReader.Earnest :=
  Reader.earnest_call fun _ => Reader.earnest_call fun _ => Reader.earnest_call fun _ =>
    Reader.earnest_done _

theorem earnest_backend (name : String) : (backendReader name).Earnest := by
  refine Reader.earnest_call fun align => Reader.earnest_call fun unit =>
    Reader.earnest_call fun count => ?_
  dsimp only
  by_cases hname : name = "percentile"
  · rw [if_pos hname]
    exact Reader.earnest_call fun x => Reader.earnest_done _
  · rw [if_neg hname]
    exact Reader.earnest_done _

end SeriesQuery
