import SeriesQuery.Proofs.Plan.Fields
import SeriesQuery.Proofs.Plan.Repeats

/-!
# Arguments read to the end

The arguments of an aggregator are read by following the rules of its fields.  They are
accepted just when no key is given twice and every rule is met; then each setting comes
from the only argument given for its field, or is left as it is by default, and every
argument for no field gives a warning.  Otherwise all keys given twice and all rules
that are not met are told, each once, in order.

## Main results

* `Reads.bind`, `Yields.bind`: rules that are followed one after another.
* `Reads.decodes`: what comes of a getter that follows some rules.
* `decodeBackend_settled`: what a function of the backend is, told from its arguments.
* `decoding_complete`: what comes of the arguments of a threshold and of a function of
  the backend.
-/

namespace SeriesQuery

open SeriesQuery.Backend (Aggregator SamplingUnit Sampling Count)
open Getter (first? Answers)

variable {α β : Type} {given : List Argument}

/-! ## Settings -/

/-- The arguments for a field, whatever the letter case of their keys. -/
def argumentsFor (given : List Argument) (name : String) : List Argument :=
  given.filter fun x => Text.sameIgnoringCase x.key name

/-- A setting is what the only argument for a field means. -/
def Field.Given (f : Field α) (given : List Argument) (a : α) : Prop :=
  ∃ x, argumentsFor given f.name = [x] ∧ f.takes x.value a

/-- A setting is what the only argument for a field means, or stays as it is when there
is none. -/
def Field.GivenOr (f : Field α) (given : List Argument) (default a : α) : Prop :=
  f.Given given a ∨ (argumentsFor given f.name = [] ∧ a = default)

private theorem mem_argumentsFor {name : String} {x : Argument} :
    x ∈ argumentsFor given name ↔
    x ∈ given ∧ Text.sameIgnoringCase x.key name = true := List.mem_filter

private theorem Field.Given.exists_argument {f : Field α} {a : α}
    (h : f.Given given a) :
    ∃ x ∈ given, Text.sameIgnoringCase x.key f.name = true ∧ f.takes x.value a := by
  obtain ⟨x, hx, htakes⟩ := h
  obtain ⟨hmem, hkey⟩ := mem_argumentsFor.1 (hx ▸ List.mem_singleton_self x)
  exact ⟨x, hmem, hkey, htakes⟩

/-- What is given for a field is the only argument for it. -/
theorem Field.Given.takes {f : Field α} {a : α} (h : f.Given given a) {x : Argument}
    (hx : x ∈ given) (hkey : Text.sameIgnoringCase x.key f.name = true) :
    f.takes x.value a := by
  obtain ⟨y, hy, htakes⟩ := h
  have hmem := mem_argumentsFor.2 ⟨hx, hkey⟩
  rw [hy, List.mem_singleton] at hmem
  rw [hmem]
  exact htakes

private theorem length_argumentsFor (h : DistinctKeys given) (name : String) :
    (argumentsFor given name).length ≤ 1 := by
  have hnodup : ((argumentsFor given name).map fun a => folded a.key).Nodup :=
    List.Nodup.sublist (List.filter_sublist.map _) h
  have hsame : ((argumentsFor given name).map fun a => folded a.key) =
      List.replicate (argumentsFor given name).length (folded name) := by
    rw [List.eq_replicate_iff]
    refine ⟨List.length_map _, fun key hkey => ?_⟩
    obtain ⟨x, hx, rfl⟩ := List.mem_map.1 hkey
    exact sameIgnoringCase_iff.1 (mem_argumentsFor.1 hx).2
  rw [hsame, List.nodup_replicate] at hnodup
  exact hnodup

/-- When keys are different, what is first given for a field is all that is given for
it. -/
theorem argumentsFor_eq (h : DistinctKeys given) (name : String) :
    argumentsFor given name =
      (given.find? fun x => Text.sameIgnoringCase x.key name).toList := by
  have hone := length_argumentsFor h name
  rw [← List.head?_filter]
  show argumentsFor given name = (argumentsFor given name).head?.toList
  generalize argumentsFor given name = xs at hone
  match xs, hone with
  | [], _ => rfl
  | [x], _ => rfl

private theorem Field.Given.of_first? {f : Field α} {v : ArgValue} {a : α}
    (h : DistinctKeys given) (hv : first? given f.name = some v) (ha : f.takes v a) :
    f.Given given a := by
  obtain ⟨x, hx, rfl⟩ := Option.map_eq_some_iff.1 hv
  exact ⟨x, by rw [argumentsFor_eq h, hx]; rfl, ha⟩

private theorem Field.Given.of_found {f : Field α} {a : α} (h : DistinctKeys given)
    (ha : f.found given = .ok a) : f.Given given a := by
  obtain ⟨v, hv, htakes⟩ := Field.found_eq_ok.1 ha
  exact .of_first? h hv htakes

private theorem Field.GivenOr.of_found? {f : Field α} {a? : Option α} (default : α)
    (h : DistinctKeys given) (ha : f.found? given = .ok a?) :
    f.GivenOr given default (a?.getD default) := by
  rcases Field.found?_eq_ok.1 ha with ⟨hnone, rfl⟩ | ⟨v, a, hv, htakes, rfl⟩
  · refine Or.inr ⟨?_, rfl⟩
    rw [argumentsFor_eq h, Option.map_eq_none_iff.1 hnone]
    rfl
  · exact Or.inl (.of_first? h hv htakes)

/-! ## Rules that are followed -/

/-- A value is given just when some rules are met, and it is settled when all keys are
different. -/
structure Yields (rules : List FieldRule) (settled : List Argument → α → Prop)
    (given : List Argument) (a? : Option α) : Prop where
  met : a?.isSome = true ↔ ∀ r ∈ rules, r.Met given
  settled : ∀ a, a? = some a → DistinctKeys given → settled given a

namespace Yields

variable {rules rules' : List FieldRule} {settled : List Argument → α → Prop}
  {settled' : List Argument → β → Prop} {a : α} {a? : Option α}

private theorem of_some (h : DistinctKeys given → settled given a) :
    Yields [] settled given (some a) where
  met := by simp
  settled := by
    intro b hb
    cases hb
    exact h

/-- A value that is made of others is given when the rules of all of them are met. -/
theorem bind {f : α → Option β} (h : Yields rules settled given a?)
    (hf : ∀ a, (DistinctKeys given → settled given a) →
      Yields rules' settled' given (f a)) :
    Yields (rules ++ rules') settled' given (a? >>= f) := by
  cases a? with
  | none =>
      refine ⟨iff_of_false (by simp) fun hall => ?_, fun b hb => by cases hb⟩
      have hsome := h.met.2 fun r hr => hall r (List.mem_append_left rules' hr)
      cases hsome
  | some a =>
      have hrest := hf a (h.settled a rfl)
      have hrules := h.met.1 rfl
      refine ⟨?_, hrest.settled⟩
      show (f a).isSome = true ↔ _
      rw [hrest.met, List.forall_mem_append, and_iff_right hrules]

private theorem bind_some {f : α → β} (h : Yields rules settled given a?)
    (hf : ∀ a, settled given a → DistinctKeys given → settled' given (f a)) :
    Yields rules settled' given (a? >>= fun a => some (f a)) where
  met := by
    rw [← h.met]
    cases a? <;> simp
  settled := by
    intro b hb hdistinct
    obtain ⟨a, ha, hab⟩ := Option.bind_eq_some_iff.1 hb
    cases hab
    exact hf a (h.settled a ha hdistinct) hdistinct

private theorem map (h : Yields rules settled given a?) (f : α → β) :
    Yields rules (fun given b => ∃ a, settled given a ∧ b = f a) given (a?.map f) where
  met := by
    rw [Option.isSome_map]
    exact h.met
  settled := by
    intro b hb hdistinct
    obtain ⟨a, ha, hab⟩ := Option.map_eq_some_iff.1 hb
    exact ⟨a, h.settled a ha hdistinct, hab.symm⟩

end Yields

/-- A getter follows some rules one after another, and something holds of what it
gives. -/
def Reads (g : Asking (Option α)) (rules : List FieldRule)
    (P : List Argument → Option α → Prop) : Prop :=
  ∀ s, (g.run s).2 = rules.foldl Arguments.follow s ∧ P s.given (g.run s).1

private theorem reads_pure {P : List Argument → Option α → Prop} {a? : Option α}
    (h : ∀ given, P given a?) : Reads (pure a?) [] P :=
  fun s => ⟨rfl, h s.given⟩

/-- Following some rules, and then others. -/
theorem Reads.bind {g : Asking (Option α)} {k : Option α → Asking (Option β)}
    {rules rules' : List FieldRule} {P : List Argument → Option α → Prop}
    {Q : List Argument → Option β → Prop} (hg : Reads g rules P)
    (hk : ∀ a?, Reads (k a?) rules' fun given b? => P given a? → Q given b?) :
    Reads (g >>= k) (rules ++ rules') Q := by
  intro s
  obtain ⟨hstate, hvalue⟩ := hg s
  obtain ⟨hstate', hvalue'⟩ := hk (g.run s).1 (g.run s).2
  have hgiven : (g.run s).2.given = s.given := by rw [hstate, follow_eq]
  rw [hgiven] at hvalue'
  refine ⟨?_, hvalue' hvalue⟩
  rw [List.foldl_append, ← hstate]
  exact hstate'

private theorem Reads.map {g : Asking (Option α)} {rules : List FieldRule}
    {settled : List Argument → α → Prop} (h : Reads g rules (Yields rules settled))
    (f : α → β) :
    Reads (Option.map f <$> g) rules
      (Yields rules fun given b => ∃ a, settled given a ∧ b = f a) := by
  intro s
  obtain ⟨hstate, hvalue⟩ := h s
  exact ⟨hstate, hvalue.map f⟩

/-- Following some rules or others, and then going on in the same way. -/
theorem Reads.bind_ite {c : Prop} [Decidable c] {g h : Asking (Option α)}
    {k : Option α → Asking (Option β)} {rules rules' : List FieldRule}
    {settled : List Argument → α → Prop} {Q : List Argument → Option β → Prop}
    (hg : c → Reads g rules (Yields rules settled))
    (hh : ¬c → Reads h rules' (Yields rules' settled))
    (hk : ∀ a?, Reads (k a?) [] fun given b? =>
      Yields (if c then rules else rules') settled given a? → Q given b?) :
    Reads (if c then g >>= k else h >>= k) (if c then rules else rules') Q := by
  by_cases hc : c
  · simp only [if_pos hc] at hk ⊢
    have hall := (hg hc).bind hk
    rwa [List.append_nil] at hall
  · simp only [if_neg hc] at hk ⊢
    have hall := (hh hc).bind hk
    rwa [List.append_nil] at hall

private theorem Getter.Answers.reads {g : Asking (Option α)} {r : FieldRule}
    {found : List Argument → Except ArgumentFault α}
    {settled : List Argument → α → Prop} (h : Answers g r.field found)
    (hfault : ∀ given, r.fault? given = faultOf (found given))
    (hsettled : ∀ {given a}, found given = .ok a → DistinctKeys given →
      settled given a) :
    Reads g [r] (Yields [r] settled) := by
  intro s
  rw [h s, run_answer]
  refine ⟨?_, ?_, ?_⟩
  · simp [Arguments.follow, hfault]
  · rw [List.forall_mem_singleton, ← r.fault?_eq_none, hfault]
    cases found s.given <;> simp [faultOf, Except.toOption]
  · intro a ha
    apply hsettled
    cases hfound : found s.given with
    | error fault => simp [hfound, Except.toOption] at ha
    | ok b => simpa [hfound, Except.toOption] using ha

/-- A getter follows the rule of a field that may be left out. -/
theorem Getter.Answers.reads_optional {g : Getter (Option α)} {f : Field α}
    (h : Answers g f.name f.found?) :
    Reads g [f.optional] (Yields [f.optional] fun given a? =>
      ∀ default, f.GivenOr given default (a?.getD default)) :=
  h.reads (r := f.optional) (fun _ => rfl) fun hfound hdistinct default =>
    .of_found? default hdistinct hfound

/-- A getter follows the rule of a field that has to be given. -/
theorem Getter.Answers.reads_required {g : Getter α} {f : Field α}
    (h : Answers g f.name f.found) :
    Reads g [f.required] (Yields [f.required] f.Given) :=
  h.reads (r := f.required) (fun _ => rfl) fun hfound hdistinct =>
    .of_found hdistinct hfound

/-! ## Decoding -/

/-- The faults of arguments: keys given more than once, and rules that are not met. -/
def faultsOf (rules : List FieldRule) (given : List Argument) : List ArgumentFault :=
  (Arguments.secondKeys [] given).map .repeated ++ rules.filterMap fun r =>
    r.fault? given

private theorem faultsOf_eq_nil {rules : List FieldRule} : faultsOf rules given = [] ↔
    DistinctKeys given ∧ ∀ r ∈ rules, r.Met given := by
  unfold faultsOf
  rw [List.append_eq_nil_iff, List.map_eq_nil_iff, secondKeys_eq_nil,
    List.filterMap_eq_nil_iff]
  simp only [FieldRule.fault?_eq_none]

/-- What comes of the arguments of an aggregator that has rules for its fields. -/
structure Decodes (rules : List FieldRule) (aggregator : String)
    (settled : List Argument → α → Prop) (given : List Argument)
    (answer : Except (List ArgumentFault) (Decoded α)) : Prop where
  accepted : (∃ d, answer = .ok d) ↔
    DistinctKeys given ∧ ∀ r ∈ rules, r.Met given
  value : ∀ d, answer = .ok d → settled given d.value
  warnings : ∀ d, answer = .ok d → d.warnings =
    (given.filter fun a => rules.all fun r => !Text.sameIgnoringCase a.key r.field).map
      fun a => leftOverMessage aggregator a.key
  faults : ∀ fs, answer = .error fs → ∃ keys, Repeats given keys ∧
    fs = keys.map .repeated ++ rules.filterMap fun r => r.fault? given

private theorem decodeArguments_of_clean {g : Getter α} {aggregator : String} {a : α}
    {s : Arguments} (hrun : g.run (.start given) = (some a, s))
    (hclean : s.faults = []) :
    decodeArguments aggregator given g =
      .ok ⟨a, s.leftOver.map (leftOverMessage aggregator)⟩ := by
  simp [decodeArguments, hrun, hclean]

private theorem decodeArguments_of_faulty {g : Getter α} {aggregator : String}
    (hfaulty : (g.run (.start given)).2.faults ≠ []) :
    decodeArguments aggregator given g = .error (g.run (.start given)).2.faults := by
  unfold decodeArguments
  generalize g.run (.start given) = answer at hfaulty
  obtain ⟨a?, s⟩ := answer
  cases a? with
  | none => rfl
  | some a => simpa using hfaulty

/-- What comes of a getter that follows some rules, and gives a value just when they are
met. -/
theorem Reads.decodes {g : Getter α} {rules : List FieldRule}
    {settled : List Argument → α → Prop} (h : Reads g rules (Yields rules settled))
    (aggregator : String) (given : List Argument) :
    Decodes rules aggregator settled given (decodeArguments aggregator given g) := by
  obtain ⟨hfollow, hvalue⟩ := h (.start given)
  have hstate : (g.run (.start given)).2 =
      ⟨given, rules.map FieldRule.field, faultsOf rules given⟩ := by
    rw [hfollow, follow_eq]
    rfl
  by_cases hclean : faultsOf rules given = []
  · obtain ⟨hdistinct, hmet⟩ := faultsOf_eq_nil.1 hclean
    obtain ⟨a, ha⟩ := Option.isSome_iff_exists.1 (hvalue.met.2 hmet)
    rw [decodeArguments_of_clean (Prod.ext ha hstate) hclean]
    refine ⟨iff_of_true ⟨_, rfl⟩ ⟨hdistinct, hmet⟩, ?_, ?_, ?_⟩
    · intro d hd
      cases hd
      exact hvalue.settled a ha hdistinct
    · intro d hd
      cases hd
      simp [Arguments.leftOver, Arguments.isAsked, Function.comp_def,
        List.not_any_eq_all_not]
    · intro fs hfs
      cases hfs
  · have hfaults : (g.run (.start given)).2.faults =
        faultsOf rules given := by rw [hstate]
    rw [decodeArguments_of_faulty (hfaults ▸ hclean), hfaults]
    refine ⟨iff_of_false (by simp) (fun h => hclean (faultsOf_eq_nil.2 h)), ?_, ?_, ?_⟩
    · intro d hd
      cases hd
    · intro d hd
      cases hd
    · intro fs hfs
      cases hfs
      exact ⟨_, repeats_secondKeys given, rfl⟩

/-! ## Fields of the aggregators -/

/-- The only item of which something holds is found in a list of all items. -/
theorem find?_eq_some_of_unique {P : α → Prop} {p : α → Bool} {xs : List α} {a : α}
    (hp : ∀ b, p b = true ↔ P b) (hall : ∀ b, b ∈ xs)
    (hone : ∀ b c, P b → P c → b = c) : xs.find? p = some a ↔ P a := by
  constructor
  · intro h
    exact (hp a).1 (List.find?_some h)
  · intro ha
    obtain ⟨b, hb⟩ := Option.isSome_iff_exists.1
      (List.find?_isSome.2 ⟨a, hall a, (hp a).2 ha⟩)
    rw [hb, hone b a ((hp b).1 (List.find?_some hb)) ha]

private theorem Comparison.ofWord?_eq_some (s : String) (c : Comparison) :
    Comparison.ofWord? s = some c ↔ Text.sameIgnoringCase c.text s = true := by
  refine find?_eq_some_of_unique (fun _ => Iff.rfl) (fun c => by cases c <;> decide) ?_
  have hone : ∀ c c' : Comparison, folded c.text = folded c'.text → c = c' := by
    intro c c'
    cases c <;> cases c' <;> decide
  intro c c' hc hc'
  exact hone c c' ((sameIgnoringCase_iff.1 hc).trans (sameIgnoringCase_iff.1 hc').symm)

private theorem NonNumeric.ofWord?_eq_some (s : String) (p : NonNumeric) :
    NonNumeric.ofWord? s = some p ↔ p.text = Text.lower s := by
  refine find?_eq_some_of_unique (fun _ => beq_iff_eq)
    (fun p => by cases p <;> decide) ?_
  have hone : ∀ p p' : NonNumeric, p.text = p'.text → p = p' := by
    intro p p'
    cases p <;> cases p' <;> decide
  intro p p' hp hp'
  exact hone p p' (hp.trans hp'.symm)

theorem Backend.SamplingUnit.ofWord?_eq_some (s : String) (u : SamplingUnit) :
    SamplingUnit.ofWord? s = some u ↔
      u.text = Text.lower s ∨ u.singular = Text.lower s := by
  refine find?_eq_some_of_unique
    (P := fun u : SamplingUnit => u.text = Text.lower s ∨ u.singular = Text.lower s)
    (fun u => by simp) (fun u => by cases u <;> decide) ?_
  have hone : ∀ u u' : SamplingUnit, (u.text = u'.text ∨ u.text = u'.singular ∨
      u.singular = u'.text ∨ u.singular = u'.singular) → u = u' := by
    intro u u'
    cases u <;> cases u' <;> decide
  intro u u' hu hu'
  apply hone
  rcases hu with hu | hu <;> rcases hu' with hu' | hu' <;> simp [hu, hu']

namespace Threshold

/-- The limit of a threshold. -/
def limitField : Field Float := .number "threshold"

/-- The comparison of a threshold. -/
def comparisonField : Field Comparison :=
  .choice "operator" Comparison.ofWord?
    (fun s c => Text.sameIgnoringCase c.text s = true)
    Comparison.ofWord?_eq_some (Comparison.all.map Comparison.text)

/-- What a threshold does about points that are no numbers. -/
def nonNumericField : Field NonNumeric :=
  .choice "non_numeric" NonNumeric.ofWord? (fun s p => p.text = Text.lower s)
    NonNumeric.ofWord?_eq_some (NonNumeric.all.map NonNumeric.text)

/-- What a threshold requires of its arguments. -/
def rules : List FieldRule :=
  [limitField.required, comparisonField.required, nonNumericField.optional]

/-- A threshold is what its arguments say. -/
structure GivenBy (given : List Argument) (t : Threshold) : Prop where
  limit : limitField.Given given t.limit
  comparison : comparisonField.Given given t.comparison
  nonNumeric : nonNumericField.GivenOr given .skip t.nonNumeric

end Threshold

namespace Backend.Aggregator

/-- Whether windows are aligned. -/
def alignField : Field Bool := .boolean "align_sampling"

/-- The unit of the length of a window. -/
def unitField : Field SamplingUnit :=
  .choice "sampling_unit" SamplingUnit.ofWord?
    (fun s u => u.text = Text.lower s ∨ u.singular = Text.lower s)
    SamplingUnit.ofWord?_eq_some (SamplingUnit.all.map (·.text))

/-- The length of a window in its unit. -/
def countField : Field Count := .count "sampling_value"

/-- The fraction of a percentile. -/
def fractionField : Field Float := .fraction "percentile"

/-- What a function of the backend requires of its arguments. -/
def rules (name : String) : List FieldRule :=
  [alignField.optional, unitField.optional, countField.optional] ++
    if name = "percentile" then [fractionField.required] else []

/-- A percentile has the fraction that is given for it, and no other function has
one. -/
def FractionGiven (name : String) (given : List Argument) (x? : Option Float) : Prop :=
  if name = "percentile" then ∃ x, fractionField.Given given x ∧ x? = some x
  else x? = none

private theorem FractionGiven.isSome_iff {name : String} {x? : Option Float}
    (h : FractionGiven name given x?) : x?.isSome ↔ name = "percentile" := by
  unfold FractionGiven at h
  by_cases hname : name = "percentile"
  · rw [if_pos hname] at h
    obtain ⟨x, -, rfl⟩ := h
    exact iff_of_true rfl hname
  · rw [if_neg hname] at h
    exact iff_of_false (by simp [h]) hname

private theorem FractionGiven.is_given {name : String} {x : Float}
    (h : FractionGiven name given (some x)) : fractionField.Given given x := by
  have hname := h.isSome_iff.1 rfl
  rw [FractionGiven, if_pos hname] at h
  obtain ⟨y, hy, hxy⟩ := h
  cases hxy
  exact hy

/-- A function of the backend is what its arguments say. -/
structure GivenBy (name : String) (given : List Argument) (f : Aggregator) : Prop where
  named : f.name = name
  align : alignField.GivenOr given true f.alignSampling
  unit : unitField.GivenOr given .minutes f.sampling.unit
  count : countField.GivenOr given ⟨1, by decide⟩ f.sampling.count
  fraction : FractionGiven name given f.percentile

end Backend.Aggregator

/-! ## What comes of arguments -/

private theorem reads_threshold :
    Reads thresholdGetter Threshold.rules (Yields Threshold.rules
    fun given c => ∃ t, c = .threshold t ∧ t.GivenBy given) := by
  unfold thresholdGetter
  apply Reads.bind (Getter.number_answers.reads_required (f := Threshold.limitField))
  intro limit?
  apply Reads.bind ((Getter.choice_answers Comparison.ofWord?_eq_some).reads_required
    (f := Threshold.comparisonField))
  intro comparison?
  apply Reads.bind ((Getter.choice?_answers NonNumeric.ofWord?_eq_some).reads_optional
    (f := Threshold.nonNumericField))
  intro nonNumeric?
  apply reads_pure
  intro given hnonNumeric hcomparison hlimit
  refine hlimit.bind fun limit hlimit => hcomparison.bind fun comparison hcomparison =>
    hnonNumeric.bind_some fun nonNumeric hnonNumeric hdistinct => ⟨_, rfl, ?_⟩
  exact ⟨hlimit hdistinct, hcomparison hdistinct, hnonNumeric .skip⟩

private theorem reads_fraction {name : String} (h : name = "percentile") :
    Reads (Option.map some <$> Getter.fraction "percentile")
      [Aggregator.fractionField.required]
      (Yields [Aggregator.fractionField.required] (Aggregator.FractionGiven name)) := by
  have hfraction :=
    Getter.fraction_answers.reads_required (f := Aggregator.fractionField)
  unfold Aggregator.FractionGiven
  simp only [if_pos h]
  exact hfraction.map some

private theorem reads_noFraction {name : String} (h : name ≠ "percentile") :
    Reads (pure (some none)) [] (Yields [] (Aggregator.FractionGiven name)) := by
  refine reads_pure fun given => .of_some fun _ => ?_
  rw [Aggregator.FractionGiven, if_neg h]

private theorem reads_backend (name : String) :
    Reads (backendGetter name) (Aggregator.rules name)
    (Yields (Aggregator.rules name) (Aggregator.GivenBy name)) := by
  unfold backendGetter
  apply Reads.bind (Getter.boolean?_answers.reads_optional (f := Aggregator.alignField))
  intro align?
  apply Reads.bind ((Getter.choice?_answers SamplingUnit.ofWord?_eq_some).reads_optional
    (f := Aggregator.unitField))
  intro unit?
  apply Reads.bind (Getter.count?_answers.reads_optional (f := Aggregator.countField))
  intro count?
  refine Reads.bind_ite reads_fraction reads_noFraction fun percentile? => reads_pure ?_
  intro given hpercentile hcount hunit halign
  refine halign.bind fun align halign => hunit.bind fun unit hunit =>
    hcount.bind fun count hcount =>
      hpercentile.bind_some fun percentile hpercentile hdistinct => ?_
  exact ⟨rfl, halign hdistinct true, hunit hdistinct .minutes,
    hcount hdistinct ⟨1, by decide⟩, hpercentile⟩

/-! ## Functions of the backend -/

/-- **What a function of the backend is.**  It has the name of the aggregation; its
count is the number given for it, or one; it has a fraction just if it is a percentile,
and the fraction is the number given for it, above zero and not above one. -/
structure Backend.Aggregator.SettledBy (f : Aggregator) (name : String)
    (given : List Argument) :
    Prop where
  named : f.name = name
  count : ∀ a ∈ given, Text.sameIgnoringCase a.key "sampling_value" = true →
    ∃ x, a.value = .number x ∧ Decimal.isFinite x = true ∧
      (Decimal.Binary.ofFloat x).value = f.sampling.count.val
  one : (∀ a ∈ given, Text.sameIgnoringCase a.key "sampling_value" = false) →
    f.sampling.count.val = 1
  percentile : f.percentile.isSome ↔ name = "percentile"
  fraction : ∀ x, f.percentile = some x →
    0 < x ∧ x ≤ 1 ∧
      ∃ a ∈ given, Text.sameIgnoringCase a.key "percentile" = true ∧ a.value = .number x

private theorem Backend.Aggregator.GivenBy.settledBy {name : String} {f : Aggregator}
    (h : Aggregator.GivenBy name given f) : f.SettledBy name given where
  named := h.named
  count := by
    intro a ha hkey
    rcases h.count with hgiven | ⟨hnone, -⟩
    · obtain ⟨x, hx, hcount⟩ := hgiven.takes ha hkey
      exact ⟨x, hx, hcount⟩
    · exact absurd (mem_argumentsFor.2 ⟨ha, hkey⟩) (hnone ▸ List.not_mem_nil)
  one := by
    intro hnone
    rcases h.count with hgiven | ⟨-, hdefault⟩
    · obtain ⟨a, ha, hkey, -⟩ := hgiven.exists_argument
      exact absurd hkey (Bool.eq_false_iff.1 (hnone a ha))
    · rw [hdefault]
  percentile := h.fraction.isSome_iff
  fraction := by
    intro x hx
    have hfraction : FractionGiven name given (some x) := hx ▸ h.fraction
    obtain ⟨a, ha, hkey, _, hnumber, rfl, hlow, hhigh⟩ :=
      hfraction.is_given.exists_argument
    exact ⟨hlow, hhigh, a, ha, hkey, hnumber⟩

theorem decodeBackend_settled {name : String} {given : List Argument}
    {d : Decoded Aggregator} (h : decodeBackend name given = .ok d) :
    d.value.SettledBy name given :=
  (((reads_backend name).decodes name given).value d h).settledBy

/-! ## All arguments -/

/-- **Arguments read to the end.**  Whatever arguments are given to a threshold or to a
function of the backend, they are accepted just when all keys are different and every
rule is met; then each setting is what the only argument for its field says, or its
default, and the arguments for no field are warned of.  Otherwise every key given more
than once and every rule that is not met is told. -/
theorem decoding_complete (given : List Argument) :
    (∃ answer, Combiners.standard.decode? "threshold" given = some answer ∧
      Decodes Threshold.rules "threshold" (fun given c => ∃ t, c = .threshold t ∧
        t.GivenBy given) given answer) ∧
    ∀ name, Decodes (Aggregator.rules name) name (Aggregator.GivenBy name) given
      (decodeBackend name given) :=
  ⟨⟨_, rfl, reads_threshold.decodes "threshold" given⟩,
    fun name => (reads_backend name).decodes name given⟩

end SeriesQuery
