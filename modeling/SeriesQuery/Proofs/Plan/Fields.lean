import SeriesQuery.Proofs.Fallible
import SeriesQuery.Proofs.Plan.Arguments

/-!
# Fields

A field of an aggregator takes some values and means something by each of them; of every
other value it says what is wrong.  A field may be narrower than another, when it takes
only some of the other one's values.  A rule says whether a field has to be given, and
finds fault with arguments that fall short of it.

Each getter asks for one field and answers what is found for it, also where it is made
of other getters.  So whoever asks for some fields follows their rules, and records the
fault of each.

## Main results

* `Field.found_narrow`, `Field.found?_narrow`: what is found for a narrower field.
* `follow_eq`: what is asked and recorded when some rules are followed.
* `Getter.number_answers`, `Getter.count?_answers` and others: what a getter asks for
  and answers.
-/

namespace SeriesQuery

open SeriesQuery.Backend (Count)
open Getter (first?)

/-! ## Fields -/

/-- The argument that a fault is about. -/
def ArgumentFault.about : ArgumentFault → String
  | missing field => field
  | wrongForm field _ _ => field
  | unknownChoice field _ _ => field
  | notPositive field _ => field
  | notFraction field _ => field
  | repeated key => key

/-- A field of an aggregator: which values it takes and what it means by them, and how
it reads a value, or finds fault with it. -/
structure Field (α : Type) where
  name : String
  takes : ArgValue → α → Prop
  read : ArgValue → Except ArgumentFault α
  read_ok : ∀ v a, read v = .ok a ↔ takes v a
  read_error : ∀ v fault, read v = .error fault → fault.about = name

namespace Field

variable {α β : Type}

/-- Values of one form. -/
def ofForm (name expected : String) (pick : ArgValue → Option α)
    (means : ArgValue → α → Prop)
    (pick_eq_some : ∀ v a, pick v = some a ↔ means v a) : Field α where
  name := name
  takes := means
  read v := (pick v).elim (.error (.wrongForm name expected v.form)) .ok
  read_ok v a := by
    rw [← pick_eq_some]
    cases pick v <;> simp
  read_error v fault h := by
    cases ha : pick v with
    | none =>
        simp only [ha, Option.elim_none, Except.error.injEq] at h
        rw [← h]
        rfl
    | some a => simp [ha] at h

/-- A number. -/
def number (name : String) : Field Float :=
  ofForm name "number" (fun | .number x => some x | _ => none)
    (fun v x => v = .number x)
    fun v _ => by cases v <;> simp

/-- A truth value. -/
def boolean (name : String) : Field Bool :=
  ofForm name "boolean" (fun | .boolean b => some b | _ => none)
    (fun v b => v = .boolean b)
    fun v _ => by cases v <;> simp

/-- A text, quoted or not. -/
def text (name : String) : Field String :=
  ofForm name "string or identifier" ArgValue.chars?
    (fun v s => v = .text s ∨ v = .word s)
    fun v _ => by cases v <;> simp [ArgValue.chars?]

/-- A field that takes only some values of another field, and means something else by
them. -/
def narrow (f : Field α) (pick : α → Option β) (means : α → β → Prop)
    (pick_eq_some : ∀ a b, pick a = some b ↔ means a b) (fault : α → ArgumentFault)
    (fault_about : ∀ a, (fault a).about = f.name) : Field β where
  name := f.name
  takes v b := ∃ a, f.takes v a ∧ means a b
  read v :=
    match f.read v with
    | .ok a => (pick a).elim (.error (fault a)) .ok
    | .error fault => .error fault
  read_ok v b := by
    constructor
    · intro h
      cases ha : f.read v with
      | error fault => simp [ha] at h
      | ok a =>
          refine ⟨a, (f.read_ok v a).1 ha, (pick_eq_some a b).1 ?_⟩
          cases hb : pick a with
          | none => simp [ha, hb] at h
          | some b' => simpa [ha, hb] using h
    · rintro ⟨a, ha, hb⟩
      simp [(f.read_ok v a).2 ha, (pick_eq_some a b).2 hb]
  read_error v e h := by
    cases ha : f.read v with
    | error e' =>
        simp only [ha, Except.error.injEq] at h
        exact f.read_error v e (by rw [ha, h])
    | ok a =>
        cases hb : pick a with
        | none =>
            simp only [ha, hb, Option.elim_none, Except.error.injEq] at h
            rw [← h]
            exact fault_about a
        | some b => simp [ha, hb] at h

/-- One of some words. -/
def choice (name : String) (word? : String → Option α) (names : String → α → Prop)
    (word?_eq_some : ∀ s a, word? s = some a ↔ names s a)
    (choices : List String) : Field α :=
  (text name).narrow word? names word?_eq_some
    (.unknownChoice name · choices) fun _ => rfl

/-- A positive whole number of 32 bits. -/
def count (name : String) : Field Count :=
  (number name).narrow countOf?
    (fun x n => Decimal.isFinite x = true ∧ (Decimal.Binary.ofFloat x).value = n.val)
    (fun _ _ => countOf?_eq_some) (.notPositive name) fun _ => rfl

/-- A number above zero and not above one. -/
def fraction (name : String) : Field Float :=
  (number name).narrow (fun x => if x > 0 && x <= 1 then some x else none)
    (fun x y => x = y ∧ 0 < x ∧ x ≤ 1)
    (fun x y => by
      simp only [Option.ite_none_right_eq_some, Bool.and_eq_true, decide_eq_true_eq,
        Option.some.injEq]
      tauto)
    (.notFraction name) fun _ => rfl

end Field

/-! ## What is found for a field -/

/-- What is wrong, if anything is. -/
def faultOf {ε α : Type} : Except ε α → Option ε
  | .ok _ => none
  | .error e => some e

private theorem faultOf_eq_none {ε α : Type} {x : Except ε α} : faultOf x = none ↔
    ∃ a, x = .ok a := by
  cases x <;> simp [faultOf]

private theorem faultOf_eq_some {ε α : Type} {x : Except ε α} {e : ε} :
    faultOf x = some e ↔ x = .error e := by
  cases x <;> simp [faultOf]

namespace Field

variable {α β : Type} {f : Field α} {given : List Argument}

/-- What is found for a field that may be left out: what is first given for it
counts. -/
def found? (f : Field α) (given : List Argument) : Except ArgumentFault (Option α) :=
  (first? given f.name).elim (.ok none) fun v => (f.read v).map some

/-- What is found for a field that has to be given. -/
def found (f : Field α) (given : List Argument) : Except ArgumentFault α :=
  (first? given f.name).elim (.error (.missing f.name)) f.read

/-- A field that has to be given is found like one that may be left out. -/
theorem found_eq_bind (f : Field α) (given : List Argument) :
    f.found given = (f.found? given).bind fun a? =>
      a?.elim (.error (.missing f.name)) .ok := by
  unfold found found?
  cases first? given f.name with
  | none => rfl
  | some v =>
      simp only [Option.elim_some]
      cases f.read v <;> rfl

theorem found?_eq_ok {a? : Option α} : f.found? given = .ok a? ↔
    (first? given f.name = none ∧ a? = none) ∨
      ∃ v a, first? given f.name = some v ∧ f.takes v a ∧ a? = some a := by
  unfold found?
  cases hv : first? given f.name with
  | none => simp [eq_comm]
  | some v =>
      simp only [Option.elim_some, Fallible.map_eq_ok_iff, f.read_ok]
      simp [eq_comm]

theorem found_eq_ok {a : α} :
    f.found given = .ok a ↔ ∃ v, first? given f.name = some v ∧ f.takes v a := by
  unfold found
  cases hv : first? given f.name with
  | none => simp
  | some v => simp [f.read_ok]

section Narrow

variable {pick : α → Option β} {means : α → β → Prop}
  {pick_eq_some : ∀ a b, pick a = some b ↔ means a b} {fault : α → ArgumentFault}
  {fault_about : ∀ a, (fault a).about = f.name}

/-- What is found for a narrower field is picked from what is found for the wider
one. -/
theorem found_narrow :
    (f.narrow pick means pick_eq_some fault fault_about).found given =
      (f.found given).bind fun a => (pick a).elim (.error (fault a)) .ok := by
  unfold found
  show (first? given f.name).elim _ _ = _
  cases first? given f.name with
  | none => rfl
  | some v =>
      show (match f.read v with | .ok a => _ | .error e => _) = _
      simp only [Option.elim_some]
      cases f.read v <;> rfl

theorem found?_narrow :
    (f.narrow pick means pick_eq_some fault fault_about).found? given =
      (f.found? given).bind fun a? =>
        a?.elim (.ok none) fun a => (pick a).elim (.error (fault a)) (.ok ∘ some) := by
  unfold found?
  show (first? given f.name).elim _ _ = _
  cases first? given f.name with
  | none => rfl
  | some v =>
      show Except.map some (match f.read v with | .ok a => _ | .error e => _) = _
      simp only [Option.elim_some]
      cases f.read v with
      | error e => rfl
      | ok a =>
          simp only [Except.map, Except.bind, Option.elim_some]
          cases pick a <;> rfl

end Narrow

private theorem found?_about {fault : ArgumentFault}
    (h : f.found? given = .error fault) : fault.about = f.name := by
  unfold found? at h
  cases hv : first? given f.name with
  | none => simp [hv] at h
  | some v =>
      cases hread : f.read v with
      | ok a => simp [hv, hread, Except.map] at h
      | error fault' =>
          simp only [hv, hread, Option.elim_some, Except.map, Except.error.injEq] at h
          exact f.read_error v fault (hread.trans (congrArg _ h))

private theorem found_about {fault : ArgumentFault} (h : f.found given = .error fault) :
    fault.about = f.name := by
  unfold found at h
  cases hv : first? given f.name with
  | none =>
      simp only [hv, Option.elim_none, Except.error.injEq] at h
      rw [← h]
      rfl
  | some v => exact f.read_error v fault (by simpa [hv] using h)

end Field

/-! ## Rules -/

/-- What an aggregator requires of its arguments in one field, and the fault of
arguments that fall short of it. -/
structure FieldRule where
  field : String
  Met : List Argument → Prop
  fault? : List Argument → Option ArgumentFault
  fault?_eq_none : ∀ given, fault? given = none ↔ Met given
  fault?_about : ∀ given fault, fault? given = some fault → fault.about = field

/-- A field may be left out, and what is first given for it has to be a value that it
takes. -/
def Field.optional {α : Type} (f : Field α) : FieldRule where
  field := f.name
  Met given := ∀ v, first? given f.name = some v → ∃ a, f.takes v a
  fault? given := faultOf (f.found? given)
  fault?_eq_none given := by
    simp only [faultOf_eq_none, Field.found?_eq_ok]
    cases first? given f.name with
    | none => simp
    | some v => simp
  fault?_about given fault h := Field.found?_about (faultOf_eq_some.1 h)

/-- A field has to be given, and what is first given for it has to be a value that it
takes. -/
def Field.required {α : Type} (f : Field α) : FieldRule where
  field := f.name
  Met given := ∃ v a, first? given f.name = some v ∧ f.takes v a
  fault? given := faultOf (f.found given)
  fault?_eq_none given := by
    simp only [faultOf_eq_none, Field.found_eq_ok]
    exact exists_comm
  fault?_about given fault h := Field.found_about (faultOf_eq_some.1 h)

/-- One rule is followed: its field is asked for, and its fault is recorded. -/
def Arguments.follow (s : Arguments) (r : FieldRule) : Arguments :=
  ⟨s.given, s.asked ++ [r.field], s.faults ++ (r.fault? s.given).toList⟩

theorem follow_eq (rules : List FieldRule) :
    ∀ s : Arguments, rules.foldl Arguments.follow s =
    ⟨s.given, s.asked ++ rules.map FieldRule.field,
      s.faults ++ rules.filterMap fun r => r.fault? s.given⟩ := by
  induction rules with
  | nil => intro s; simp
  | cons r rules ih =>
      intro s
      rw [List.foldl_cons, ih]
      cases hfault : r.fault? s.given with
      | none => simp [Arguments.follow, hfault]
      | some fault => simp [Arguments.follow, hfault]

/-! ## Getters -/

namespace Getter

variable {α β : Type} {f : Field α} {field : String}

/-- Gives what is found, or records why it is none. -/
def answer : Except ArgumentFault α → Asking (Option α)
  | .ok a => return some a
  | .error fault => refuse fault

theorem run_answer (x : Except ArgumentFault α) (s : Arguments) :
    (answer x).run s =
      (x.toOption, { s with faults := s.faults ++ (faultOf x).toList }) := by
  cases x with
  | ok a => simp [faultOf, Except.toOption]; rfl
  | error fault => rfl

/-- A getter asks for a field and answers what is found for it. -/
def Answers (g : Asking (Option α)) (field : String)
    (found : List Argument → Except ArgumentFault α) : Prop :=
  ∀ s, g.run s = (answer (found s.given)).run { s with asked := s.asked ++ [field] }

private theorem answers_ask {k : Option ArgValue → Asking (Option (Option α))}
    (hnone : k none = pure (some none))
    (hsome : ∀ v, k (some v) = answer ((f.read v).map some)) :
    Answers (ask f.name >>= k) f.name f.found? := by
  intro s
  show (k (first? s.given f.name)).run { s with asked := s.asked ++ [f.name] } = _
  unfold Field.found?
  cases first? s.given f.name with
  | none => rw [hnone]; rfl
  | some v => rw [hsome]; rfl

theorem number?_answers :
    Answers (number? field) field (Field.number field).found? := by
  refine answers_ask (f := Field.number field) rfl fun v => ?_
  cases v <;> rfl

theorem boolean?_answers :
    Answers (boolean? field) field (Field.boolean field).found? := by
  refine answers_ask (f := Field.boolean field) rfl fun v => ?_
  cases v <;> rfl

theorem choice?_answers {word? : String → Option α} {names : String → α → Prop}
    {choices : List String} (hword : ∀ s a, word? s = some a ↔ names s a) :
    Answers (choice? field word? choices) field
      (Field.choice field word? names hword choices).found? := by
  unfold choice?
  refine answers_ask (f := Field.choice field word? names hword choices) rfl fun v => ?_
  simp only [Field.choice, Field.narrow, Field.text, Field.ofForm]
  cases v.chars? with
  | none => rfl
  | some s => cases hread : word? s <;> simp [hread, answer, Except.map]

/-- What a getter answers may be judged further, without asking again. -/
theorem Answers.bind {g : Asking (Option α)} {k : Option α → Asking (Option β)}
    {found : List Argument → Except ArgumentFault α}
    {found' : List Argument → Except ArgumentFault β}
    {judge : α → Except ArgumentFault β} (hg : Answers g field found)
    (hnone : k none = pure none) (hsome : ∀ a, k (some a) = answer (judge a))
    (hfound : ∀ given, found' given = (found given).bind judge) :
    Answers (g >>= k) field found' := by
  intro s
  show (k (g.run s).1).run (g.run s).2 = _
  rw [hg s, hfound]
  cases found s.given with
  | error fault =>
      show (k none).run _ = _
      rw [hnone]
      rfl
  | ok a =>
      show (k (some a)).run _ = _
      rw [hsome]
      rfl

/-- A field that has to be given is asked for like one that may be left out. -/
theorem Answers.required {g : Getter (Option α)} (h : Answers g f.name f.found?) :
    Answers (required f.name g) f.name f.found := by
  unfold Getter.required
  refine h.bind rfl (fun a? => ?_) fun given => f.found_eq_bind given
  cases a? <;> rfl

theorem number_answers : Answers (number field) field (Field.number field).found :=
  number?_answers.required (f := Field.number field)

theorem choice_answers {word? : String → Option α} {names : String → α → Prop}
    {choices : List String} (hword : ∀ s a, word? s = some a ↔ names s a) :
    Answers (choice field word? choices) field
      (Field.choice field word? names hword choices).found :=
  (choice?_answers hword).required (f := Field.choice field word? names hword choices)

theorem count?_answers : Answers (count? field) field (Field.count field).found? := by
  unfold count?
  refine number?_answers.bind rfl (fun x? => ?_) fun given => Field.found?_narrow
  cases x? with
  | none => rfl
  | some x =>
      dsimp only [Option.elim_some]
      cases countOf? x <;> rfl

theorem fraction_answers :
    Answers (fraction field) field (Field.fraction field).found := by
  unfold fraction
  refine number_answers.bind rfl (fun x => ?_) fun given => Field.found_narrow
  dsimp only
  split <;> rfl

end Getter

end SeriesQuery
