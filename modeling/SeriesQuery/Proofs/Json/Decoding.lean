import SeriesQuery.Json.Decode
import SeriesQuery.Proofs.Fallible
import SeriesQuery.Proofs.Json.Fields
import SeriesQuery.Proofs.Json.Reading

/-!
# Decoding written values

What the decoder for values of any kind gives has its numbers within range, its fields
sorted and its containers nested only so deep.  A value of that form is what the decoder
gives for the text in which the value is written, and a record is decoded from a written
object member by member.

## Main results

* `kept_of_value`: a decoded value is of the form in which values are kept.
* `value_ofValue`: a value of that form is decoded from its own text.
* `value_ofObject`: a written object is decoded with its members sorted.
* `members_fields`: what a record and the decoder for any value make of the same
  members.
-/

namespace SeriesQuery.Json

open Decoder Fallible

/-! ## The form in which values are kept -/

/-- The containers of a value are nested at most so deep. -/
def Value.Fits : Nat → Value → Prop
  | depth + 1, .array vs => ∀ v ∈ vs, Fits depth v
  | depth + 1, .object ms => ∀ m ∈ ms, Fits depth m.2
  | 0, .array _ => False
  | 0, .object _ => False
  | _, _ => True

/-- A value as it is kept when it was read with so many containers left to open. -/
def Value.Kept : Nat → Value → Prop
  | _, .number n => n.InRange
  | depth + 1, .array vs => ∀ v ∈ vs, Kept depth v
  | depth + 1, .object ms => Fields.Ordered ms ∧ ∀ m ∈ ms, Kept depth m.2
  | 0, .array _ => False
  | 0, .object _ => False
  | _, _ => True

/-- The floating-point numbers in a value read back. -/
def Value.FloatsReadBack (v : Value) : Prop :=
  ∀ x, Number.float x ∈ v.numbers → (Number.float x).ReadsBack

section Form

variable {depth most : Nat} {v : Value}

@[simp] theorem Value.kept_null : Value.null.Kept depth := by
  cases depth <;> trivial

@[simp] theorem Value.kept_bool {b : Bool} : (Value.bool b).Kept depth := by
  cases depth <;> trivial

@[simp] theorem Value.kept_text {s : String} : (Value.text s).Kept depth := by
  cases depth <;> trivial

@[simp] theorem Value.kept_number {n : Number} : (Value.number n).Kept depth ↔
    n.InRange := by
  cases depth <;> exact Iff.rfl

/-- A whole number of 64 bits with a sign is kept. -/
theorem Value.kept_int {n : Int} (h : -Int.pow 2 63 ≤ n ∧ n ≤ Int.pow 2 63 - 1) :
    (Value.int n).Kept depth := by
  have hpow : Int.pow 2 63 = 9223372036854775808 := by decide
  rw [hpow] at h
  rw [Value.int, Value.kept_number]
  split
  · rename_i hneg
    have hlow : Nat.pow 2 63 = 9223372036854775808 := by decide
    simp only [Number.InRange, hlow]
    omega
  · have hhigh : Nat.pow 2 64 = 18446744073709551616 := by decide
    simp only [Number.InRange, maxSignificand, hhigh]
    omega

theorem Value.fits_array {vs : List Value} :
    (Value.array vs).Fits (depth + 1) ↔ ∀ v ∈ vs, v.Fits depth := Iff.rfl

theorem Value.fits_object {ms : List (String × Value)} :
    (Value.object ms).Fits (depth + 1) ↔ ∀ m ∈ ms, m.2.Fits depth := Iff.rfl

/-- A kept value is also what is kept when fewer containers are left to open, if it
fits. -/
theorem Value.Kept.restrict :
    ∀ {depth most : Nat} {v : Value}, v.Kept most → v.Fits depth → v.Kept depth
  | _, _, .null, _, _ => Value.kept_null
  | _, _, .bool _, _, _ => Value.kept_bool
  | _, _, .text _, _, _ => Value.kept_text
  | _, _, .number _, h, _ => Value.kept_number.2 (Value.kept_number.1 h)
  | _ + 1, _ + 1, .array _, h, hfits => fun v hv => (h v hv).restrict (hfits v hv)
  | _ + 1, _ + 1, .object _, h, hfits =>
    ⟨h.1, fun m hm => (h.2 m hm).restrict (hfits m hm)⟩

/-- The numbers of a kept value are within the range of their kinds. -/
theorem Value.Kept.inRange :
    ∀ {depth : Nat} {v : Value}, v.Kept depth → ∀ n ∈ v.numbers, n.InRange
  | _, .number m, h, n, hn => by
      rw [List.mem_singleton.1 hn]
      exact Value.kept_number.1 h
  | depth + 1, .array vs, h, n, hn => by
      obtain ⟨v, hv, hn⟩ := mem_itemNumbers.1 hn
      exact (h v hv).inRange n hn
  | depth + 1, .object ms, h, n, hn => by
      obtain ⟨m, hm, hn⟩ := mem_memberNumbers.1 hn
      exact (h.2 m hm).inRange n hn

theorem Value.floatsReadBack_array {vs : List Value} :
    (Value.array vs).FloatsReadBack ↔ ∀ v ∈ vs, v.FloatsReadBack := by
  unfold Value.FloatsReadBack
  simp only [Value.numbers, mem_itemNumbers]
  constructor
  · intro h v hv x hx
    exact h x ⟨v, hv, hx⟩
  · rintro h x ⟨v, hv, hx⟩
    exact h v hv x hx

theorem Value.floatsReadBack_object {ms : List (String × Value)} :
    (Value.object ms).FloatsReadBack ↔ ∀ m ∈ ms, m.2.FloatsReadBack := by
  unfold Value.FloatsReadBack
  simp only [Value.numbers, mem_memberNumbers]
  constructor
  · intro h m hm x hx
    exact h x ⟨m, hm, hx⟩
  · rintro h x ⟨m, hm, hx⟩
    exact h m hm x hx

/-- A number within range reads back if it does as a floating-point number. -/
theorem Number.InRange.readsBack {n : Number} (h : n.InRange)
    (hfloat : ∀ x, n = .float x → (Number.float x).ReadsBack) : n.ReadsBack := by
  cases n with
  | natural n => exact readsBack_natural h
  | negative n => exact readsBack_negative h
  | float x => exact hfloat x rfl

/-- A value with its numbers within range reads back if its floating-point numbers
do. -/
theorem Value.FloatsReadBack.readsBack (h : v.FloatsReadBack)
    (hrange : ∀ n ∈ v.numbers, n.InRange) : v.ReadsBack := by
  intro n hn
  refine (hrange n hn).readsBack fun x hx => ?_
  subst hx
  exact h x hn

/-- A kept value reads back if its floating-point numbers do. -/
theorem Value.Kept.readsBack (h : v.Kept depth) (hfloats : v.FloatsReadBack) :
    v.ReadsBack :=
  hfloats.readsBack h.inRange

/-- A whole number of 64 bits with a sign reads back. -/
theorem Value.readsBack_int {n : Int} (h : -Int.pow 2 63 ≤ n ∧ n ≤ Int.pow 2 63 - 1) :
    (Value.int n).ReadsBack := by
  have hkept : (Value.int n).Kept 0 := Value.kept_int h
  refine hkept.readsBack fun x hx => ?_
  rw [Value.int] at hx
  split at hx <;> simp [Value.numbers] at hx

end Form

/-! ## Values of any kind -/

section AnyKind

variable {depth : Nat}

private theorem values_eq_ok : ∀ {ts : List Tree} {vs : List Value},
    values depth ts = .ok vs ↔ List.Forall₂ (fun t v => value depth t = .ok v) ts vs
  | [], vs => by
      rw [values, List.forall₂_nil_left_iff]
      exact ⟨fun h => (Except.ok.inj h).symm, fun h => h ▸ rfl⟩
  | t :: ts, vs => by
      rw [values, bind_eq_ok_iff, List.forall₂_cons_left_iff]
      constructor
      · rintro ⟨v, hv, h⟩
        obtain ⟨vs', hvs, h⟩ := bind_eq_ok_iff.1 h
        exact ⟨v, vs', hv, values_eq_ok.1 hvs, (Except.ok.inj h).symm⟩
      · rintro ⟨v, vs', hv, hvs, rfl⟩
        exact ⟨v, hv, bind_eq_ok_iff.2 ⟨vs', values_eq_ok.2 hvs, rfl⟩⟩

private theorem fields_cons_eq_ok {key? : Option String} {t : Tree}
    {ms : List (Option String × Tree)} {kvs : List (String × Value)} :
    fields depth ((key?, t) :: ms) = .ok kvs ↔
      ∃ k v rest, key? = some k ∧ value depth t = .ok v ∧ fields depth ms = .ok rest ∧
        kvs = (k, v) :: rest := by
  rw [fields]
  cases key? with
  | none =>
      refine ⟨fun h => ?_, fun ⟨_, _, _, h, _⟩ => ?_⟩
      · cases h
      · cases h
  | some k =>
      constructor
      · intro h
        obtain ⟨k', hk, h⟩ := bind_eq_ok_iff.1 h
        obtain ⟨v, hv, h⟩ := bind_eq_ok_iff.1 h
        obtain ⟨rest, hrest, h⟩ := bind_eq_ok_iff.1 h
        cases hk
        exact ⟨k, v, rest, rfl, hv, hrest, (Except.ok.inj h).symm⟩
      · rintro ⟨k', v, rest, hk, hv, hrest, rfl⟩
        cases hk
        exact bind_eq_ok_iff.2 ⟨k, rfl,
          bind_eq_ok_iff.2 ⟨v, hv, bind_eq_ok_iff.2 ⟨rest, hrest, rfl⟩⟩⟩

mutual

/-- A decoded value is of the form in which values are kept. -/
theorem kept_of_value :
    ∀ {depth : Nat} {t : Tree} {v : Value}, value depth t = .ok v → v.Kept depth
  | _, .null, _, h => by
      rw [value] at h
      cases h
      exact Value.kept_null
  | _, .bool _, _, h => by
      rw [value] at h
      cases h
      exact Value.kept_bool
  | _, .number s, _, h => by
      rw [value] at h
      split at h
      · rename_i n hn
        cases h
        exact Value.kept_number.2 (inRange_of_ofSpelling? hn)
      · cases h
  | _, .text (some _), _, h => by
      rw [value] at h
      cases h
      exact Value.kept_text
  | _, .text none, _, h => by simp [value] at h
  | _, .broken, _, h => by simp [value] at h
  | 0, .array _, _, h => by simp [value] at h
  | 0, .object _, _, h => by simp [value] at h
  | depth + 1, .array ts, _, h => by
      rw [value] at h
      obtain ⟨vs, hvs, rfl⟩ := map_eq_ok_iff.1 h
      exact kept_of_values hvs
  | depth + 1, .object ms, _, h => by
      rw [value] at h
      obtain ⟨kvs, hkvs, rfl⟩ := map_eq_ok_iff.1 h
      exact ⟨Fields.ordered_ofMembers kvs, fun m hm =>
        kept_of_fields hkvs m (Fields.mem_ofMembers hm)⟩

theorem kept_of_values : ∀ {depth : Nat} {ts : List Tree} {vs : List Value},
    values depth ts = .ok vs → ∀ v ∈ vs, v.Kept depth
  | _, [], _, h, _, hv => by
      rw [values] at h
      cases h
      cases hv
  | _, t :: ts, vs, h, v, hv => by
      obtain ⟨w, ws, hw, hws, rfl⟩ := List.forall₂_cons_left_iff.1 (values_eq_ok.1 h)
      rcases List.mem_cons.1 hv with rfl | hv
      · exact kept_of_value hw
      · exact kept_of_values (values_eq_ok.2 hws) v hv

theorem kept_of_fields : ∀ {depth : Nat} {ms : List (Option String × Tree)}
    {kvs : List (String × Value)}, fields depth ms = .ok kvs → ∀ m ∈ kvs, m.2.Kept depth
  | _, [], _, h, _, hm => by
      rw [fields] at h
      cases h
      cases hm
  | _, (_, t) :: ms, kvs, h, m, hm => by
      obtain ⟨k, v, rest, -, hv, hrest, rfl⟩ := fields_cons_eq_ok.1 h
      rcases List.mem_cons.1 hm with rfl | hm
      · exact kept_of_value hv
      · exact kept_of_fields hrest m hm

end

/-- A written list is decoded item by item. -/
theorem value_ofArray {vs ws : List Value}
    (h : List.Forall₂ (fun v w => value depth (Tree.ofValue v) = .ok w) vs ws) :
    value (depth + 1) (Tree.ofValue (.array vs)) = .ok (.array ws) := by
  rw [Tree.ofValue, value, map_eq_ok_iff]
  refine ⟨ws, values_eq_ok.2 ?_, rfl⟩
  rw [Tree.ofItems_eq_map, List.forall₂_map_left_iff]
  exact h

/-- Written items each of which comes from a value. -/
theorem value_ofItems {α : Type} {R : Value → α → Prop} {vs : List Value} {as : List α}
    {written : α → Value} {f : Value → Value} (hall : List.Forall₂ R vs as)
    (h : ∀ v, ∀ a ∈ as, R v a → value depth (Tree.ofValue (written a)) = .ok (f v)) :
    value (depth + 1) (Tree.ofValue (.array (as.map written))) =
      .ok (.array (vs.map f)) := by
  apply value_ofArray
  rw [List.forall₂_map_left_iff, List.forall₂_map_right_iff]
  induction hall with
  | nil => exact .nil
  | cons hR _ ih =>
      exact .cons (h _ _ List.mem_cons_self hR)
        (ih fun v a ha => h v a (List.mem_cons_of_mem _ ha))

/-- Written members are decoded one by one. -/
theorem fields_ofMembers : ∀ {ms ns : List (String × Value)},
    List.Forall₂ (fun m n => m.1 = n.1 ∧ value depth (Tree.ofValue m.2) = .ok n.2)
      ms ns → fields depth (Tree.ofMembers ms) = .ok ns
  | [], _, h => by
      cases h
      simp only [Tree.ofMembers, fields]
  | (k, v) :: ms, _, h => by
      obtain ⟨⟨k', w⟩, ns, ⟨hk, hw⟩, hms, rfl⟩ := List.forall₂_cons_left_iff.1 h
      cases hk
      rw [Tree.ofMembers]
      exact fields_cons_eq_ok.2 ⟨_, _, _, rfl, hw, fields_ofMembers hms, rfl⟩

/-- A written object is decoded with its members sorted. -/
theorem value_ofObject {ms ns : List (String × Value)}
    (h : List.Forall₂ (fun m n => m.1 = n.1 ∧ value depth (Tree.ofValue m.2) = .ok n.2)
      ms ns) :
    value (depth + 1) (Tree.ofValue (.object ms)) =
      .ok (.object (Fields.ofMembers ns)) := by
  rw [Tree.ofValue, value, map_eq_ok_iff]
  exact ⟨ns, fields_ofMembers h, rfl⟩

/-- The numeral of a number that reads back denotes the number. -/
theorem Number.ReadsBack.ofSpelling? {n : Number} (h : n.ReadsBack) :
    Number.ofSpelling? n.spelling = some n := by
  obtain ⟨s, hs, hn⟩ := h
  simpa [Number.spelling, hs] using hn

/-- A value of the form in which values are kept is decoded from its own text. -/
theorem value_ofValue : ∀ {depth : Nat} {v : Value}, v.Kept depth → v.ReadsBack →
    value depth (Tree.ofValue v) = .ok v
  | _, .null, _, _ => by rw [Tree.ofValue, value]
  | _, .bool _, _, _ => by rw [Tree.ofValue, value]
  | _, .text _, _, _ => by rw [Tree.ofValue, value]
  | _, .number n, _, hback => by
      rw [Tree.ofValue, value, (Value.readsBack_number.1 hback).ofSpelling?]
  | _ + 1, .array vs, h, hback => by
      refine value_ofArray (List.forall₂_same.2 fun v hv => ?_)
      exact value_ofValue (h v hv) (Value.readsBack_array.1 hback v hv)
  | _ + 1, .object ms, h, hback => by
      have hsorted := Fields.ofMembers_of_ordered h.1
      refine (value_ofObject (List.forall₂_same.2 fun m hm => ?_)).trans
        (by rw [hsorted])
      exact ⟨rfl, value_ofValue (h.2 m hm) (Value.readsBack_object.1 hback m hm)⟩

end AnyKind

/-- A text that holds a written value is decoded as its tree is. -/
theorem decodeText_compact {α : Type} (d : Decoder α) {v : Value} (h : v.ReadsBack) :
    decodeText d v.compact = d maxDepth (Tree.ofValue v) := by
  unfold decodeText
  rw [Value.compact, String.toList_ofList, Document.read_written h]
  show (d maxDepth (Tree.ofValue v) >>= fun a => pure a) = _
  exact bind_pure _

/-- A text is decoded when its tree is and nothing but blanks comes after it. -/
theorem decodeText_eq_ok {α : Type} {d : Decoder α} {s : String} {a : α} :
    decodeText d s = .ok a ↔
      d maxDepth (Document.read s.toList).value = .ok a ∧
        (Document.read s.toList).complete = true := by
  unfold decodeText
  rw [bind_eq_ok_iff]
  constructor
  · rintro ⟨b, hb, h⟩
    split at h
    · rename_i hcomplete
      cases h
      exact ⟨hb, hcomplete⟩
    · cases h
  · rintro ⟨ha, hcomplete⟩
    exact ⟨a, ha, if_pos hcomplete⟩

/-! ## Values of one kind -/

section OneKind

variable {depth : Nat} {t : Tree}

theorem value_eq_number {n : Number} :
    value depth t = .ok (.number n) ↔
      ∃ s, t = .number s ∧ Number.ofSpelling? s = some n := by
  cases t with
  | text s? => cases s? <;> simp [value]
  | number x =>
      rw [value]
      cases h : Number.ofSpelling? x <;> simp [h]
  | array ts => cases depth <;> simp [value, map_eq_ok_iff]
  | object ms => cases depth <;> simp [value, map_eq_ok_iff]
  | _ => simp [value]

theorem value_eq_array {vs : List Value} :
    value depth t = .ok (.array vs) ↔
      ∃ inner ts, depth = inner + 1 ∧ t = .array ts ∧
        List.Forall₂ (fun t v => value inner t = .ok v) ts vs := by
  cases t with
  | text s? => cases s? <;> simp [value]
  | number x =>
      rw [value]
      split <;> simp
  | array ts => cases depth <;> simp [value, map_eq_ok_iff, values_eq_ok]
  | object ms => cases depth <;> simp [value, map_eq_ok_iff]
  | _ => simp [value]

theorem text_eq_ok {s : String} : text depth t = .ok s ↔ t = .text (some s) := by
  cases t with
  | text s? => cases s? <;> simp [text]
  | _ => simp [text]

theorem number_eq_ok {n : Number} : number depth t = .ok n ↔
    value depth t = .ok (.number n) := by
  rw [value_eq_number]
  cases t with
  | number x =>
      rw [number]
      cases h : Number.ofSpelling? x <;> simp [h]
  | _ => simp [number]

/-- A whole number between two bounds. -/
theorem int_eq_ok {least most n : Int} :
    int least most depth t = .ok n ↔
      value depth t = .ok (.int n) ∧ least ≤ n ∧ n ≤ most := by
  have hint : ∀ m : Int, ((if least ≤ m && m ≤ most then pure m else throw .unfit :
      Except Problem Int) = .ok n) ↔ m = n ∧ least ≤ n ∧ n ≤ most := by
    intro m
    by_cases hm : least ≤ m ∧ m ≤ most
    · rw [if_pos (by simpa using hm)]
      constructor
      · intro h
        cases h
        exact ⟨rfl, hm⟩
      · rintro ⟨rfl, -⟩
        rfl
    · rw [if_neg (by simpa using hm)]
      constructor
      · intro h
        cases h
      · rintro ⟨rfl, h⟩
        exact absurd h hm
  unfold int
  simp only [bind_eq_ok_iff, number_eq_ok]
  constructor
  · rintro ⟨number, hnumber, h⟩
    cases number with
    | natural k =>
        obtain ⟨rfl, hbounds⟩ := (hint k).1 h
        rw [Value.int, if_neg (Int.natCast_nonneg k).not_gt, Int.toNat_natCast]
        exact ⟨hnumber, hbounds⟩
    | negative k =>
        obtain ⟨rfl, hbounds⟩ := (hint k).1 h
        obtain ⟨-, hneg⟩ : (Number.negative k).InRange :=
          Value.kept_number.1 (kept_of_value hnumber)
        rw [Value.int, if_pos hneg]
        exact ⟨hnumber, hbounds⟩
    | float x => cases h
  · rintro ⟨hvalue, hbounds⟩
    refine ⟨_, hvalue, ?_⟩
    by_cases hneg : n < 0
    · rw [if_pos hneg]
      exact (hint n).2 ⟨rfl, hbounds⟩
    · rw [if_neg hneg]
      exact (hint n.toNat).2 ⟨Int.toNat_of_nonneg (not_lt.1 hneg), hbounds⟩

theorem nat_eq_ok {most n : Nat} :
    nat most depth t = .ok n ↔ value depth t = .ok (.nat n) ∧ n ≤ most := by
  unfold nat
  rw [map_eq_ok_iff]
  simp only [int_eq_ok]
  constructor
  · rintro ⟨m, ⟨hm, hlow, hhigh⟩, rfl⟩
    rw [Value.int, if_neg (not_lt.2 hlow)] at hm
    exact ⟨hm, by omega⟩
  · rintro ⟨hn, hmost⟩
    exact ⟨n, ⟨hn, by omega, by omega⟩, Int.toNat_natCast n⟩

end OneKind

/-! ## Lists and records -/

section Records

variable {α σ : Type} {depth : Nat} {t : Tree}
  {step : Nat → σ → String → Tree → Except Problem σ} {finish : σ → Except Problem α}
  {start : σ}

theorem list_eq_ok {d : Decoder α} {as : List α} :
    list d depth t = .ok as ↔
      ∃ inner ts, depth = inner + 1 ∧ t = .array ts ∧
        List.Forall₂ (fun t a => d inner t = .ok a) ts as := by
  cases t with
  | array ts => cases depth <;> simp [list, mapM_eq_ok_iff]
  | _ => simp [list]

/-- A written list of items that are decoded one by one. -/
theorem list_ofArray {d : Decoder α} {as : List α} {written : α → Value}
    (h : ∀ a ∈ as, d depth (Tree.ofValue (written a)) = .ok a) :
    list d (depth + 1) (Tree.ofValue (.array (as.map written))) = .ok as := by
  refine list_eq_ok.2 ⟨depth, _, rfl, rfl, ?_⟩
  rw [Tree.ofItems_eq_map, List.map_map, List.forall₂_map_left_iff, List.forall₂_same]
  exact h

/-- A list and the decoder for any value make of the same items what is made of each. -/
theorem list_values {d : Decoder α} {as : List α} {R : Value → α → Prop}
    (hitem : ∀ {t a}, d depth t = .ok a → ∃ v, value depth t = .ok v ∧ R v a)
    (h : list d (depth + 1) t = .ok as) :
    ∃ vs, value (depth + 1) t = .ok (.array vs) ∧ List.Forall₂ R vs as := by
  obtain ⟨inner, ts, hdepth, rfl, hitems⟩ := list_eq_ok.1 h
  cases hdepth
  have hall : ∃ vs, List.Forall₂ (fun t v => value depth t = .ok v) ts vs ∧
      List.Forall₂ R vs as := by
    clear h
    induction hitems with
    | nil => exact ⟨[], .nil, .nil⟩
    | cons ha _ ih =>
        obtain ⟨v, hv, hR⟩ := hitem ha
        obtain ⟨vs, hvs, hRs⟩ := ih
        exact ⟨v :: vs, .cons hv hvs, .cons hR hRs⟩
  obtain ⟨vs, hvs, hR⟩ := hall
  exact ⟨vs, value_eq_array.2 ⟨depth, ts, rfl, rfl, hvs⟩, hR⟩

/-- What holds of all that a decoder gives holds of the items of a list. -/
theorem list_preserves {d : Decoder α} {P : α → Prop} {as : List α}
    (hitem : ∀ {t a}, d depth t = .ok a → P a) (h : list d (depth + 1) t = .ok as) :
    ∀ a ∈ as, P a := by
  obtain ⟨inner, ts, hdepth, -, hitems⟩ := list_eq_ok.1 h
  cases hdepth
  clear h
  induction hitems with
  | nil => simp
  | cons ha _ ih => exact List.forall_mem_cons.2 ⟨hitem ha, ih⟩

/-- A member that was not there before. -/
theorem once_eq_ok {before now : Option α} {d : Decoder α} :
    once before d depth t = .ok now ↔
      before = none ∧ ∃ a, d depth t = .ok a ∧ some a = now := by
  cases before with
  | some b => simp [once]
  | none =>
      rw [once, map_eq_ok_iff]
      simp

theorem object_eq_ok {a : α} :
    object start step finish depth t = .ok a ↔
      ∃ inner ms s,
        depth = inner + 1 ∧ t = .object ms ∧ members step inner start ms = .ok s ∧
        finish s = .ok a := by
  cases t with
  | object ms => cases depth <;> simp [object, bind_eq_ok_iff]
  | _ => simp [object]

theorem members_cons_eq_ok {key? : Option String} {ms : List (Option String × Tree)}
    {s s' : σ} :
    members step depth s ((key?, t) :: ms) = .ok s' ↔
      ∃ k s₁, key? = some k ∧ step depth s k t = .ok s₁ ∧
        members step depth s₁ ms = .ok s' := by
  unfold members
  rw [List.foldlM_cons, bind_eq_ok_iff]
  constructor
  · rintro ⟨s₁, h, hrest⟩
    obtain ⟨k, hk, hstep⟩ := bind_eq_ok_iff.1 h
    cases key? with
    | none => cases hk
    | some k' =>
        cases hk
        exact ⟨k, s₁, rfl, hstep, hrest⟩
  · rintro ⟨k, s₁, rfl, hstep, hrest⟩
    exact ⟨s₁, bind_eq_ok_iff.2 ⟨k, rfl, hstep⟩, hrest⟩

/-- A record that is written as an object. -/
theorem record_ofObject {order : List String} {ms : List (String × Value)} {s : σ}
    (h : members step depth start (Tree.ofMembers ms) = .ok s) :
    record order start step finish (depth + 1) (Tree.ofValue (.object ms)) =
      finish s := by
  show (members step depth start (Tree.ofMembers ms) >>= finish) = finish s
  rw [h]
  rfl

/-- What every member preserves holds after all of them. -/
theorem members_preserves {P : σ → Prop}
    (hstep : ∀ {s s' : σ} {k : String} {t : Tree},
      step depth s k t = .ok s' → P s → P s') :
    ∀ {ms : List (Option String × Tree)} {s s' : σ},
      members step depth s ms = .ok s' → P s → P s'
  | [], _, _, h, hs => by
      cases h
      exact hs
  | (_, _) :: _, _, _, h, hs => by
      obtain ⟨k, s₁, -, hk, hrest⟩ := members_cons_eq_ok.1 h
      exact members_preserves hstep hrest (hstep hk hs)

/-- What every member of an object and every item of an array preserve holds of a
decoded record. -/
theorem record_preserves {order : List String} {P : σ → Prop} {a : α}
    (hstep : ∀ {inner : Nat} {s s' : σ} {k : String} {t : Tree}, inner + 1 = depth →
      step inner s k t = .ok s' → P s → P s')
    (hstart : P start) (h : record order start step finish depth t = .ok a) :
    ∃ s, P s ∧ finish s = .ok a := by
  have hitems : ∀ {inner : Nat}, inner + 1 = depth →
      ∀ {ks : List String} {ts : List Tree} {s s' : σ},
        inOrder step inner ks ts s = .ok s' → P s → P s' := by
    intro inner hinner ks ts
    induction ts generalizing ks with
    | nil =>
        intro s s' h hs
        rw [inOrder] at h
        cases h
        exact hs
    | cons t ts ih =>
        intro s s' h hs
        cases ks with
        | nil => simp [inOrder] at h
        | cons k ks =>
            rw [inOrder] at h
            obtain ⟨s₁, hk, hrest⟩ := bind_eq_ok_iff.1 h
            exact ih hrest (hstep hinner hk hs)
  cases t with
  | object ms =>
      cases depth with
      | zero => simp [record] at h
      | succ inner =>
          obtain ⟨s, hs, h⟩ := bind_eq_ok_iff.1 h
          exact ⟨s, members_preserves (hstep rfl) hs hstart, h⟩
  | array ts =>
      cases depth with
      | zero => simp [record] at h
      | succ inner =>
          obtain ⟨s, hs, h⟩ := bind_eq_ok_iff.1 h
          exact ⟨s, hitems rfl hs hstart, h⟩
  | _ => simp [record] at h

/-- What a record and the decoder for any value make of the same members. -/
theorem members_fields {P : Fields → σ → Prop}
    (hstep : ∀ {fs : Fields} {s s' : σ} {k : String} {t : Tree},
      step depth s k t = .ok s' →
      P fs s → ∃ v, value depth t = .ok v ∧ P (fs.put k v) s') :
    ∀ {ms : List (Option String × Tree)} {fs : Fields} {s s' : σ},
      members step depth s ms = .ok s' → P fs s →
      ∃ kvs,
        fields depth ms = .ok kvs ∧ P (kvs.foldl (fun fs m => fs.put m.1 m.2) fs) s'
  | [], _, _, _, h, hs => by
      cases h
      exact ⟨[], by rw [fields], hs⟩
  | (_, _) :: _, fs, _, _, h, hs => by
      obtain ⟨k, s₁, rfl, hk, hrest⟩ := members_cons_eq_ok.1 h
      obtain ⟨v, hv, hs₁⟩ := hstep hk hs
      obtain ⟨kvs, hkvs, hP⟩ := members_fields hstep hrest hs₁
      exact ⟨(k, v) :: kvs, fields_cons_eq_ok.2 ⟨k, v, kvs, rfl, hv, hkvs, rfl⟩, hP⟩

/-- A written member is decoded before the others. -/
theorem members_ofMembers_cons {k : String} {v : Value} {ms : List (String × Value)}
    {s s' : σ} (h : step depth s k (Tree.ofValue v) = .ok s') :
    members step depth s (Tree.ofMembers ((k, v) :: ms)) =
      members step depth s' (Tree.ofMembers ms) := by
  simp only [Tree.ofMembers, members, List.foldlM_cons, key]
  show (step depth s k (Tree.ofValue v) >>= _) = _
  rw [h]
  rfl

/-- Written members are decoded after those before them. -/
theorem members_ofMembers_append {ms ns : List (String × Value)} {start s : σ}
    (h : members step depth start (Tree.ofMembers ms) = .ok s) :
    members step depth start (Tree.ofMembers (ms ++ ns)) =
      members step depth s (Tree.ofMembers ns) := by
  induction ms generalizing start with
  | nil =>
      cases h
      rfl
  | cons m ms ih =>
      obtain ⟨k, v⟩ := m
      simp only [Tree.ofMembers] at h
      obtain ⟨_, s₁, hk, hstep, hrest⟩ := members_cons_eq_ok.1 h
      cases hk
      rw [List.cons_append, members_ofMembers_cons hstep]
      exact ih hrest

/-- A member that may be left out. -/
theorem members_ofMembers_unless {k : String} {v : Value} {left : Bool} {s s' : σ}
    (hout : left = true → s' = s)
    (hin : left = false → step depth s k (Tree.ofValue v) = .ok s') :
    members step depth s (Tree.ofMembers (if left then [] else [(k, v)])) = .ok s' := by
  cases left with
  | true =>
      rw [hout rfl]
      rfl
  | false => exact members_ofMembers_cons (hin rfl)

end Records

/-! ## Members that a record keeps as they are -/

/-- Members beside those of some names: their keys rise, and their values are kept with
so many containers left to open. -/
structure Fields.Extra (names : List String) (depth : Nat) (fs : Fields) : Prop where
  ordered : fs.Ordered
  fresh : ∀ m ∈ fs, m.1 ∉ names
  kept : ∀ m ∈ fs, m.2.Kept depth

section Extra

variable {names : List String} {depth most : Nat} {fs : Fields} {k : String} {v : Value}

theorem Fields.Extra.nil : Fields.Extra names depth [] :=
  ⟨List.Pairwise.nil, by simp, by simp⟩

theorem Fields.Extra.put (h : fs.Extra names depth) (hk : k ∉ names)
    (hv : v.Kept depth) :
    (Fields.put k v fs).Extra names depth where
  ordered := h.ordered.put
  fresh := by
    intro m hm
    rcases Fields.mem_put hm with rfl | hm
    · exact hk
    · exact h.fresh m hm
  kept := by
    intro m hm
    rcases Fields.mem_put hm with rfl | hm
    · exact hv
    · exact h.kept m hm

private theorem Fields.Extra.putNew (h : fs.Extra names depth) (hk : k ∉ names)
    (hv : v.Kept depth) : (Fields.putNew k v fs).Extra names depth := by
  unfold Fields.putNew
  split
  · exact h
  · exact h.put hk hv

/-- Taking over what is missing from other such fields. -/
theorem Fields.Extra.foldl_putNew {gs : Fields} (hgs : gs.Extra names depth)
    (h : fs.Extra names depth) :
    (gs.foldl (fun fs m => fs.putNew m.1 m.2) fs).Extra names depth := by
  have hfresh := hgs.fresh
  have hkept := hgs.kept
  clear hgs
  induction gs generalizing fs with
  | nil => exact h
  | cons m gs ih =>
      obtain ⟨hm, hfresh⟩ := List.forall_mem_cons.1 hfresh
      obtain ⟨hv, hkept⟩ := List.forall_mem_cons.1 hkept
      exact ih (h.putNew hm hv) hfresh hkept

theorem Fields.Extra.restrict (h : fs.Extra names most)
    (hfits : ∀ m ∈ fs, m.2.Fits depth) : fs.Extra names depth :=
  ⟨h.ordered, h.fresh, fun m hm => (h.kept m hm).restrict (hfits m hm)⟩

theorem Fields.Extra.readsBack (h : fs.Extra names depth)
    (hfloats : ∀ m ∈ fs, m.2.FloatsReadBack) : ∀ m ∈ fs, m.2.ReadsBack :=
  fun m hm => (h.kept m hm).readsBack (hfloats m hm)

/-- Written members beside the known ones come back as they were. -/
theorem Fields.Extra.members {σ : Type}
    {step : Nat → σ → String → Tree → Except Problem σ} (h : fs.Extra names depth)
    (into : Fields → σ)
    (hstep : ∀ {fs k t}, k ∉ names →
      step depth (into fs) k t = (value depth t).map fun v => into (Fields.put k v fs))
    (hback : ∀ m ∈ fs, m.2.ReadsBack) :
    members step depth (into []) (Tree.ofMembers fs) = .ok (into fs) := by
  have hall : ∀ ms : Fields, (∀ m ∈ ms, m ∈ fs) → ∀ start,
      Decoder.members step depth (into start) (Tree.ofMembers ms) =
        .ok (into (ms.foldl (fun fs m => Fields.put m.1 m.2 fs) start)) := by
    intro ms
    induction ms with
    | nil => exact fun _ _ => rfl
    | cons m ms ih =>
        intro hms start
        have hm := hms m List.mem_cons_self
        have hput : step depth (into start) m.1 (Tree.ofValue m.2) =
            .ok (into (Fields.put m.1 m.2 start)) := by
          rw [hstep (h.fresh m hm), value_ofValue (h.kept m hm) (hback m hm)]
          rfl
        rw [members_ofMembers_cons hput,
          ih fun n hn => hms n (List.mem_cons_of_mem m hn)]
        rfl
  have hsorted : fs.foldl (fun fs m => Fields.put m.1 m.2 fs) [] = fs :=
    Fields.ofMembers_of_ordered h.ordered
  rw [hall fs (fun _ hm => hm) [], hsorted]

/-- Written members, known ones before others, come to the known ones put among fields
that agree beside them. -/
theorem Fields.Extra.value_ofObject {gs : Fields} (known ns : List (String × Value))
    (h : fs.Extra (ns.map Prod.fst) depth)
    (hknown : List.Forall₂
      (fun m n => m.1 = n.1 ∧ value depth (Tree.ofValue m.2) = .ok n.2) known ns)
    (hagree : gs.AgreeBeside (ns.map Prod.fst) fs) (hgs : gs.Ordered)
    (hback : ∀ m ∈ fs, m.2.ReadsBack) :
    value (depth + 1) (Tree.ofValue (.object (known ++ fs))) =
      .ok (.object (ns.foldl (fun fs m => Fields.put m.1 m.2 fs) gs)) := by
  rw [← hagree.ofMembers_append hgs h.ordered h.fresh]
  refine Json.value_ofObject
    (List.rel_append hknown (List.forall₂_same.2 fun m hm => ?_))
  exact ⟨rfl, value_ofValue (h.kept m hm) (hback m hm)⟩

end Extra

end SeriesQuery.Json
