import Mathlib.Data.List.Induction
import Mathlib.Data.String.Basic
import SeriesQuery.Proofs.Plan.Arguments

/-!
# Registering aggregators

Aggregators are registered by calls, one after the other.  The letter case of their
names does not count: whatever the calls, a name stands for the reader that was
registered last under a name that is the same but for letter case, and the names are
those of the calls in small letters, sorted and each once.

## Main results

* `Combiners.find?_register`, `Combiners.mem_names_register`: what one call changes.
* `Combiners.find?_registered`: what a name stands for after all calls.
* `Combiners.names_registered`: the names after all calls.
-/

namespace SeriesQuery

/-- A text of ASCII characters. -/
def IsAscii (s : String) : Prop := ∀ c ∈ s.toList, c.toNat < 128

/-- ASCII names are the same but for letter case just if they are the same in small
letters. -/
theorem lower_eq_iff {n m : String} (hn : IsAscii n) (hm : IsAscii m) :
    Text.lower n = Text.lower m ↔ Text.sameIgnoringCase n m = true := by
  rw [← String.toList_inj, Text.lower_ascii hn, Text.lower_ascii hm,
    sameIgnoringCase_iff]
  rfl

namespace Combiners

variable {α : Type} {cs : Combiners α} {es : List (String × Getter α)}
  {name key : String} {getter : Getter α} {calls : List (String × Getter α)}

/-- The names rise, so no name comes twice. -/
def Ordered (cs : Combiners α) : Prop := cs.names.Pairwise (· < ·)

/-! ## One call -/

private theorem find?_insertEntry :
    ((insertEntry name getter es).find? fun e => e.1 == key).map Prod.snd =
      if name = key then some getter
      else (es.find? fun e => e.1 == key).map Prod.snd := by
  -- Both lists are walked through by name; that they are sorted does not matter here.
  have hhead : ∀ (e : String × Getter α) es,
      ((e :: es).find? fun e => e.1 == key).map Prod.snd =
      if e.1 = key then some e.2 else (es.find? fun e => e.1 == key).map Prod.snd := by
    intro e es
    by_cases h : e.1 = key <;> simp [h]
  induction es with
  | nil => rw [insertEntry, hhead]
  | cons e es ih =>
      rw [insertEntry]
      by_cases hlt : name < e.1
      · rw [if_pos hlt, hhead]
      · rw [if_neg hlt]
        by_cases heq : name = e.1
        · rw [if_pos heq, hhead, hhead, ← heq]
          by_cases h : name = key <;> simp [h]
        · rw [if_neg heq, hhead, hhead, ih]
          by_cases h : name = key
          · have hne : e.1 ≠ key := fun h' => heq (h.trans h'.symm)
            simp [h, hne]
          · simp [h]

/-- What a name stands for after one more call. -/
theorem find?_register : (cs.register name getter).find? key =
    if Text.lower name = key then some getter else cs.find? key :=
  find?_insertEntry

private theorem mem_insertEntry :
    key ∈ (insertEntry name getter es).map Prod.fst ↔
      key = name ∨ key ∈ es.map Prod.fst := by
  induction es with
  | nil => simp [insertEntry]
  | cons e es ih =>
      rw [insertEntry]
      split
      · simp
      · split
        · rename_i heq
          simp [heq]
        · rw [List.map_cons, List.mem_cons, ih, List.map_cons, List.mem_cons]
          exact or_left_comm

/-- The names after one more call. -/
theorem mem_names_register :
    key ∈ (cs.register name getter).names ↔ key = Text.lower name ∨ key ∈ cs.names :=
  mem_insertEntry

private theorem pairwise_insertEntry (h : (es.map Prod.fst).Pairwise (· < ·)) :
    ((insertEntry name getter es).map Prod.fst).Pairwise (· < ·) := by
  induction es with
  | nil => exact List.pairwise_singleton _ _
  | cons e es ih =>
      obtain ⟨hhead, htail⟩ := List.pairwise_cons.1 h
      rw [insertEntry]
      split
      · rename_i hlt
        refine List.pairwise_cons.2 ⟨fun n hn => ?_, h⟩
        rcases List.mem_cons.1 hn with rfl | hn
        · exact hlt
        · exact hlt.trans (hhead n hn)
      · rename_i hnot
        split
        · rename_i heq
          exact List.pairwise_cons.2 ⟨fun n hn => heq ▸ hhead n hn, htail⟩
        · rename_i hne
          refine List.pairwise_cons.2 ⟨fun n hn => ?_, ih htail⟩
          rcases mem_insertEntry.1 hn with rfl | hn
          · exact lt_of_le_of_ne (not_lt.1 hnot) (Ne.symm hne)
          · exact hhead n hn

/-- **Step.**  One more call leaves the names sorted. -/
theorem Ordered.register (h : cs.Ordered) : (cs.register name getter).Ordered :=
  pairwise_insertEntry h

/-! ## All calls -/

/-- What calls register, one after the other. -/
def registered (calls : List (String × Getter α)) : Combiners α :=
  calls.foldl (fun cs c => cs.register c.1 c.2) empty

/-- The reader that was registered last under a name, whatever the letter case. -/
def latest? (calls : List (String × Getter α)) (name : String) : Option (Getter α) :=
  (calls.reverse.find? fun c => Text.sameIgnoringCase c.1 name).map Prod.snd

private theorem registered_concat (calls : List (String × Getter α))
    (c : String × Getter α) :
    registered (calls ++ [c]) = (registered calls).register c.1 c.2 := by
  rw [registered, List.foldl_append]
  rfl

private theorem latest?_concat (calls : List (String × Getter α))
    (c : String × Getter α) (name : String) :
    latest? (calls ++ [c]) name =
      if Text.sameIgnoringCase c.1 name then some c.2 else latest? calls name := by
  unfold latest?
  rw [List.reverse_append, List.reverse_singleton, List.singleton_append,
    List.find?_cons]
  cases Text.sameIgnoringCase c.1 name <;> rfl

/-- No reader was registered under a name just if no call has it, whatever the letter
case. -/
theorem latest?_eq_none : latest? calls name = none ↔
    ∀ c ∈ calls, Text.sameIgnoringCase c.1 name = false := by
  simp [latest?]

/-- The reader registered last is that of a call with the name after which no call has
it. -/
theorem latest?_eq_some : latest? calls name = some getter ↔
    ∃ before n after, calls = before ++ (n, getter) :: after ∧
      Text.sameIgnoringCase n name = true ∧
        ∀ c ∈ after, Text.sameIgnoringCase c.1 name = false := by
  unfold latest?
  rw [Option.map_eq_some_iff]
  simp only [List.find?_eq_some_iff_append]
  constructor
  · rintro ⟨⟨n, g⟩, ⟨hsame, before, after, hcalls, hbefore⟩, rfl⟩
    refine ⟨after.reverse, n, before.reverse, ?_, hsame, fun c hc => ?_⟩
    · rw [← List.reverse_inj, hcalls]
      simp
    · simpa using hbefore c (List.mem_reverse.1 hc)
  · rintro ⟨before, n, after, rfl, hsame, hafter⟩
    refine ⟨(n, getter),
      ⟨hsame, after.reverse, before.reverse, by simp, fun c hc => ?_⟩, rfl⟩
    simpa using hafter c (List.mem_reverse.1 hc)

/-- **Run.**  A name stands for the reader that was registered last, whatever the letter
case. -/
theorem find?_registered (hcalls : ∀ c ∈ calls, IsAscii c.1) (hname : IsAscii name) :
    (registered calls).find? (Text.lower name) = latest? calls name := by
  induction calls using List.reverseRecOn with
  | nil => rfl
  | append_singleton calls c ih =>
      have hlast : IsAscii c.1 :=
        hcalls c (List.mem_append_right _ (List.mem_singleton_self c))
      rw [registered_concat, latest?_concat, find?_register,
        ih fun d hd => hcalls d (List.mem_append_left _ hd)]
      simp only [lower_eq_iff hlast hname]

/-- **Run.**  The names are those of the calls in small letters, sorted and each
once. -/
theorem names_registered (calls : List (String × Getter α)) :
    (registered calls).Ordered ∧
      ∀ n, n ∈ (registered calls).names ↔ ∃ c ∈ calls, n = Text.lower c.1 := by
  induction calls using List.reverseRecOn with
  | nil => exact ⟨.nil, fun n => by simp [registered, empty, names]⟩
  | append_singleton calls c ih =>
      rw [registered_concat]
      refine ⟨ih.1.register, fun n => ?_⟩
      rw [mem_names_register, ih.2]
      simp [or_and_right, exists_or, or_comm]

/-- The calls that register the aggregators that are always there. -/
def standardCalls : List (String × Getter Combination) :=
  [("union", unionGetter), ("threshold", thresholdGetter)]

/-- Calls that come after those of the aggregators that are always there. -/
theorem registered_standard (calls : List (String × Getter Combination)) :
    registered (standardCalls ++ calls) =
      calls.foldl (fun cs c => cs.register c.1 c.2) standard := by
  rw [registered, List.foldl_append]
  rfl

end Combiners

end SeriesQuery
