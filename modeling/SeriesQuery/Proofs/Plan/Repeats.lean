import SeriesQuery.Proofs.Enumeration
import SeriesQuery.Proofs.Plan.Arguments

/-!
# Arguments given more than once

A key that is given more than once is told once, where it comes for the second time,
however often it comes after that.  So there is nothing to tell just when all keys are
different.

## Main results

* `repeats_secondKeys`: what is told of keys given more than once.
* `secondKeys_eq_nil`: when nothing is told, all keys are different.
-/

namespace SeriesQuery

open Arguments (secondKeys)

/-- A key stands at a place, and its name has come just once before. -/
def SecondTime (given : List Argument) (i : Nat) (key : String) : Prop :=
  (given.map Argument.key)[i]? = some key ∧
    ((given.take i).map Argument.key).countP (Text.sameIgnoringCase key) = 1

/-- Some keys are told because they are given more than once: where one comes for the
second time it is told as it is spelled there, in the order of these places, and no name
is told twice. -/
structure Repeats (given : List Argument) (keys : List String) : Prop where
  places : ∃ is, Enumerated (· < ·) (SecondTime given) is keys
  each : ∀ name, 1 < (given.map Argument.key).countP (Text.sameIgnoringCase name) ↔
    ∃ key ∈ keys, Text.sameIgnoringCase name key = true
  once : keys.Pairwise fun key key' => Text.sameIgnoringCase key key' = false

/-- No two keys are equal, letter case aside. -/
def DistinctKeys (given : List Argument) : Prop :=
  (given.map fun a => folded a.key).Nodup

variable {given : List Argument} {earlier : List String} {name key : String}

/-- Names that differ in letter case only are among some keys equally often. -/
theorem countP_of_same (h : Text.sameIgnoringCase name key = true)
    (keys : List String) :
    keys.countP (Text.sameIgnoringCase key) =
      keys.countP (Text.sameIgnoringCase name) := by
  refine List.countP_congr fun other _ => ?_
  rw [sameIgnoringCase_iff, sameIgnoringCase_iff, sameIgnoringCase_iff.1 h]

/-- Keys that come for the second time stand at the places where they do. -/
theorem enumerated_secondKeys (given : List Argument) : ∀ earlier, ∃ is,
    Enumerated (· < ·) (fun i key => (given.map Argument.key)[i]? = some key ∧
      (earlier ++ (given.take i).map Argument.key).countP
      (Text.sameIgnoringCase key) = 1) is (secondKeys earlier given) := by
  induction given with
  | nil => exact fun earlier => ⟨[], .nil, .nil, fun i key hkey => by simp at hkey⟩
  | cons a rest ih =>
      intro earlier
      obtain ⟨is, his⟩ := ih (earlier ++ [a.key])
      have hshift : ∀ i key, ((rest.map Argument.key)[i]? = some key ∧
          (earlier ++ [a.key] ++ (rest.take i).map Argument.key).countP
            (Text.sameIgnoringCase key) = 1) ↔
          (((a :: rest).map Argument.key)[i + 1]? = some key ∧
            (earlier ++ ((a :: rest).take (i + 1)).map Argument.key).countP
              (Text.sameIgnoringCase key) = 1) := by
        intro i key
        simp
      have hnext := his.congr hshift
      rw [secondKeys]
      by_cases hsecond : earlier.countP (Text.sameIgnoringCase a.key) = 1
      · rw [if_pos hsecond]
        refine ⟨_, hnext.first ⟨rfl, ?_⟩⟩
        simpa using hsecond
      · rw [if_neg hsecond]
        refine ⟨_, hnext.behind fun key hkey => ?_⟩
        have hhead : a.key = key := by simpa using hkey.1
        exact hsecond (by simpa [hhead] using hkey.2)

/-- A name comes for the second time when it has not done so before and is given often
enough. -/
theorem mem_secondKeys (name : String) : ∀ {given earlier},
    (∃ key ∈ secondKeys earlier given, Text.sameIgnoringCase name key = true) ↔
      earlier.countP (Text.sameIgnoringCase name) ≤ 1 ∧
        1 <
          (earlier ++ given.map Argument.key).countP (Text.sameIgnoringCase name) := by
  intro given
  induction given with
  | nil =>
      intro earlier
      simp only [secondKeys, List.not_mem_nil, false_and, exists_false, List.map_nil,
        List.append_nil, false_iff]
      omega
  | cons a rest ih =>
      intro earlier
      rw [secondKeys]
      simp only [List.mem_append, or_and_right, exists_or, ih, List.countP_append,
        List.map_cons, List.countP_cons, List.countP_nil, List.mem_ite_nil_right,
        List.mem_singleton]
      by_cases hsame : Text.sameIgnoringCase name a.key = true
      · rw [countP_of_same hsame]
        simp only [hsame, if_true]
        constructor
        · rintro (⟨key, ⟨hone, -⟩, -⟩ | ⟨hfew, hmany⟩)
          · omega
          · omega
        · rintro ⟨hfew, hmany⟩
          by_cases hone : earlier.countP (Text.sameIgnoringCase name) = 1
          · exact Or.inl ⟨a.key, ⟨hone, rfl⟩, hsame⟩
          · exact Or.inr ⟨by omega, by omega⟩
      · simp only [hsame, Nat.zero_add]
        constructor
        · rintro (⟨key, ⟨-, rfl⟩, hkey⟩ | h)
          · exact absurd hkey hsame
          · exact h
        · exact Or.inr

/-- No name comes for the second time twice. -/
theorem pairwise_secondKeys : ∀ {given earlier},
    (secondKeys earlier given).Pairwise fun key key' =>
      Text.sameIgnoringCase key key' = false := by
  intro given
  induction given with
  | nil => exact fun {earlier} => .nil
  | cons a rest ih =>
      intro earlier
      rw [secondKeys]
      by_cases hsecond : earlier.countP (Text.sameIgnoringCase a.key) = 1
      · rw [if_pos hsecond, List.singleton_append, List.pairwise_cons]
        refine ⟨fun key hkey => ?_, ih⟩
        rw [Bool.eq_false_iff]
        intro hsame
        have hfew := ((mem_secondKeys a.key).1 ⟨key, hkey, hsame⟩).1
        rw [List.countP_append, hsecond, List.countP_singleton,
          if_pos (sameIgnoringCase_iff.2 rfl)] at hfew
        omega
      · rw [if_neg hsecond]
        exact ih

/-- What is told of keys given more than once. -/
theorem repeats_secondKeys (given : List Argument) :
    Repeats given (secondKeys [] given) where
  places := by
    obtain ⟨is, his⟩ := enumerated_secondKeys given []
    exact ⟨is, his⟩
  each := by
    intro name
    rw [mem_secondKeys]
    simp
  once := pairwise_secondKeys

/-- Nothing is told just when all keys are different. -/
theorem secondKeys_eq_nil : secondKeys [] given = [] ↔ DistinctKeys given := by
  have hcount : ∀ name, (given.map Argument.key).countP (Text.sameIgnoringCase name) =
      (given.map fun a => folded a.key).count (folded name) := by
    intro name
    rw [countP_same, List.map_map]
    rfl
  have heach := (repeats_secondKeys given).each
  unfold DistinctKeys
  rw [List.nodup_iff_count_le_one]
  constructor
  · intro h name
    by_contra hmany
    have hmem : name ∈ given.map fun a => folded a.key :=
      List.count_pos_iff.1 (by omega)
    obtain ⟨a, -, rfl⟩ := List.mem_map.1 hmem
    rw [← hcount] at hmany
    obtain ⟨key, hkey, -⟩ := (heach a.key).1 (Nat.not_le.1 hmany)
    rw [h] at hkey
    cases hkey
  · intro h
    apply List.eq_nil_iff_forall_not_mem.2
    intro key hkey
    have hmany := (heach key).2 ⟨key, hkey, sameIgnoringCase_iff.2 rfl⟩
    rw [hcount] at hmany
    exact Nat.not_lt.2 (h (folded key)) hmany

end SeriesQuery
