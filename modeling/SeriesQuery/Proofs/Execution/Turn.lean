import Mathlib.Data.List.Nodup
import SeriesQuery.Execution.Task

/-!
# Turns

What a task may rely on is said through four views of the world: which result is kept
for a stage, which task has the turn at it, which tasks queue for that turn, and which
tasks the next pass is for.  Each operation on the world gets one equation for every
view that it changes.  The equations of a turn that is passed on need the world to be
tidy: a stage has one turn, nobody stands in a turn twice, and a stage whose result is
kept has no turn.

## Main results

* `owns_release`, `waits_release`: passing a turn on makes the task that has queued
  longest its owner.
* `Waits.release`, `Waits.mem_next_settle`: a task whose waiting is over is woken.
-/

namespace SeriesQuery.Execution

namespace World

variable {w : World} {id j : Nat} {p q : Path}

/-! ## Views -/

/-- A task has the turn at a stage. -/
def Owns (w : World) (id : Nat) (q : Path) : Prop :=
  ∃ t, w.turn? id = some t ∧ t.owner = q

/-- A task queues for the turn at a stage. -/
def Waits (w : World) (id : Nat) (q : Path) : Prop :=
  ∃ t, w.turn? id = some t ∧ q ∈ t.waiting

/-- A stage has one turn and nobody stands in it twice; a result that is kept ends the
turn. -/
structure Tidy (w : World) : Prop where
  distinct : (w.turns.map Turn.id).Nodup
  single : ∀ t ∈ w.turns, (t.owner :: t.waiting).Nodup
  unkept : ∀ id r, w.recalled? id = some r → w.turn? id = none

theorem owns_eq_true : w.owns id q = true ↔ w.Owns id q := by
  unfold World.owns Owns
  cases w.turn? id with
  | none => simp
  | some t => simp

private theorem turn?_mem {t : Turn} (h : w.turn? id = some t) : t ∈ w.turns :=
  List.mem_of_find?_eq_some h

private theorem turn?_id {t : Turn} (h : w.turn? id = some t) : t.id = id := by
  have hbeq := List.find?_some h
  simpa using hbeq

/-- A stage has the turn that the list of turns holds for it. -/
theorem Tidy.turn?_eq_some (hw : w.Tidy) {t : Turn} (ht : t ∈ w.turns) :
    w.turn? t.id = some t := by
  cases hfind : w.turn? t.id with
  | none =>
      have hnot := List.find?_eq_none.1 hfind t ht
      simp at hnot
  | some t' =>
      have hsame :=
        List.inj_on_of_nodup_map hw.distinct (turn?_mem hfind) ht (turn?_id hfind)
      rw [hsame]

/-- Nobody but its owner owns a turn. -/
theorem Owns.eq (h : w.Owns id p) (h' : w.Owns id q) : p = q := by
  obtain ⟨t, ht, rfl⟩ := h
  obtain ⟨t', ht', rfl⟩ := h'
  rw [ht, Option.some.injEq] at ht'
  rw [ht']

theorem Owns.turn?_ne_none (h : w.Owns id p) : w.turn? id ≠ none := by
  obtain ⟨t, ht, -⟩ := h
  rw [ht]
  simp

theorem Waits.turn?_ne_none (h : w.Waits id p) : w.turn? id ≠ none := by
  obtain ⟨t, ht, -⟩ := h
  rw [ht]
  simp

/-- A stage at which a task has the turn has no result yet. -/
theorem Tidy.recalled?_eq_none (hw : w.Tidy) (h : w.turn? id ≠ none) :
    w.recalled? id = none := by
  cases hr : w.recalled? id with
  | none => rfl
  | some r => exact absurd (hw.unkept id r hr) h

/-- Nobody queues for a turn that it has. -/
theorem Tidy.not_waits (hw : w.Tidy) (h : w.Owns id q) : ¬ w.Waits id q := by
  rintro ⟨t, ht, hq⟩
  obtain ⟨t', ht', rfl⟩ := h
  rw [ht', Option.some.injEq] at ht
  subst ht
  exact (List.nodup_cons.1 (hw.single t' (turn?_mem ht'))).1 hq

/-! ## Taking a turn -/

theorem turn?_take :
    (w.take id p).turn? j = if id = j then some ⟨id, p, []⟩ else w.turn? j := by
  by_cases h : id = j
  · simp [turn?, take, h]
  · simp [turn?, take, h]

theorem owns_take (hnone : w.turn? id = none) :
    (w.take id p).Owns j q ↔ w.Owns j q ∨ (j = id ∧ q = p) := by
  unfold Owns
  rw [turn?_take]
  by_cases h : id = j
  · subst h
    simp [hnone, eq_comm]
  · simp [h, Ne.symm h]

theorem waits_take (hnone : w.turn? id = none) : (w.take id p).Waits j q ↔
    w.Waits j q := by
  unfold Waits
  rw [turn?_take]
  by_cases h : id = j
  · subst h
    simp [hnone]
  · simp [h]

@[simp] theorem recalled?_take : (w.take id p).recalled? j = w.recalled? j := rfl

theorem Tidy.take (hw : w.Tidy) (hnone : w.turn? id = none)
    (hr : w.recalled? id = none) :
    (w.take id p).Tidy where
  distinct := by
    have hnot : id ∉ w.turns.map Turn.id := by
      intro hmem
      obtain ⟨t, ht, hid⟩ := List.mem_map.1 hmem
      have hfind := List.find?_eq_none.1 hnone t ht
      simp [hid] at hfind
    simpa [World.take] using ⟨by simpa using hnot, hw.distinct⟩
  single := by
    intro t ht
    rcases List.mem_cons.1 ht with rfl | ht
    · simp
    · exact hw.single t ht
  unkept := by
    intro i r hi
    have hne : id ≠ i := by
      rintro rfl
      rw [recalled?_take, hr] at hi
      cases hi
    rw [turn?_take, if_neg hne]
    exact hw.unkept i r hi

/-! ## Queueing -/

private theorem find?_map_id {ts : List Turn} {f : Turn → Turn}
    (hf : ∀ t, (f t).id = t.id) (j : Nat) :
    (ts.map f).find? (fun t => t.id == j) = (ts.find? fun t => t.id == j).map f := by
  induction ts with
  | nil => rfl
  | cons t ts ih =>
      by_cases h : t.id = j
      · simp [hf, h]
      · simp [hf, h, ih]

theorem turn?_queue :
    (w.queue id p).turn? j =
      (w.turn? j).map fun t =>
        if t.id = id then { t with waiting := t.waiting ++ [p] } else t := by
  unfold turn? queue
  exact find?_map_id (fun t => by split <;> rfl) j

theorem owns_queue : (w.queue id p).Owns j q ↔ w.Owns j q := by
  unfold Owns
  rw [turn?_queue]
  cases ht : w.turn? j with
  | none => simp
  | some t =>
      by_cases h : t.id = id
      · simp [h]
      · simp [h]

theorem waits_queue :
    (w.queue id p).Waits j q ↔
      w.Waits j q ∨ (j = id ∧ q = p ∧ (w.turn? id).isSome = true) := by
  unfold Waits
  rw [turn?_queue]
  cases ht : w.turn? j with
  | none =>
      simp only [Option.map_none, reduceCtorEq, false_and, exists_false, false_or,
        false_iff]
      rintro ⟨rfl, -, h⟩
      simp [ht] at h
  | some t =>
      have hid := turn?_id ht
      by_cases h : j = id
      · subst h
        simp [hid, ht]
      · simp [hid, h]

theorem Tidy.queue (hw : w.Tidy) (ho : ¬ w.Owns id p) (hq : ¬ w.Waits id p) :
    (w.queue id p).Tidy where
  distinct := by
    have hmap : (w.queue id p).turns.map Turn.id = w.turns.map Turn.id := by
      simp only [World.queue, List.map_map]
      apply List.map_congr_left
      intro t _
      by_cases h : t.id = id
      · simp [h]
      · simp [h]
    rw [hmap]
    exact hw.distinct
  single := by
    intro t ht
    obtain ⟨t', ht', rfl⟩ := List.mem_map.1 ht
    have hold := hw.single t' ht'
    by_cases h : t'.id = id
    · have hturn : w.turn? id = some t' := by
        rw [← h]
        exact hw.turn?_eq_some ht'
      have hne : t'.owner ≠ p := fun heq => ho ⟨t', hturn, heq⟩
      have hnot : p ∉ t'.waiting := fun hmem => hq ⟨t', hturn, hmem⟩
      rw [if_pos h]
      have hswap : (t'.owner :: (t'.waiting ++ [p])) =
          (t'.owner :: t'.waiting) ++ [p] := rfl
      show (t'.owner :: (t'.waiting ++ [p])).Nodup
      rw [hswap, List.nodup_append]
      refine ⟨hold, by simp, ?_⟩
      intro a ha b hb
      rw [List.mem_singleton] at hb
      subst hb
      rcases List.mem_cons.1 ha with rfl | ha
      · exact hne
      · rintro rfl
        exact hnot ha
    · rw [if_neg h]
      exact hold
  unkept := by
    intro i r hi
    have hnone := hw.unkept i r hi
    rw [turn?_queue, hnone]
    rfl

/-! ## Passing a turn on -/

/-- A turn after the task that has queued longest has become its owner. -/
def passedOn? (t : Turn) : Option Turn :=
  match t.waiting with
  | [] => none
  | p :: rest => some ⟨t.id, p, rest⟩

private theorem find?_passOn_of_ne {ts : List Turn} (h : id ≠ j) :
    ((passOn id ts).1.find? fun t => t.id == j) = ts.find? fun t => t.id == j := by
  induction ts with
  | nil => rfl
  | cons t ts ih =>
      rw [passOn]
      by_cases hid : t.id = id
      · have hne : t.id ≠ j := by rwa [hid]
        rw [if_pos hid]
        cases hwait : t.waiting with
        | nil => simp [hne]
        | cons p rest => simp [hne, h]
      · rw [if_neg hid]
        by_cases hj : t.id = j
        · simp [hj]
        · simp [hj, ih]

private theorem find?_passOn_self {ts : List Turn} (hnodup : (ts.map Turn.id).Nodup) :
    ((passOn id ts).1.find? fun t => t.id == id) =
      (ts.find? fun t => t.id == id).bind passedOn? := by
  induction ts with
  | nil => rfl
  | cons t ts ih =>
      rw [List.map_cons, List.nodup_cons] at hnodup
      rw [passOn]
      by_cases hid : t.id = id
      · rw [if_pos hid]
        cases hwait : t.waiting with
        | nil =>
            have hnone : (ts.find? fun t => t.id == id) = none := by
              rw [List.find?_eq_none]
              intro t' ht'
              have hne : t'.id ≠ id := by
                intro heq
                exact hnodup.1 (List.mem_map.2 ⟨t', ht', by rw [heq, hid]⟩)
              simpa using hne
            simp [hid, hnone, passedOn?, hwait]
        | cons p rest => simp [hid, passedOn?, hwait]
      · rw [if_neg hid]
        simp [hid, ih hnodup.2]

private theorem passOn_snd {ts : List Turn} :
    (passOn id ts).2 =
      ((ts.find? fun t => t.id == id).bind fun t => t.waiting.head?).toList := by
  induction ts with
  | nil => rfl
  | cons t ts ih =>
      rw [passOn]
      by_cases hid : t.id = id
      · rw [if_pos hid]
        cases hwait : t.waiting with
        | nil => simp [hid, hwait]
        | cons p rest => simp [hid, hwait]
      · rw [if_neg hid]
        simp [hid, ih]

private theorem mem_passOn {ts : List Turn} {t : Turn} (h : t ∈ (passOn id ts).1) :
    t ∈ ts ∨ ∃ t' ∈ ts, passedOn? t' = some t := by
  induction ts with
  | nil => cases h
  | cons t' ts ih =>
      rw [passOn] at h
      by_cases hid : t'.id = id
      · rw [if_pos hid] at h
        cases hwait : t'.waiting with
        | nil =>
            rw [hwait] at h
            exact Or.inl (List.mem_cons_of_mem _ h)
        | cons p rest =>
            rw [hwait] at h
            rcases List.mem_cons.1 h with rfl | h
            · exact Or.inr ⟨t', List.mem_cons_self, by simp [passedOn?, hwait, hid]⟩
            · exact Or.inl (List.mem_cons_of_mem _ h)
      · rw [if_neg hid] at h
        rcases List.mem_cons.1 h with rfl | h
        · exact Or.inl List.mem_cons_self
        · rcases ih h with hold | ⟨t'', ht'', hpass⟩
          · exact Or.inl (List.mem_cons_of_mem _ hold)
          · exact Or.inr ⟨t'', List.mem_cons_of_mem _ ht'', hpass⟩

private theorem map_id_passOn_sublist {ts : List Turn} :
    ((passOn id ts).1.map Turn.id).Sublist (ts.map Turn.id) := by
  induction ts with
  | nil => exact List.Sublist.refl _
  | cons t ts ih =>
      rw [passOn]
      by_cases hid : t.id = id
      · rw [if_pos hid]
        cases hwait : t.waiting with
        | nil => exact List.sublist_cons_self _ _
        | cons p rest => simp [hid]
      · rw [if_neg hid]
        exact ih.cons_cons _

private theorem turn?_release_of_ne (h : id ≠ j) : (w.release id).turn? j = w.turn? j :=
  find?_passOn_of_ne h

private theorem turn?_release_self (hw : w.Tidy) :
    (w.release id).turn? id = (w.turn? id).bind passedOn? :=
  find?_passOn_self hw.distinct

/-- The task that has queued longest gets the turn. -/
theorem owns_release (hw : w.Tidy) :
    (w.release id).Owns j q ↔ (j ≠ id ∧ w.Owns j q) ∨
      (j = id ∧ ∃ t, w.turn? id = some t ∧ t.waiting.head? = some q) := by
  unfold Owns
  by_cases h : id = j
  · subst h
    rw [turn?_release_self hw]
    cases ht : w.turn? id with
    | none => simp
    | some t =>
        cases hwait : t.waiting with
        | nil => simp [passedOn?, hwait]
        | cons p rest => simp [passedOn?, hwait]
  · rw [turn?_release_of_ne h]
    simp [Ne.symm h]

/-- The others go on queueing. -/
theorem waits_release (hw : w.Tidy) :
    (w.release id).Waits j q ↔ (j ≠ id ∧ w.Waits j q) ∨
      (j = id ∧ ∃ t, w.turn? id = some t ∧ q ∈ t.waiting.tail) := by
  unfold Waits
  by_cases h : id = j
  · subst h
    rw [turn?_release_self hw]
    cases ht : w.turn? id with
    | none => simp
    | some t =>
        cases hwait : t.waiting with
        | nil => simp [passedOn?, hwait]
        | cons p rest => simp [passedOn?, hwait]
  · rw [turn?_release_of_ne h]
    simp [Ne.symm h]

/-- A task that queued for a turn that is passed on goes on queueing, or has it now and
is woken. -/
theorem Waits.release (hw : w.Tidy) (h : w.Waits j q) :
    (w.release id).Waits j q ∨ ((w.release id).Owns j q ∧ q ∈ (w.release id).next) := by
  rw [waits_release hw, owns_release hw]
  by_cases hj : j = id
  · subst hj
    obtain ⟨t, ht, hq⟩ := h
    cases hwait : t.waiting with
    | nil =>
        rw [hwait] at hq
        cases hq
    | cons p rest =>
        rw [hwait] at hq
        rcases List.mem_cons.1 hq with rfl | hq
        · right
          refine ⟨Or.inr ⟨rfl, t, ht, by rw [hwait]; rfl⟩, ?_⟩
          have hsnd : (passOn j w.turns).2 = [q] := by
            rw [passOn_snd]
            have hfind : (w.turns.find? fun t => t.id == j) = some t := ht
            rw [hfind, Option.bind_some, hwait]
            rfl
          simp [World.release, hsnd]
        · exact Or.inl (Or.inr ⟨rfl, t, ht, by rw [hwait]; exact hq⟩)
  · exact Or.inl (Or.inl ⟨hj, h⟩)

theorem Tidy.release (hw : w.Tidy) : (w.release id).Tidy where
  distinct := map_id_passOn_sublist.nodup hw.distinct
  single := by
    intro t ht
    rcases mem_passOn ht with hold | ⟨t', ht', hpass⟩
    · exact hw.single t hold
    · have hold := hw.single t' ht'
      cases hwait : t'.waiting with
      | nil => simp [passedOn?, hwait] at hpass
      | cons p rest =>
          simp only [passedOn?, hwait, Option.some.injEq] at hpass
          subst hpass
          rw [hwait] at hold
          exact (List.nodup_cons.1 hold).2
  unkept := by
    intro i r hi
    have hnone := hw.unkept i r hi
    by_cases h : id = i
    · subst h
      rw [turn?_release_self hw, hnone]
      rfl
    · rw [turn?_release_of_ne h]
      exact hnone

/-! ## Keeping a result -/

theorem turn?_settle {r : SeriesResult} :
    (w.settle id r).turn? j = if id = j then none else w.turn? j := by
  unfold turn? settle
  dsimp only
  by_cases h : id = j
  · subst h
    rw [if_pos rfl, List.find?_eq_none]
    intro t ht
    have hne := (List.mem_filter.1 ht).2
    simpa using hne
  · rw [if_neg h, List.find?_filter]
    congr 1
    funext t
    by_cases hj : t.id = j
    · simp [hj, Ne.symm h]
    · simp [hj]

theorem owns_settle {r : SeriesResult} :
    (w.settle id r).Owns j q ↔ j ≠ id ∧ w.Owns j q := by
  unfold Owns
  rw [turn?_settle]
  by_cases h : id = j
  · simp [h]
  · simp [h, Ne.symm h]

theorem waits_settle {r : SeriesResult} :
    (w.settle id r).Waits j q ↔ j ≠ id ∧ w.Waits j q := by
  unfold Waits
  rw [turn?_settle]
  by_cases h : id = j
  · simp [h]
  · simp [h, Ne.symm h]

theorem recalled?_settle {r : SeriesResult} :
    (w.settle id r).recalled? j = if id = j then some r else w.recalled? j := by
  by_cases h : id = j
  · simp [recalled?, settle, h]
  · simp [recalled?, settle, h]

/-- Whoever queued for a turn that ends is woken. -/
theorem Waits.mem_next_settle {r : SeriesResult} (h : w.Waits id q) :
    q ∈ (w.settle id r).next := by
  obtain ⟨t, ht, hq⟩ := h
  simp [settle, ht, hq]

theorem Tidy.settle (hw : w.Tidy) {r : SeriesResult} : (w.settle id r).Tidy where
  distinct := (List.filter_sublist.map _).nodup hw.distinct
  single := fun t ht => hw.single t (List.mem_filter.1 ht).1
  unkept := by
    intro i r' hi
    rw [turn?_settle]
    by_cases h : id = i
    · rw [if_pos h]
    · rw [recalled?_settle, if_neg h] at hi
      rw [if_neg h]
      exact hw.unkept i r' hi

/-! ## Leaving -/

/-- A task that has the turn passes it on when it leaves. -/
theorem leave_of_owns (h : w.Owns id p) : w.leave id p = w.release id := by
  rw [leave, if_pos (owns_eq_true.2 h)]

private theorem turn?_leave_of_not_owns (h : ¬ w.Owns id p) :
    (w.leave id p).turn? j = (w.turn? j).map fun t =>
      if t.id = id then { t with waiting := t.waiting.filter (· != p) } else t := by
  rw [leave, if_neg (fun howns => h (owns_eq_true.1 howns))]
  exact find?_map_id (fun t => by split <;> rfl) j

theorem owns_leave_of_not_owns (h : ¬ w.Owns id p) : (w.leave id p).Owns j q ↔
    w.Owns j q := by
  unfold Owns
  rw [turn?_leave_of_not_owns h]
  cases ht : w.turn? j with
  | none => simp
  | some t =>
      by_cases hid : t.id = id
      · simp [hid]
      · simp [hid]

theorem waits_leave_of_not_owns (h : ¬ w.Owns id p) :
    (w.leave id p).Waits j q ↔ w.Waits j q ∧ (j = id → q ≠ p) := by
  unfold Waits
  rw [turn?_leave_of_not_owns h]
  cases ht : w.turn? j with
  | none => simp
  | some t =>
      have htid := turn?_id ht
      by_cases hid : j = id
      · subst hid
        simp [htid]
      · simp [htid, hid]

@[simp] theorem recalled?_leave : (w.leave id p).recalled? j = w.recalled? j := by
  unfold leave
  split <;> rfl

theorem Tidy.leave (hw : w.Tidy) : (w.leave id p).Tidy := by
  by_cases h : w.Owns id p
  · rw [leave_of_owns h]
    exact hw.release
  · constructor
    · have hmap : (w.leave id p).turns.map Turn.id = w.turns.map Turn.id := by
        rw [World.leave, if_neg (fun howns => h (owns_eq_true.1 howns))]
        simp only [List.map_map]
        apply List.map_congr_left
        intro t _
        by_cases hid : t.id = id
        · simp [hid]
        · simp [hid]
      rw [hmap]
      exact hw.distinct
    · intro t ht
      rw [World.leave, if_neg (fun howns => h (owns_eq_true.1 howns))] at ht
      obtain ⟨t', ht', rfl⟩ := List.mem_map.1 ht
      have hold := hw.single t' ht'
      by_cases hid : t'.id = id
      · rw [if_pos hid]
        exact (List.filter_sublist.cons_cons _).nodup hold
      · rw [if_neg hid]
        exact hold
    · intro i r hi
      rw [recalled?_leave] at hi
      rw [turn?_leave_of_not_owns h, hw.unkept i r hi]
      rfl

end World

end SeriesQuery.Execution
