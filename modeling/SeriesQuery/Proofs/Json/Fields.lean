import Mathlib.Data.List.Induction
import Mathlib.Data.String.Basic
import SeriesQuery.Json.Value

/-!
# Fields with rising keys

An object that came from outside has its members sorted by key, each key once.  Such
fields are known by what they hold under each key, whatever the order in which their
members were put there.

## Main results

* `Ordered.ext`: fields with rising keys are equal when they hold the same under each
  key.
* `get?_put`, `get?_putNew`: what fields hold after a value was put under a key.
* `ofMembers_of_ordered`: fields that are sorted already stay as they are.
-/

namespace SeriesQuery

namespace Json.Fields

variable {fs gs : Fields} {k key : String} {v : Value}

/-- The keys rise, so no key comes twice. -/
def Ordered (fs : Fields) : Prop := fs.Pairwise fun a b => a.1 < b.1

theorem get?_cons (f : String × Value) (fs : Fields) (key : String) :
    get? (f :: fs) key = if f.1 = key then some f.2 else get? fs key := by
  unfold get?
  rw [List.find?_cons]
  by_cases h : f.1 = key
  · simp [h]
  · simp [h, beq_eq_false_iff_ne.2 h]

/-- What fields hold after a value was put under a key. -/
theorem get?_put : get? (put k v fs) key = if k = key then some v else get? fs key := by
  induction fs with
  | nil => rw [put, get?_cons]
  | cons f fs ih =>
      rw [put]
      by_cases hlt : k < f.1
      · rw [if_pos hlt, get?_cons]
      · rw [if_neg hlt]
        by_cases heq : k = f.1
        · rw [if_pos heq, get?_cons, get?_cons, ← heq]
          by_cases hkey : k = key <;> simp [hkey]
        · rw [if_neg heq, get?_cons, get?_cons, ih]
          by_cases hkey : k = key
          · have hne : f.1 ≠ key := fun h => heq (hkey.trans h.symm)
            simp [hkey, hne]
          · simp [hkey]

theorem get?_putNew :
    get? (putNew k v fs) key = (get? fs key).or (if k = key then some v else none) := by
  unfold putNew
  cases hk : get? fs k with
  | some u =>
      by_cases hkey : k = key
      · simp [← hkey, hk]
      · simp [hkey]
  | none =>
      show get? (put k v fs) key = _
      rw [get?_put]
      by_cases hkey : k = key
      · simp [← hkey, hk]
      · simp [hkey]

theorem mem_put {f : String × Value} (h : f ∈ put k v fs) : f = (k, v) ∨ f ∈ fs := by
  induction fs with
  | nil => exact Or.inl (List.mem_singleton.1 h)
  | cons g fs ih =>
      rw [put] at h
      split at h
      · exact List.mem_cons.1 h
      · split at h
        · rcases List.mem_cons.1 h with h | h
          · exact Or.inl h
          · exact Or.inr (List.mem_cons_of_mem g h)
        · rcases List.mem_cons.1 h with h | h
          · exact Or.inr (h ▸ List.mem_cons_self)
          · exact (ih h).imp_right (List.mem_cons_of_mem g)

theorem Ordered.put (h : Ordered fs) : Ordered (put k v fs) := by
  induction fs with
  | nil => exact List.pairwise_singleton _ _
  | cons f fs ih =>
      obtain ⟨hhead, htail⟩ := List.pairwise_cons.1 h
      rw [Fields.put]
      split
      · rename_i hlt
        refine List.pairwise_cons.2 ⟨fun g hg => ?_, h⟩
        rcases List.mem_cons.1 hg with rfl | hg
        · exact hlt
        · exact hlt.trans (hhead g hg)
      · rename_i hnot
        split
        · rename_i heq
          exact List.pairwise_cons.2 ⟨fun g hg => heq ▸ hhead g hg, htail⟩
        · rename_i hne
          refine List.pairwise_cons.2 ⟨fun g hg => ?_, ih htail⟩
          rcases mem_put hg with rfl | hg
          · exact lt_of_le_of_ne (not_lt.1 hnot) (Ne.symm hne)
          · exact hhead g hg

theorem Ordered.putNew (h : Ordered fs) : Ordered (putNew k v fs) := by
  unfold Fields.putNew
  split
  · exact h
  · exact h.put

private theorem get?_eq_none_of_forall_ne (h : ∀ f ∈ fs, f.1 ≠ key) :
    get? fs key = none := by
  unfold get?
  rw [Option.map_eq_none_iff, List.find?_eq_none]
  intro f hf
  simpa using h f hf

private theorem get?_eq_none_of_lt (h : ∀ f ∈ fs, key < f.1) : get? fs key = none :=
  get?_eq_none_of_forall_ne fun f hf => (h f hf).ne'

private theorem get?_cons_eq_none_of_lt {f : String × Value} (hkey : key < f.1)
    (h : ∀ g ∈ fs, f.1 < g.1) : get? (f :: fs) key = none :=
  get?_eq_none_of_lt (List.forall_mem_cons.2 ⟨hkey, fun g hg => hkey.trans (h g hg)⟩)

/-- Fields with rising keys are equal when they hold the same under each key. -/
theorem Ordered.ext (hf : Ordered fs) (hg : Ordered gs)
    (h : ∀ key, get? fs key = get? gs key) : fs = gs := by
  induction fs generalizing gs with
  | nil =>
      cases gs with
      | nil => rfl
      | cons g gs =>
          have hhead := h g.1
          rw [get?_cons, if_pos rfl] at hhead
          cases hhead
  | cons f fs ih =>
      cases gs with
      | nil =>
          have hhead := h f.1
          rw [get?_cons, if_pos rfl] at hhead
          cases hhead
      | cons g gs =>
          obtain ⟨hfhead, hftail⟩ := List.pairwise_cons.1 hf
          obtain ⟨hghead, hgtail⟩ := List.pairwise_cons.1 hg
          have hkey : f.1 = g.1 := by
            rcases lt_trichotomy f.1 g.1 with hlt | heq | hlt
            · have hnone : get? (g :: gs) f.1 = none :=
                get?_cons_eq_none_of_lt hlt hghead
              rw [← h, get?_cons, if_pos rfl] at hnone
              cases hnone
            · exact heq
            · have hnone : get? (f :: fs) g.1 = none :=
                get?_cons_eq_none_of_lt hlt hfhead
              rw [h, get?_cons, if_pos rfl] at hnone
              cases hnone
          have hvalue : f.2 = g.2 := by
            have hhead := h f.1
            rw [get?_cons, get?_cons, if_pos rfl, if_pos hkey.symm] at hhead
            exact Option.some.inj hhead
          have hrest : ∀ key, get? fs key = get? gs key := by
            intro key
            by_cases he : f.1 = key
            · rw [get?_eq_none_of_lt fun e hemem => he ▸ hfhead e hemem,
                get?_eq_none_of_lt fun e hemem => he ▸ hkey ▸ hghead e hemem]
            · have hall := h key
              rwa [get?_cons, get?_cons, if_neg he, if_neg (hkey ▸ he)] at hall
          rw [Prod.ext hkey hvalue, ih hftail hgtail hrest]

/-- Putting a value under a key that holds it already, or only if there is none, is the
same. -/
theorem Ordered.putNew_eq_put {w : Value} (h : Ordered fs)
    (hw : (get? fs k).getD v = w) : Fields.putNew k v fs = Fields.put k w fs := by
  refine h.putNew.ext h.put fun key => ?_
  rw [get?_putNew, get?_put]
  by_cases hkey : k = key
  · subst hkey
    cases hk : get? fs k with
    | none => simp [← hw, hk]
    | some u => simp [← hw, hk]
  · simp [hkey]

/-! ## Members in any order -/

variable {ms ns : List (String × Value)}

/-- Putting members one after the other. -/
theorem ofMembers_concat (ms : List (String × Value)) (m : String × Value) :
    ofMembers (ms ++ [m]) = put m.1 m.2 (ofMembers ms) := by
  unfold ofMembers
  rw [List.foldl_append]
  rfl

theorem ordered_ofMembers (ms : List (String × Value)) : (ofMembers ms).Ordered := by
  induction ms using List.reverseRecOn with
  | nil => exact List.Pairwise.nil
  | append_singleton ms m ih =>
      rw [ofMembers_concat]
      exact ih.put

/-- Of a repeated key the last value counts. -/
theorem get?_foldl_put (ms : List (String × Value)) (fs : Fields) (key : String) :
    get? (ms.foldl (fun fs m => put m.1 m.2 fs) fs) key =
      (get? (ofMembers ms) key).or (get? fs key) := by
  induction ms using List.reverseRecOn with
  | nil => rfl
  | append_singleton ms m ih =>
      rw [List.foldl_append, List.foldl_cons, List.foldl_nil, ofMembers_concat,
        get?_put, get?_put, ih]
      by_cases hkey : m.1 = key <;> simp [hkey]

private theorem Ordered.foldl_put (h : Ordered fs) (ms : List (String × Value)) :
    Ordered (ms.foldl (fun fs m => Fields.put m.1 m.2 fs) fs) := by
  induction ms generalizing fs with
  | nil => exact h
  | cons m ms ih => exact ih h.put

theorem mem_ofMembers {f : String × Value} (h : f ∈ ofMembers ms) : f ∈ ms := by
  induction ms using List.reverseRecOn with
  | nil => exact h
  | append_singleton ms m ih =>
      rw [ofMembers_concat] at h
      rcases mem_put h with rfl | h
      · exact List.mem_append_right ms (List.mem_singleton_self _)
      · exact List.mem_append_left [m] (ih h)

/-- A value whose key comes after all others is put at the end. -/
theorem put_of_forall_lt (h : ∀ f ∈ fs, f.1 < k) : put k v fs = fs ++ [(k, v)] := by
  induction fs with
  | nil => rfl
  | cons f fs ih =>
      have hhead := h f List.mem_cons_self
      rw [put, if_neg hhead.le.not_gt, if_neg hhead.ne',
        ih fun g hg => h g (List.mem_cons_of_mem f hg)]
      rfl

/-- Fields that are sorted already stay as they are. -/
theorem ofMembers_of_ordered (h : Ordered fs) : ofMembers fs = fs := by
  induction fs using List.reverseRecOn with
  | nil => rfl
  | append_singleton fs f ih =>
      obtain ⟨hfs, -, hlast⟩ := List.pairwise_append.1 h
      rw [ofMembers_concat, ih hfs]
      exact put_of_forall_lt fun g hg => hlast g hg f (List.mem_singleton_self f)

/-! ## Fields that agree -/

/-- Fields that hold the same under all keys but some names. -/
def AgreeBeside (names : List String) (fs gs : Fields) : Prop :=
  ∀ key ∉ names, get? fs key = get? gs key

theorem AgreeBeside.put_left {names : List String} (h : AgreeBeside names fs gs)
    (hk : k ∈ names) : AgreeBeside names (Fields.put k v fs) gs := by
  intro key hkey
  have hne : k ≠ key := fun heq => hkey (heq ▸ hk)
  rw [get?_put, if_neg hne, h key hkey]

theorem AgreeBeside.put {names : List String} (h : AgreeBeside names fs gs) :
    AgreeBeside names (Fields.put k v fs) (Fields.put k v gs) := by
  intro key hkey
  rw [get?_put, get?_put, h key hkey]

/-- Known members put among others come to the same before and after sorting. -/
theorem AgreeBeside.ofMembers_append {known : List (String × Value)}
    (h : AgreeBeside (known.map Prod.fst) fs gs) (hfs : Ordered fs) (hgs : Ordered gs)
    (hfresh : ∀ g ∈ gs, g.1 ∉ known.map Prod.fst) :
    ofMembers (known ++ gs) = known.foldl (fun fs m => Fields.put m.1 m.2 fs) fs := by
  refine (ordered_ofMembers _).ext (hfs.foldl_put known) fun key => ?_
  have hsplit : ofMembers (known ++ gs) =
      gs.foldl (fun fs m => Fields.put m.1 m.2 fs) (ofMembers known) :=
    List.foldl_append
  rw [hsplit, get?_foldl_put, get?_foldl_put, ofMembers_of_ordered hgs]
  by_cases hkey : key ∈ known.map Prod.fst
  · have hnone : get? gs key = none :=
      get?_eq_none_of_forall_ne fun g hg heq => hfresh g hg (heq ▸ hkey)
    have hsome : (get? (ofMembers known) key).isSome := by
      clear h hfresh hsplit hnone
      induction known using List.reverseRecOn with
      | nil => cases hkey
      | append_singleton known m ih =>
          rw [ofMembers_concat, get?_put]
          by_cases hm : m.1 = key
          · simp [hm]
          · rw [if_neg hm]
            rw [List.map_append, List.mem_append, List.map_singleton,
              List.mem_singleton] at hkey
            exact ih (hkey.resolve_right fun heq => hm heq.symm)
    obtain ⟨v, hv⟩ := Option.isSome_iff_exists.1 hsome
    rw [hnone, hv]
    rfl
  · have hnone : get? (ofMembers known) key = none :=
      get?_eq_none_of_forall_ne fun m hm heq =>
        hkey (heq ▸ List.mem_map_of_mem (mem_ofMembers hm))
    rw [hnone, h key hkey, Option.none_or, Option.or_none]

end Json.Fields

end SeriesQuery
