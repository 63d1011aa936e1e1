import Mathlib.Data.Finset.Card
import SeriesQuery.Backend.Tags
import SeriesQuery.Proofs.Json.Decoding

/-!
# Tags by calls

A map of tags is built by calls that give values for a key.  Whatever the calls, the
keys stand in the order of first use, each once, and under a key stand all values given
for it, in the order of the calls.  A call without values makes its key all the same.

An object of lists is decoded by one such call for each member, in the order of the
text, so that repeated keys run together.  Since the keys of a map are distinct, its own
entries build it again.

## Main results

* `Tags.Collects.apply`, `Tags.collects_built`: what one call keeps, and what all of
  them give.
* `Tags.decodeText_eq_ok`: which texts hold tags, and which tags.
* `Tags.decodeText_written`: written tags come back.
-/

namespace SeriesQuery.Backend.Tags

open SeriesQuery.Json Decoder Fallible

variable {tags : Tags} {k : String} {vs : List String}
  {es : List (String × List String)} {depth : Nat} {t : Tree}

/-! ## Entries -/

/-- No key comes twice. -/
def Distinct (t : Tags) : Prop := (t.entries.map Prod.fst).Nodup

private theorem extendEntries_of_notMem (h : k ∉ es.map Prod.fst) :
    extendEntries k vs es = es ++ [(k, vs)] := by
  induction es with
  | nil => rfl
  | cons e es ih =>
      rw [List.map_cons, List.mem_cons, not_or] at h
      rw [extendEntries, if_neg (Ne.symm h.1), ih h.2]
      rfl

private theorem extendEntries_of_mem (h : k ∈ es.map Prod.fst) :
    (extendEntries k vs es).map Prod.fst = es.map Prod.fst := by
  induction es with
  | nil => cases h
  | cons e es ih =>
      rw [extendEntries]
      split
      · rfl
      · rename_i hne
        rw [List.map_cons, List.map_cons,
          ih ((List.mem_cons.1 h).resolve_left (Ne.symm hne))]

private theorem Distinct.extend (h : tags.Distinct) (k : String) (vs : List String) :
    (tags.extend k vs).Distinct := by
  unfold Distinct Tags.extend
  by_cases hmem : k ∈ tags.entries.map Prod.fst
  · rw [extendEntries_of_mem hmem]
    exact h
  · rw [extendEntries_of_notMem hmem, List.map_append, List.nodup_append]
    refine ⟨h, List.nodup_cons.2 ⟨List.not_mem_nil, List.nodup_nil⟩,
      fun j hj l hl heq => hmem ?_⟩
    rwa [heq, List.mem_singleton.1 hl] at hj

theorem distinct_empty : (⟨[]⟩ : Tags).Distinct := List.nodup_nil

/-- Entries are appended as they are while their keys are new. -/
theorem foldl_extend {ds : List (String × List String)}
    (h : ((ds ++ es).map Prod.fst).Nodup) :
    es.foldl (fun t m => t.extend m.1 m.2) (⟨ds⟩ : Tags) = ⟨ds ++ es⟩ := by
  induction es generalizing ds with
  | nil => rw [List.foldl_nil, List.append_nil]
  | cons e es ih =>
      have hsplit : ds ++ e :: es = (ds ++ [e]) ++ es := by simp
      have hnew : e.1 ∉ ds.map Prod.fst := by
        rw [List.map_append, List.map_cons] at h
        exact fun hmem => (List.nodup_append.1 h).2.2 _ hmem _ List.mem_cons_self rfl
      rw [hsplit] at h ⊢
      rw [List.foldl_cons, ← ih h]
      unfold Tags.extend
      rw [extendEntries_of_notMem hnew]

/-- Tags with keys of their own are built up from their entries. -/
theorem ofList_entries (h : tags.Distinct) : ofList tags.entries = tags :=
  foldl_extend h

/-! ## Look-ups -/

private theorem find?_extendEntries (j : String) :
    ((extendEntries k vs es).find? fun e => e.1 == j).map Prod.snd =
      if j = k then some ((((es.find? fun e => e.1 == k).map Prod.snd).getD []) ++ vs)
      else (es.find? fun e => e.1 == j).map Prod.snd := by
  induction es with
  | nil => by_cases h : j = k <;> simp [extendEntries, h, Ne.symm]
  | cons e es ih =>
      rw [extendEntries]
      by_cases he : e.1 = k
      · by_cases h : j = k
        · simp [he, h]
        · simp [he, h, Ne.symm h]
      · rw [if_neg he]
        by_cases h : e.1 = j
        · subst h
          simp [he]
        · have hskip : ∀ {l : String}, e.1 ≠ l → ∀ ds : List (String × List String),
              ((e :: ds).find? fun e => e.1 == l) = ds.find? fun e => e.1 == l :=
            fun hne ds => List.find?_cons_of_neg (by simpa using hne)
          rw [hskip h, hskip h, hskip he, ih]

/-- Extending a key adds to its values and leaves the other keys as they are. -/
theorem get?_extend (j : String) :
    (tags.extend k vs).get? j =
      if j = k then some ((tags.get? k).getD [] ++ vs) else tags.get? j :=
  find?_extendEntries j

private theorem get?_eq_none_iff : tags.get? k = none ↔
    k ∉ tags.entries.map Prod.fst := by
  rw [get?, Option.map_eq_none_iff, List.find?_eq_none, List.mem_map]
  constructor
  · rintro h ⟨e, he, rfl⟩
    exact h e he (beq_self_eq_true _)
  · exact fun h e he heq => h ⟨e, he, eq_of_beq heq⟩

/-! ## Calls -/

/-- A call that gives values for a key. -/
inductive Call where
  | insert (key value : String)
  | extend (key : String) (values : List String)

namespace Call

/-- The key of a call. -/
def key : Call → String
  | insert k _ => k
  | extend k _ => k

/-- The values that a call gives. -/
def values : Call → List String
  | insert _ v => [v]
  | extend _ vs => vs

end Call

/-- What a call makes of a map. -/
def apply (t : Tags) : Call → Tags
  | .insert k v => t.insert k v
  | .extend k vs => t.extend k vs

private theorem apply_eq (t : Tags) (c : Call) :
    t.apply c = t.extend c.key c.values := by
  cases c <;> rfl

/-- The map that calls build from the empty one. -/
def built (calls : List Call) : Tags := calls.foldl apply {}

private theorem built_concat (calls : List Call) (c : Call) :
    built (calls ++ [c]) = (built calls).apply c := by
  rw [built, List.foldl_append]
  rfl

/-- One call for each of some keys with values. -/
def extendAll (ms : List (String × List String)) : List Call :=
  ms.map fun m => .extend m.1 m.2

theorem built_extendAll (ms : List (String × List String)) :
    built (extendAll ms) = ofList ms := by
  rw [built, extendAll, List.foldl_map]
  rfl

/-- The values that calls give for a key, in the order of the calls. -/
def given (calls : List Call) (k : String) : List String :=
  (calls.filter fun c => c.key == k).flatMap Call.values

/-- Which of the calls is the first for a key. -/
def firstUse (calls : List Call) (k : String) : Nat := calls.findIdx fun c => c.key == k

/-- The calls make a map: its keys are those of the calls, distinct and in the order of
first use, and under each key stands what the calls give for it. -/
structure Collects (calls : List Call) (t : Tags) : Prop where
  distinct : t.Distinct
  used : ∀ k, k ∈ t.entries.map Prod.fst ↔ ∃ c ∈ calls, c.key = k
  order :
    (t.entries.map Prod.fst).Pairwise fun j k => firstUse calls j < firstUse calls k
  found : ∀ c ∈ calls, t.get? c.key = some (given calls c.key)
  absent : ∀ k, t.get? k = none ↔ ∀ c ∈ calls, c.key ≠ k
  size : t.size = (calls.map Call.key).toFinset.card

/-! ## Collecting -/

section Collecting

variable {calls : List Call}

private theorem given_concat (calls : List Call) (c : Call) (k : String) :
    given (calls ++ [c]) k = given calls k ++ if k = c.key then c.values else [] := by
  by_cases h : k = c.key
  · simp [given, h]
  · simp [given, h, Ne.symm h]

private theorem given_of_unused (h : ∀ c ∈ calls, c.key ≠ k) : given calls k = [] := by
  rw [given, List.filter_eq_nil_iff.2 fun c hc => by simpa using h c hc]
  rfl

private theorem firstUse_lt (h : ∃ c ∈ calls, c.key = k) :
    firstUse calls k < calls.length := by
  obtain ⟨c, hc, hkey⟩ := h
  rw [firstUse, List.findIdx_lt_length]
  exact ⟨c, hc, by simpa using hkey⟩

/-- A key that has been used before keeps its first use. -/
theorem firstUse_concat_of_used (c : Call) (h : ∃ c ∈ calls, c.key = k) :
    firstUse (calls ++ [c]) k = firstUse calls k := by
  have hlt := firstUse_lt h
  unfold firstUse at hlt ⊢
  rw [List.findIdx_append, if_pos hlt]

/-- A key that has not been used has its first use in the next call. -/
theorem firstUse_concat_of_unused {c : Call} (h : ∀ d ∈ calls, d.key ≠ c.key) :
    firstUse (calls ++ [c]) c.key = calls.length := by
  have hnone : calls.findIdx (fun d => d.key == c.key) = calls.length :=
    List.findIdx_eq_length.2 fun d hd => by simpa using h d hd
  unfold firstUse
  rw [List.findIdx_append, hnone, if_neg (Nat.lt_irrefl _)]
  simp

private theorem used_concat {c : Call} :
    (∃ d ∈ calls ++ [c], d.key = k) ↔ (∃ d ∈ calls, d.key = k) ∨ k = c.key := by
  simp only [List.mem_append, List.mem_singleton, or_and_right, exists_or,
    exists_eq_left]
  rw [eq_comm (a := k)]

private theorem collects_empty : Collects [] {} where
  distinct := distinct_empty
  used := by simp
  order := .nil
  found := by simp
  absent := by simp [get?]
  size := rfl

/-- What stands under a key is what the calls give for it; nothing stands for an empty
list. -/
theorem Collects.getD_get? (h : Collects calls tags) (k : String) :
    (tags.get? k).getD [] = given calls k := by
  by_cases hused : ∃ c ∈ calls, c.key = k
  · obtain ⟨c, hc, rfl⟩ := hused
    rw [h.found c hc, Option.getD_some]
  · have hunused : ∀ c ∈ calls, c.key ≠ k := fun c hc heq => hused ⟨c, hc, heq⟩
    rw [(h.absent k).2 hunused, given_of_unused hunused, Option.getD_none]

/-- The keys after one more call: its own comes last if it is new. -/
theorem Collects.keys_extend (h : Collects calls tags) (c : Call) :
    (tags.extend c.key c.values).entries.map Prod.fst = tags.entries.map Prod.fst ∧
        (∃ d ∈ calls, d.key = c.key) ∨
      (tags.extend c.key c.values).entries.map Prod.fst =
        tags.entries.map Prod.fst ++ [c.key] ∧ ∀ d ∈ calls, d.key ≠ c.key := by
  by_cases hmem : c.key ∈ tags.entries.map Prod.fst
  · exact .inl ⟨extendEntries_of_mem hmem, (h.used _).1 hmem⟩
  · refine .inr ⟨?_, fun d hd heq => hmem ((h.used _).2 ⟨d, hd, heq⟩)⟩
    rw [Tags.extend, extendEntries_of_notMem hmem, List.map_append]
    rfl

/-- The number of keys of a map that has each of them once. -/
theorem size_eq_card (hdistinct : tags.Distinct)
    (hused : ∀ k, k ∈ tags.entries.map Prod.fst ↔ ∃ c ∈ calls, c.key = k) :
    tags.size = (calls.map Call.key).toFinset.card := by
  have hsame : (tags.entries.map Prod.fst).toFinset =
      (calls.map Call.key).toFinset := by
    ext k
    rw [List.mem_toFinset, List.mem_toFinset, hused, List.mem_map]
  rw [← hsame, List.toFinset_card_of_nodup hdistinct, List.length_map, size]

/-- **Step.**  One more call adds its values to those of its key, which comes last if it
is new. -/
theorem Collects.apply (h : Collects calls tags) (c : Call) :
    Collects (calls ++ [c]) (tags.apply c) := by
  rw [apply_eq]
  have hdistinct := h.distinct.extend c.key c.values
  -- The new call stands behind all others, so the order of the old keys does not
  -- change.
  have hkept :
      ∀ j ∈ tags.entries.map Prod.fst, firstUse (calls ++ [c]) j = firstUse calls j :=
    fun j hj => firstUse_concat_of_used c ((h.used j).1 hj)
  have horder : (tags.entries.map Prod.fst).Pairwise fun j k =>
      firstUse (calls ++ [c]) j < firstUse (calls ++ [c]) k := by
    refine h.order.imp_of_mem fun hj hk hlt => ?_
    rwa [hkept _ hj, hkept _ hk]
  have hused : ∀ k, k ∈ (tags.extend c.key c.values).entries.map Prod.fst ↔
      ∃ d ∈ calls ++ [c], d.key = k := by
    intro k
    rw [used_concat]
    rcases h.keys_extend c with ⟨hkeys, hold⟩ | ⟨hkeys, -⟩
    · rw [hkeys, h.used, or_iff_left_of_imp]
      rintro rfl
      exact hold
    · rw [hkeys, List.mem_append, List.mem_singleton, h.used]
  refine ⟨hdistinct, hused, ?_, ?_, ?_, size_eq_card hdistinct hused⟩
  · rcases h.keys_extend c with ⟨hkeys, -⟩ | ⟨hkeys, hnew⟩
    · rwa [hkeys]
    · rw [hkeys, List.pairwise_append]
      refine ⟨horder, List.pairwise_singleton _ _, fun j hj k hk => ?_⟩
      rw [List.mem_singleton.1 hk, firstUse_concat_of_unused hnew, hkept j hj]
      exact firstUse_lt ((h.used j).1 hj)
  · intro d hd
    rw [get?_extend, given_concat]
    by_cases hkey : d.key = c.key
    · rw [if_pos hkey, if_pos hkey, h.getD_get?, hkey]
    · have hbefore : d ∈ calls := by
        rcases List.mem_append.1 hd with hd | hd
        · exact hd
        · exact absurd (congrArg Call.key (List.mem_singleton.1 hd)) hkey
      rw [if_neg hkey, if_neg hkey, List.append_nil, h.found d hbefore]
  · intro k
    rw [get?_eq_none_iff, hused]
    simp only [not_exists, not_and, ne_eq]

/-- **Run.**  Any calls collect what they give. -/
theorem collects_built (calls : List Call) : Collects calls (built calls) := by
  induction calls using List.reverseRecOn with
  | nil => exact collects_empty
  | append_singleton calls c ih =>
      rw [built_concat]
      exact ih.apply c

/-- Tags that are built up entry by entry have keys of their own. -/
theorem distinct_ofList (ms : List (String × List String)) : (ofList ms).Distinct := by
  rw [← built_extendAll]
  exact (collects_built (extendAll ms)).distinct

end Collecting

/-! ## JSON texts -/

/-- The object whose members are lists of texts, as a tree. -/
def tree (ms : List (String × List String)) : Tree :=
  .object (ms.map fun m => (some m.1, .array (m.2.map fun s => .text (some s))))

private theorem list_text_eq_ok :
    list text (depth + 1) t = .ok vs ↔ t = .array (vs.map fun s => .text (some s)) := by
  rw [list_eq_ok]
  have htexts : ∀ {ts : List Tree},
      List.Forall₂ (fun t s => text depth t = .ok s) ts vs ↔
      ts = vs.map fun s => .text (some s) := by
    intro ts
    simp only [text_eq_ok]
    rw [← List.forall₂_map_right_iff (R := Eq), List.forall₂_eq_eq_eq]
  constructor
  · rintro ⟨inner, ts, hdepth, rfl, hts⟩
    cases hdepth
    rw [htexts.1 hts]
  · rintro rfl
    exact ⟨depth, _, rfl, rfl, htexts.2 rfl⟩

private theorem members_eq_ok {start : Tags} {fields : List (Option String × Tree)} :
    members (fun depth t k v => return t.extend k (← list text depth v)) (depth + 1)
      start fields = .ok tags ↔
      ∃ ms : List (String × List String),
        fields =
          ms.map (fun m => (some m.1, .array (m.2.map fun s => .text (some s)))) ∧
          tags = ms.foldl (fun t m => t.extend m.1 m.2) start := by
  induction fields generalizing start with
  | nil =>
      constructor
      · intro h
        cases h
        exact ⟨[], rfl, rfl⟩
      · rintro ⟨ms, hms, rfl⟩
        rw [List.map_eq_nil_iff.1 hms.symm]
        rfl
  | cons field fields ih =>
      obtain ⟨key?, t⟩ := field
      rw [members_cons_eq_ok]
      constructor
      · rintro ⟨k, next, rfl, hstep, hrest⟩
        obtain ⟨vs, hvs, hnext⟩ := bind_eq_ok_iff.1 hstep
        cases hnext
        obtain ⟨ms, rfl, rfl⟩ := ih.1 hrest
        rw [list_text_eq_ok.1 hvs]
        exact ⟨(k, vs) :: ms, rfl, rfl⟩
      · rintro ⟨ms, hms, rfl⟩
        cases ms with
        | nil => cases hms
        | cons m ms =>
            rw [List.map_cons, List.cons.injEq] at hms
            obtain ⟨hfield, rfl⟩ := hms
            obtain ⟨rfl, rfl⟩ := Prod.mk.inj hfield
            exact ⟨m.1, _, rfl, bind_eq_ok_iff.2 ⟨m.2, list_text_eq_ok.2 rfl, rfl⟩,
              ih.2 ⟨ms, rfl, rfl⟩⟩

/-- An object of lists is decoded by one call for each member, and no other tree is
decoded. -/
theorem decoder_eq_ok :
    decoder (depth + 2) t = .ok tags ↔
      ∃ ms, t = tree ms ∧ tags = built (extendAll ms) := by
  unfold decoder
  rw [object_eq_ok]
  constructor
  · rintro ⟨inner, fields, s, hdepth, rfl, hfields, hs⟩
    cases hdepth
    cases hs
    obtain ⟨ms, rfl, rfl⟩ := members_eq_ok.1 hfields
    exact ⟨ms, rfl, (built_extendAll ms).symm⟩
  · rintro ⟨ms, rfl, rfl⟩
    exact ⟨depth + 1, _, _, rfl, rfl, members_eq_ok.2 ⟨ms, rfl, rfl⟩, by
      rw [built_extendAll]; rfl⟩

theorem distinct_of_decoder (h : decoder depth t = .ok tags) : tags.Distinct := by
  obtain ⟨inner, ms, s, -, -, hms, hs⟩ := object_eq_ok.1 h
  cases hs
  refine members_preserves (fun hstep htags => ?_) hms distinct_empty
  obtain ⟨values, -, hvalues⟩ := bind_eq_ok_iff.1 hstep
  cases hvalues
  exact htags.extend _ values

/-- The tree of a written object of lists. -/
theorem ofValue_lists (ms : List (String × List String)) :
    Tree.ofValue (.object (ms.map fun m => (m.1, Value.texts m.2))) = tree ms := by
  have hmembers : ∀ ms : List (String × List String),
      Tree.ofMembers (ms.map fun m => (m.1, Value.texts m.2)) =
        ms.map fun m => (some m.1, .array (m.2.map fun s => .text (some s))) := by
    intro ms
    induction ms with
    | nil => rfl
    | cons m ms ih =>
        have hvalues : Tree.ofValue (Value.texts m.2) =
            .array (m.2.map fun s => .text (some s)) := by
          rw [Value.texts, Tree.ofValue, Tree.ofItems_eq_map, List.map_map]
          rfl
        rw [List.map_cons, List.map_cons, Tree.ofMembers, hvalues, ih]
  rw [Tree.ofValue, hmembers, tree]

/-- Written tags are decoded as the tags. -/
theorem decoder_written (h : tags.Distinct) :
    decoder (depth + 2) (Tree.ofValue tags.toJson) = .ok tags := by
  refine decoder_eq_ok.2 ⟨tags.entries, ofValue_lists tags.entries, ?_⟩
  rw [built_extendAll, ofList_entries h]

/-- A text holds tags just if it is an object of lists of texts, with nothing but blanks
after it. -/
theorem decodeText_eq_ok {s : String} :
    decodeText decoder s = .ok tags ↔
      (Document.read s.toList).complete = true ∧
        ∃ ms,
          (Document.read s.toList).value = tree ms ∧ tags = built (extendAll ms) := by
  have htree : ∀ {t : Tree}, decoder maxDepth t = .ok tags ↔
      ∃ ms, t = tree ms ∧ tags = built (extendAll ms) := decoder_eq_ok
  rw [Json.decodeText_eq_ok, and_comm, htree]

/-- A written object of lists is decoded by one call for each member, whether or not
keys repeat. -/
theorem decodeText_lists (ms : List (String × List String)) :
    decodeText decoder (Value.object (ms.map fun m => (m.1, Value.texts m.2))).compact =
      .ok (built (extendAll ms)) := by
  have hback : (Value.object (ms.map fun m => (m.1, Value.texts m.2))).ReadsBack := by
    refine Value.readsBack_object.2 fun m hm => ?_
    obtain ⟨n, -, rfl⟩ := List.mem_map.1 hm
    refine Value.readsBack_array.2 fun v hv => ?_
    obtain ⟨s, -, rfl⟩ := List.mem_map.1 hv
    simp [Value.ReadsBack, Value.numbers]
  have htree : decoder maxDepth (tree ms) = .ok (built (extendAll ms)) :=
    decoder_eq_ok.2 ⟨ms, rfl, rfl⟩
  rw [decodeText_compact decoder hback, ofValue_lists, htree]

/-- Written tags come back. -/
theorem decodeText_written (h : tags.Distinct) :
    decodeText decoder tags.toJson.compact = .ok tags := by
  refine (decodeText_lists tags.entries).trans ?_
  rw [built_extendAll, ofList_entries h]

end SeriesQuery.Backend.Tags
