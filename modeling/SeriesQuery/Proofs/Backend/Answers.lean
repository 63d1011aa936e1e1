import SeriesQuery.Backend.Response
import SeriesQuery.Proofs.Json.Decoding

/-!
# Answers pass through

An answer is decoded next to the value that its text denotes: what the answer knows by
name it has from the members of those names, and all other members it keeps as they are.
So the text written for the answer denotes the value of the text it came from, with a
default where a known member was missing, and decoding it gives the answer again.

The depth at all levels is how many containers may still be opened inside the value of a
point.

## Main results

* `Point.decoder_eq_ok`: which texts denote points.
* `Series.of_decoder`, `Block.of_decoder`, `Response.of_decoder`: what is decoded is
  sound, and it comes from the value of the text.
* `Response.value_written`: a written answer denotes the value it came from, completed.
* `Response.decoder_written`: a written answer is decoded as the answer.
-/

namespace SeriesQuery

open SeriesQuery.Json Decoder Fallible
open SeriesQuery.Time (Instant)

/-! ## Whole counts of milliseconds -/

namespace Time.Instant

@[simp] theorem millis_ofMillis (n : Int) : (ofMillis n).millis = n := by
  simp only [millis, ofMillis]
  omega

theorem inLeapSecond_ofMillis (n : Int) : (ofMillis n).inLeapSecond = false := by
  have hsmall : (n % 1000).toNat * 1000000 < 1000000000 := by omega
  exact decide_eq_false (not_le.2 hsmall)

/-- The milliseconds of an instant that is representable fit in 64 bits. -/
theorem int64_of_isRepresentable {n : Int} (h : (ofMillis n).isRepresentable = true) :
    -Int.pow 2 63 ≤ n ∧ n ≤ Int.pow 2 63 - 1 := by
  have hfirst : firstSecond = -8334601228800 := by decide +kernel
  have hlast : lastSecond = 8210266876799 := by decide +kernel
  have hpow : Int.pow 2 63 = 9223372036854775808 := by decide
  simp only [isRepresentable, ofMillis, hfirst, hlast, Bool.and_eq_true,
    decide_eq_true_eq] at h
  rw [hpow]
  omega

end Time.Instant

namespace Backend

variable {depth most : Nat} {t : Tree} {v : Value}

/-! ## Points -/

/-- A point as it comes out of an answer: at a whole count of milliseconds, with a value
as it is kept. -/
structure Point.Sound (depth : Nat) (p : Point) : Prop where
  whole : p.time = Instant.ofMillis p.time.millis
  representable : p.time.isRepresentable = true
  kept : p.value.Kept depth

/-- A point is decoded from the pair of its milliseconds and its value. -/
theorem Point.decoder_eq_ok {p : Point} :
    Point.decoder (depth + 1) t = .ok p ↔
      Decoder.value (depth + 1) t = .ok p.toJson ∧ p.Sound depth := by
  constructor
  · intro h
    unfold Point.decoder at h
    split at h
    · rename_i inner m w heq
      cases heq
      obtain ⟨n, hn, h⟩ := bind_eq_ok_iff.1 h
      obtain ⟨u, hu, h⟩ := bind_eq_ok_iff.1 h
      split at h
      · rename_i time htime
        cases h
        simp only [Instant.ofMillis?] at htime
        split at htime
        · rename_i hrepresentable
          cases htime
          refine ⟨value_eq_array.2 ⟨depth, [m, w], rfl, rfl, ?_⟩, ?_,
            hrepresentable, ?_⟩
          · rw [Instant.millis_ofMillis]
            exact .cons (int_eq_ok.1 hn).1 (.cons hu .nil)
          · rw [Instant.millis_ofMillis]
          · exact kept_of_value hu
        · cases htime
      · cases h
    · cases h
  · rintro ⟨h, hsound⟩
    obtain ⟨inner, ts, hdepth, rfl, hitems⟩ := value_eq_array.1 h
    cases hdepth
    cases hitems with | cons hm hitems =>
    cases hitems with | cons hw hitems =>
    cases hitems
    have hrepresentable := hsound.representable
    rw [hsound.whole] at hrepresentable
    have hmillis : int64 depth _ = .ok p.time.millis :=
      int_eq_ok.2 ⟨hm, Instant.int64_of_isRepresentable hrepresentable⟩
    have htime : Instant.ofMillis? p.time.millis = some p.time := by
      rw [Instant.ofMillis?, if_pos hrepresentable, ← hsound.whole]
    unfold Point.decoder
    refine bind_eq_ok_iff.2 ⟨_, hmillis, bind_eq_ok_iff.2 ⟨_, hw, ?_⟩⟩
    simp only [htime]
    rfl

/-- A point is decoded from nothing but a pair of milliseconds within range and a
value. -/
theorem Point.decoder_eq_ok_iff {p : Point} :
    Point.decoder depth t = .ok p ↔
      ∃ n v, Decoder.value depth t = .ok (.array [.int n, v]) ∧
        (-Int.pow 2 63 ≤ n ∧ n ≤ Int.pow 2 63 - 1) ∧
          (Instant.ofMillis n).isRepresentable = true ∧
        p = ⟨Instant.ofMillis n, v⟩ := by
  cases depth with
  | zero =>
      constructor
      · intro h
        simp [Point.decoder] at h
      · rintro ⟨n, v, h, -⟩
        obtain ⟨inner, -, hdepth, -⟩ := value_eq_array.1 h
        cases hdepth
  | succ depth =>
      rw [Point.decoder_eq_ok]
      constructor
      · rintro ⟨hvalue, hsound⟩
        have hrepresentable := hsound.representable
        rw [hsound.whole] at hrepresentable
        refine ⟨p.time.millis, p.value, hvalue,
          Instant.int64_of_isRepresentable hrepresentable, hrepresentable, ?_⟩
        rw [← hsound.whole]
      · rintro ⟨n, v, hvalue, -, hrepresentable, rfl⟩
        have hkept := kept_of_value hvalue v (by simp)
        refine ⟨?_, ⟨?_, hrepresentable, hkept⟩⟩
        · rw [Point.toJson, Instant.millis_ofMillis]
          exact hvalue
        · rw [Instant.millis_ofMillis]

private theorem Point.Sound.kept_toJson {p : Point} (h : p.Sound depth) :
    p.toJson.Kept (depth + 1) := by
  have hrepresentable := h.representable
  rw [h.whole] at hrepresentable
  intro v hv
  rcases List.mem_cons.1 hv with rfl | hv
  · exact Value.kept_int (Instant.int64_of_isRepresentable hrepresentable)
  · rw [List.mem_singleton.1 hv]
    exact h.kept

/-- A written point is decoded as the point. -/
theorem Point.decoder_written {p : Point} (h : p.Sound depth)
    (hback : p.toJson.ReadsBack) :
    Point.decoder (depth + 1) (Tree.ofValue p.toJson) = .ok p :=
  Point.decoder_eq_ok.2 ⟨value_ofValue h.kept_toJson hback, h⟩

private theorem Point.Sound.readsBack {p : Point} (h : p.Sound depth)
    (hfloats : p.toJson.FloatsReadBack) : p.toJson.ReadsBack :=
  h.kept_toJson.readsBack hfloats

private theorem Point.Sound.restrict {p : Point} (h : p.Sound most)
    (hfits : p.toJson.Fits (depth + 1)) : p.Sound depth :=
  ⟨h.whole, h.representable, h.kept.restrict (Value.fits_array.1 hfits _ (by simp))⟩

/-! ## Lists under a name -/

section Listed

variable {α : Type} {R : Value → α → Prop} {fs : Fields} {key : String}

/-- A list that a record has under a name next to the value under that name. -/
inductive Listed (R : Value → α → Prop) : Option Value → Option (List α) → Prop
  | none : Listed R none none
  | some {vs : List Value} {as : List α} : List.Forall₂ R vs as →
      Listed R (some (.array vs)) (some as)

/-- Fields with the items under a key changed; a missing list counts as empty. -/
def fillItems (key : String) (f : Value → Value) (fs : Fields) : Fields :=
  match (fs.get? key).getD (.array []) with
  | .array vs => fs.put key (.array (vs.map f))
  | _ => fs

/-- The fields of an object changed. -/
def onFields (f : Fields → Fields) : Value → Value
  | .object fs => .object (f fs)
  | v => v

private theorem Listed.left {S : α → Prop} {v? : Option Value} {as? : Option (List α)}
    (h : Listed (fun v a => R v a ∧ S a) v? as?) : Listed R v? as? := by
  cases h with
  | none => exact .none
  | some hall => exact .some (hall.imp fun _ _ h => h.1)

private theorem Listed.right {S : α → Prop} {v? : Option Value} {as? : Option (List α)}
    (h : Listed (fun v a => R v a ∧ S a) v? as?) : ∀ a ∈ as?.getD [], S a := by
  cases h with
  | none => simp
  | some hall =>
      rw [Option.getD_some]
      induction hall with
      | nil => simp
      | cons h _ ih => exact List.forall_mem_cons.2 ⟨h.2, ih⟩

private theorem Listed.fillItems {as? : Option (List α)}
    (h : Listed R (fs.get? key) as?) (f : Value → Value) :
    ∃ vs, List.Forall₂ R vs (as?.getD []) ∧
      fillItems key f fs = fs.put key (.array (vs.map f)) := by
  generalize hv : fs.get? key = v? at h
  cases h with
  | none => exact ⟨[], .nil, by simp only [Backend.fillItems, hv, Option.getD_none]⟩
  | some hall => exact ⟨_, hall, by simp only [Backend.fillItems, hv, Option.getD_some]⟩

end Listed

/-! ## Series -/

/-- A series as it comes out of an answer. -/
structure Series.Sound (depth : Nat) (s : Series) : Prop where
  points : ∀ p ∈ s.points, p.Sound depth
  other : s.other.Extra ["values"] (depth + 2)

private theorem Series.Sound.readsBack {s : Series} (h : s.Sound depth)
    (hfloats : s.toJson.FloatsReadBack) : s.toJson.ReadsBack := by
  obtain ⟨hpoints, hother⟩ :=
    List.forall_mem_cons.1 (Value.floatsReadBack_object.1 hfloats)
  refine Value.readsBack_object.2
    (List.forall_mem_cons.2 ⟨?_, h.other.readsBack hother⟩)
  refine Value.readsBack_array.2 (List.forall_mem_map.2 fun p hp => ?_)
  exact (h.points p hp).readsBack
    (Value.floatsReadBack_array.1 hpoints _ (List.mem_map_of_mem hp))

private theorem Series.Sound.restrict {s : Series} (h : s.Sound most)
    (hfits : s.toJson.Fits (depth + 3)) : s.Sound depth := by
  obtain ⟨hpoints, hother⟩ := List.forall_mem_cons.1 (Value.fits_object.1 hfits)
  exact ⟨fun p hp =>
    (h.points p hp).restrict (Value.fits_array.1 hpoints _ (List.mem_map_of_mem hp)),
    h.other.restrict hother⟩

/-- The value that a series comes from. -/
inductive Series.From : Value → Series → Prop
  | object {fs : Fields} {s : Series} {ps? : Option (List Point)} : fs.Ordered →
      fs.AgreeBeside ["values"] s.other →
      Listed (fun v p => v = p.toJson) (fs.get? "values") ps? →
      ps?.getD [] = s.points → From (.object fs) s

/-- The value of a series with no points where they are missing. -/
def Series.completed : Value → Value := onFields (fillItems "values" id)

/-- The members of a series read so far next to their values. -/
structure Series.Draft.Follows (depth : Nat) (fs : Fields) (d : Draft) : Prop where
  other : fs.AgreeBeside ["values"] d.other
  points : Listed (fun v p => v = p.toJson ∧ p.Sound depth) (fs.get? "values") d.points
  extra : d.other.Extra ["values"] (depth + 2)

private theorem Series.Draft.step_other {d : Draft} {k : String} (hk : k ∉ ["values"]) :
    step depth d k t =
      (value depth t).map fun v => { d with other := d.other.put k v } := by
  rw [step.eq_2 _ _ _ _ fun heq => hk (List.mem_singleton.2 heq)]
  rfl

private theorem Series.Draft.Follows.step {fs : Fields} {d d' : Draft} {k : String}
    (h : d.Follows depth fs) (hstep : Draft.step (depth + 2) d k t = .ok d') :
    ∃ v, value (depth + 2) t = .ok v ∧ d'.Follows depth (fs.put k v) := by
  unfold Draft.step at hstep
  split at hstep
  · obtain ⟨_, honce, hd'⟩ := bind_eq_ok_iff.1 hstep
    obtain ⟨-, ps, hps, rfl⟩ := once_eq_ok.1 honce
    cases hd'
    obtain ⟨vs, hvs, hall⟩ := list_values (R := fun v p => v = p.toJson ∧ p.Sound depth)
      (fun ha => ⟨_, (Point.decoder_eq_ok.1 ha).1, rfl, (Point.decoder_eq_ok.1 ha).2⟩)
      hps
    refine ⟨_, hvs, h.other.put_left (by simp), ?_, h.extra⟩
    rw [Fields.get?_put, if_pos rfl]
    exact .some hall
  · rename_i hother
    obtain ⟨v, hv, hd'⟩ := bind_eq_ok_iff.1 hstep
    cases hd'
    refine ⟨v, hv, h.other.put, ?_,
      h.extra.put (by simpa using hother) (kept_of_value hv)⟩
    rw [Fields.get?_put, if_neg hother]
    exact h.points

/-- A decoded series is sound and comes from the value of its text. -/
theorem Series.of_decoder {s : Series} (h : Series.decoder (depth + 3) t = .ok s) :
    ∃ v, Decoder.value (depth + 3) t = .ok v ∧ From v s ∧ s.Sound depth := by
  obtain ⟨inner, ms, d, hdepth, rfl, hms, hd⟩ := object_eq_ok.1 h
  cases hdepth
  cases hd
  obtain ⟨kvs, hkvs, hfollows⟩ :=
    members_fields (fun hstep hs => Draft.Follows.step hs hstep) hms
    (⟨fun _ _ => rfl, .none, .nil⟩ : Draft.Follows depth [] {})
  exact ⟨.object (Fields.ofMembers kvs), map_eq_ok_iff.2 ⟨kvs, hkvs, rfl⟩,
    .object (Fields.ordered_ofMembers kvs) hfollows.other hfollows.points.left rfl,
    hfollows.points.right, hfollows.extra⟩

/-- A written series is decoded as the series. -/
theorem Series.decoder_written {s : Series} (h : s.Sound depth)
    (hback : s.toJson.ReadsBack) :
    Series.decoder (depth + 3) (Tree.ofValue s.toJson) = .ok s := by
  obtain ⟨hpointsBack, hotherBack⟩ :=
    List.forall_mem_cons.1 (Value.readsBack_object.1 hback)
  have hpoints : Draft.step (depth + 2) {} "values"
      (Tree.ofValue (.array (s.points.map Point.toJson))) =
      .ok ⟨some s.points, []⟩ := by
    have hlist : list Point.decoder (depth + 2) _ = .ok s.points :=
      list_ofArray fun p hp => Point.decoder_written (h.points p hp)
        (Value.readsBack_array.1 hpointsBack _ (List.mem_map_of_mem hp))
    simp only [Draft.step, once, hlist]
    rfl
  have hother : members Draft.step (depth + 2) ⟨some s.points,
      []⟩ (Tree.ofMembers s.other) = .ok ⟨some s.points, s.other⟩ :=
    h.other.members (fun fs => (⟨some s.points, fs⟩ : Draft))
      (fun hk => Draft.step_other hk) hotherBack
  exact object_eq_ok.2 ⟨depth + 2, _, _, rfl, rfl,
    (members_ofMembers_cons hpoints).trans hother, rfl⟩

/-- A written series denotes the value it came from, completed. -/
theorem Series.value_written {s : Series} (hfrom : From v s) (h : s.Sound depth)
    (hback : s.toJson.ReadsBack) :
    Decoder.value (depth + 3) (Tree.ofValue s.toJson) = .ok (completed v) := by
  obtain ⟨hpointsBack, hotherBack⟩ :=
    List.forall_mem_cons.1 (Value.readsBack_object.1 hback)
  cases hfrom with
  | object hordered hagree hlisted hpoints =>
      obtain ⟨vs, hvs, hfill⟩ := hlisted.fillItems id
      rw [hpoints] at hvs
      have hvalue : Decoder.value (depth + 2)
          (Tree.ofValue (.array (s.points.map Point.toJson))) =
          .ok (.array (vs.map id)) := by
        refine value_ofItems hvs fun v p hp hv => ?_
        subst hv
        exact value_ofValue (h.points p hp).kept_toJson
          (Value.readsBack_array.1 hpointsBack _ (List.mem_map_of_mem hp))
      rw [completed, onFields, hfill]
      exact h.other.value_ofObject [("values", .array (s.points.map Point.toJson))]
        [("values", .array (vs.map id))] (.cons ⟨rfl, hvalue⟩ .nil) hagree
        hordered hotherBack

/-! ## Blocks -/

/-- A block as it comes out of an answer. -/
structure Block.Sound (depth : Nat) (b : Block) : Prop where
  size : b.sampleSize ≤ Nat.pow 2 64 - 1
  series : ∀ s ∈ b.series, s.Sound depth
  other : b.other.Extra ["sample_size", "results"] (depth + 4)

private theorem Block.Sound.readsBack {b : Block} (h : b.Sound depth)
    (hfloats : b.toJson.FloatsReadBack) : b.toJson.ReadsBack := by
  obtain ⟨-, hmembers⟩ := List.forall_mem_cons.1 (Value.floatsReadBack_object.1 hfloats)
  obtain ⟨hseries, hother⟩ := List.forall_mem_cons.1 hmembers
  refine Value.readsBack_object.2 (List.forall_mem_cons.2
    ⟨Value.readsBack_number.2 (readsBack_natural h.size),
      List.forall_mem_cons.2 ⟨?_, h.other.readsBack hother⟩⟩)
  refine Value.readsBack_array.2 (List.forall_mem_map.2 fun s hs => ?_)
  exact (h.series s hs).readsBack
    (Value.floatsReadBack_array.1 hseries _ (List.mem_map_of_mem hs))

private theorem Block.Sound.restrict {b : Block} (h : b.Sound most)
    (hfits : b.toJson.Fits (depth + 5)) : b.Sound depth := by
  obtain ⟨-, hmembers⟩ := List.forall_mem_cons.1 (Value.fits_object.1 hfits)
  obtain ⟨hseries, hother⟩ := List.forall_mem_cons.1 hmembers
  exact ⟨h.size,
    fun s hs =>
      (h.series s hs).restrict (Value.fits_array.1 hseries _ (List.mem_map_of_mem hs)),
    h.other.restrict hother⟩

/-- The value that a block comes from. -/
inductive Block.From : Value → Block → Prop
  | object {fs : Fields} {b : Block} {ss? : Option (List Series)} : fs.Ordered →
      fs.AgreeBeside ["sample_size", "results"] b.other →
      (fs.get? "sample_size").getD (.nat 0) = .nat b.sampleSize →
      Listed Series.From (fs.get? "results") ss? → ss?.getD [] = b.series →
      From (.object fs) b

/-- The value of a block with a size of zero and no series where they are missing. -/
def Block.completed : Value → Value :=
  onFields fun fs =>
    fillItems "results" Series.completed (fs.putNew "sample_size" (.nat 0))

/-- The members of a block read so far next to their values. -/
structure Block.Draft.Follows (depth : Nat) (fs : Fields) (d : Draft) : Prop where
  other : fs.AgreeBeside ["sample_size", "results"] d.other
  size : fs.get? "sample_size" = d.sampleSize.map Value.nat
  small : d.sampleSize.getD 0 ≤ Nat.pow 2 64 - 1
  series :
    Listed (fun v s => Series.From v s ∧ s.Sound depth) (fs.get? "results") d.series
  extra : d.other.Extra ["sample_size", "results"] (depth + 4)

private theorem Block.Draft.step_other {d : Draft} {k : String}
    (hk : k ∉ ["sample_size", "results"]) :
    step depth d k t =
      (value depth t).map fun v => { d with other := d.other.put k v } := by
  rw [step.eq_3 _ _ _ _ (fun heq => hk (by simp [heq])) fun heq => hk (by simp [heq])]
  rfl

private theorem Block.Draft.Follows.step {fs : Fields} {d d' : Draft} {k : String}
    (h : d.Follows depth fs) (hstep : Draft.step (depth + 4) d k t = .ok d') :
    ∃ v, value (depth + 4) t = .ok v ∧ d'.Follows depth (fs.put k v) := by
  unfold Draft.step at hstep
  split at hstep
  · obtain ⟨_, honce, hd'⟩ := bind_eq_ok_iff.1 hstep
    obtain ⟨-, n, hn, rfl⟩ := once_eq_ok.1 honce
    cases hd'
    refine ⟨.nat n, (nat_eq_ok.1 hn).1, h.other.put_left (by simp), ?_,
      (nat_eq_ok.1 hn).2, ?_, h.extra⟩
    · rw [Fields.get?_put, if_pos rfl]
      rfl
    · rw [Fields.get?_put, if_neg (by decide)]
      exact h.series
  · obtain ⟨_, honce, hd'⟩ := bind_eq_ok_iff.1 hstep
    obtain ⟨-, ss, hss, rfl⟩ := once_eq_ok.1 honce
    cases hd'
    obtain ⟨vs, hvs, hall⟩ := list_values (fun ha => Series.of_decoder ha) hss
    refine ⟨_, hvs, h.other.put_left (by simp), ?_, h.small, ?_, h.extra⟩
    · rw [Fields.get?_put, if_neg (by decide)]
      exact h.size
    · rw [Fields.get?_put, if_pos rfl]
      exact .some hall
  · rename_i hsize hseries
    obtain ⟨v, hv, hd'⟩ := bind_eq_ok_iff.1 hstep
    cases hd'
    refine ⟨v, hv, h.other.put, ?_, h.small, ?_,
      h.extra.put (by simpa using ⟨hsize, hseries⟩) (kept_of_value hv)⟩
    · rw [Fields.get?_put, if_neg hsize]
      exact h.size
    · rw [Fields.get?_put, if_neg hseries]
      exact h.series

/-- A decoded block is sound and comes from the value of its text. -/
theorem Block.of_decoder {b : Block} (h : Block.decoder (depth + 5) t = .ok b) :
    ∃ v, Decoder.value (depth + 5) t = .ok v ∧ From v b ∧ b.Sound depth := by
  obtain ⟨inner, ms, d, hdepth, rfl, hms, hd⟩ := object_eq_ok.1 h
  cases hdepth
  cases hd
  obtain ⟨kvs, hkvs, hfollows⟩ :=
    members_fields (fun hstep hs => Draft.Follows.step hs hstep) hms
    (⟨fun _ _ => rfl, rfl, Nat.zero_le _, .none, .nil⟩ : Draft.Follows depth [] {})
  have hsize := hfollows.size
  refine ⟨.object (Fields.ofMembers kvs), map_eq_ok_iff.2 ⟨kvs, hkvs, rfl⟩, ?_,
    hfollows.small, hfollows.series.right, hfollows.extra⟩
  refine .object (Fields.ordered_ofMembers kvs) hfollows.other ?_
    hfollows.series.left rfl
  unfold Fields.ofMembers
  rw [hsize]
  cases d.sampleSize <;> rfl

/-- A written block is decoded as the block. -/
theorem Block.decoder_written {b : Block} (h : b.Sound depth)
    (hback : b.toJson.ReadsBack) :
    Block.decoder (depth + 5) (Tree.ofValue b.toJson) = .ok b := by
  obtain ⟨hsizeBack, hmembers⟩ :=
    List.forall_mem_cons.1 (Value.readsBack_object.1 hback)
  obtain ⟨hseriesBack, hotherBack⟩ := List.forall_mem_cons.1 hmembers
  have hsize : Draft.step (depth + 4) {} "sample_size"
      (Tree.ofValue (.nat b.sampleSize)) = .ok ⟨some b.sampleSize, none, []⟩ := by
    have hnat : nat (Nat.pow 2 64 - 1) (depth + 4) (Tree.ofValue (.nat b.sampleSize)) =
        .ok b.sampleSize :=
      nat_eq_ok.2 ⟨value_ofValue (Value.kept_number.2 h.size) hsizeBack, h.size⟩
    simp only [Draft.step, once, hnat]
    rfl
  have hseries : Draft.step (depth + 4) ⟨some b.sampleSize, none, []⟩ "results"
      (Tree.ofValue (.array (b.series.map Series.toJson))) =
      .ok ⟨some b.sampleSize, some b.series, []⟩ := by
    have hlist : list Series.decoder (depth + 4) _ = .ok b.series :=
      list_ofArray fun s hs => Series.decoder_written (h.series s hs)
        (Value.readsBack_array.1 hseriesBack _ (List.mem_map_of_mem hs))
    simp only [Draft.step, once, hlist]
    rfl
  have hother : members Draft.step (depth + 4) ⟨some b.sampleSize, some b.series, []⟩
      (Tree.ofMembers b.other) = .ok ⟨some b.sampleSize, some b.series, b.other⟩ :=
    h.other.members (fun fs => (⟨some b.sampleSize, some b.series, fs⟩ : Draft))
      (fun hk => Draft.step_other hk) hotherBack
  exact object_eq_ok.2 ⟨depth + 4, _, _, rfl, rfl, (members_ofMembers_cons hsize).trans
    ((members_ofMembers_cons hseries).trans hother), rfl⟩

/-- A written block denotes the value it came from, completed. -/
theorem Block.value_written {b : Block} (hfrom : From v b) (h : b.Sound depth)
    (hback : b.toJson.ReadsBack) :
    Decoder.value (depth + 5) (Tree.ofValue b.toJson) = .ok (completed v) := by
  obtain ⟨hsizeBack, hmembers⟩ :=
    List.forall_mem_cons.1 (Value.readsBack_object.1 hback)
  obtain ⟨hseriesBack, hotherBack⟩ := List.forall_mem_cons.1 hmembers
  cases hfrom with
  | object hordered hagree hsize hlisted hseries =>
      rename_i fs ss?
      have hput := hordered.putNew_eq_put hsize
      have hresults : Listed Series.From
          ((fs.put "sample_size" (.nat b.sampleSize)).get? "results") ss? := by
        rw [Fields.get?_put, if_neg (by decide)]
        exact hlisted
      obtain ⟨vs, hvs, hfill⟩ := hresults.fillItems Series.completed
      rw [hseries] at hvs
      have hvalue : Decoder.value (depth + 4)
          (Tree.ofValue (.array (b.series.map Series.toJson))) =
          .ok (.array (vs.map Series.completed)) := by
        refine value_ofItems hvs fun v s hs hv => ?_
        exact Series.value_written hv (h.series s hs)
          (Value.readsBack_array.1 hseriesBack _ (List.mem_map_of_mem hs))
      rw [completed, onFields, hput, hfill]
      exact h.other.value_ofObject
        [("sample_size", .nat b.sampleSize),
          ("results", .array (b.series.map Series.toJson))]
        [("sample_size", .nat b.sampleSize),
          ("results", .array (vs.map Series.completed))]
        (.cons ⟨rfl, value_ofValue (Value.kept_number.2 h.size) hsizeBack⟩
          (.cons ⟨rfl, hvalue⟩ .nil))
        hagree hordered hotherBack

/-! ## Whole answers -/

/-- An answer as it comes out of a text. -/
structure Response.Sound (depth : Nat) (r : Response) : Prop where
  blocks : ∀ b ∈ r.blocks, b.Sound depth
  other : r.other.Extra ["queries"] (depth + 6)

theorem Response.Sound.readsBack {r : Response} (h : r.Sound depth)
    (hfloats : r.toJson.FloatsReadBack) : r.toJson.ReadsBack := by
  obtain ⟨hblocks, hother⟩ :=
    List.forall_mem_cons.1 (Value.floatsReadBack_object.1 hfloats)
  refine Value.readsBack_object.2
    (List.forall_mem_cons.2 ⟨?_, h.other.readsBack hother⟩)
  refine Value.readsBack_array.2 (List.forall_mem_map.2 fun b hb => ?_)
  exact (h.blocks b hb).readsBack
    (Value.floatsReadBack_array.1 hblocks _ (List.mem_map_of_mem hb))

theorem Response.Sound.restrict {r : Response} (h : r.Sound most)
    (hfits : r.toJson.Fits (depth + 7)) : r.Sound depth := by
  obtain ⟨hblocks, hother⟩ := List.forall_mem_cons.1 (Value.fits_object.1 hfits)
  exact ⟨fun b hb =>
    (h.blocks b hb).restrict (Value.fits_array.1 hblocks _ (List.mem_map_of_mem hb)),
    h.other.restrict hother⟩

/-- The value that an answer comes from. -/
inductive Response.From : Value → Response → Prop
  | object {fs : Fields} {r : Response} {bs? : Option (List Block)} : fs.Ordered →
      fs.AgreeBeside ["queries"] r.other → Listed Block.From (fs.get? "queries") bs? →
      bs?.getD [] = r.blocks → From (.object fs) r

/-- The value of an answer with no blocks where they are missing. -/
def Response.completed : Value → Value := onFields (fillItems "queries" Block.completed)

/-- The members of an answer read so far next to their values. -/
structure Response.Draft.Follows (depth : Nat) (fs : Fields) (d : Draft) : Prop where
  other : fs.AgreeBeside ["queries"] d.other
  blocks :
    Listed (fun v b => Block.From v b ∧ b.Sound depth) (fs.get? "queries") d.blocks
  extra : d.other.Extra ["queries"] (depth + 6)

private theorem Response.Draft.step_other {d : Draft} {k : String}
    (hk : k ∉ ["queries"]) :
    step depth d k t =
      (value depth t).map fun v => { d with other := d.other.put k v } := by
  rw [step.eq_2 _ _ _ _ fun heq => hk (List.mem_singleton.2 heq)]
  rfl

private theorem Response.Draft.Follows.step {fs : Fields} {d d' : Draft} {k : String}
    (h : d.Follows depth fs) (hstep : Draft.step (depth + 6) d k t = .ok d') :
    ∃ v, value (depth + 6) t = .ok v ∧ d'.Follows depth (fs.put k v) := by
  unfold Draft.step at hstep
  split at hstep
  · obtain ⟨_, honce, hd'⟩ := bind_eq_ok_iff.1 hstep
    obtain ⟨-, bs, hbs, rfl⟩ := once_eq_ok.1 honce
    cases hd'
    obtain ⟨vs, hvs, hall⟩ := list_values (fun ha => Block.of_decoder ha) hbs
    refine ⟨_, hvs, h.other.put_left (by simp), ?_, h.extra⟩
    rw [Fields.get?_put, if_pos rfl]
    exact .some hall
  · rename_i hother
    obtain ⟨v, hv, hd'⟩ := bind_eq_ok_iff.1 hstep
    cases hd'
    refine ⟨v, hv, h.other.put, ?_,
      h.extra.put (by simpa using hother) (kept_of_value hv)⟩
    rw [Fields.get?_put, if_neg hother]
    exact h.blocks

/-- A decoded answer is sound and comes from the value of its text. -/
theorem Response.of_decoder {r : Response}
    (h : Response.decoder (depth + 7) t = .ok r) :
    ∃ v, value (depth + 7) t = .ok v ∧ From v r ∧ r.Sound depth := by
  obtain ⟨inner, ms, d, hdepth, rfl, hms, hd⟩ := object_eq_ok.1 h
  cases hdepth
  cases hd
  obtain ⟨kvs, hkvs, hfollows⟩ :=
    members_fields (fun hstep hs => Draft.Follows.step hs hstep) hms
    (⟨fun _ _ => rfl, .none, .nil⟩ : Draft.Follows depth [] {})
  exact ⟨.object (Fields.ofMembers kvs), map_eq_ok_iff.2 ⟨kvs, hkvs, rfl⟩,
    .object (Fields.ordered_ofMembers kvs) hfollows.other hfollows.blocks.left rfl,
    hfollows.blocks.right, hfollows.extra⟩

/-- A written answer is decoded as the answer. -/
theorem Response.decoder_written {r : Response} (h : r.Sound depth)
    (hback : r.toJson.ReadsBack) :
    Response.decoder (depth + 7) (Tree.ofValue r.toJson) = .ok r := by
  obtain ⟨hblocksBack, hotherBack⟩ :=
    List.forall_mem_cons.1 (Value.readsBack_object.1 hback)
  have hblocks : Draft.step (depth + 6) {} "queries"
      (Tree.ofValue (.array (r.blocks.map Block.toJson))) =
      .ok ⟨some r.blocks, []⟩ := by
    have hlist : list Block.decoder (depth + 6) _ = .ok r.blocks :=
      list_ofArray fun b hb => Block.decoder_written (h.blocks b hb)
        (Value.readsBack_array.1 hblocksBack _ (List.mem_map_of_mem hb))
    simp only [Draft.step, once, hlist]
    rfl
  have hother : members Draft.step (depth + 6) ⟨some r.blocks,
      []⟩ (Tree.ofMembers r.other) = .ok ⟨some r.blocks, r.other⟩ :=
    h.other.members (fun fs => (⟨some r.blocks, fs⟩ : Draft))
      (fun hk => Draft.step_other hk) hotherBack
  exact object_eq_ok.2 ⟨depth + 6, _, _, rfl, rfl,
    (members_ofMembers_cons hblocks).trans hother, rfl⟩

/-- A written answer denotes the value it came from, completed. -/
theorem Response.value_written {r : Response} (hfrom : From v r) (h : r.Sound depth)
    (hback : r.toJson.ReadsBack) :
    value (depth + 7) (Tree.ofValue r.toJson) = .ok (completed v) := by
  obtain ⟨hblocksBack, hotherBack⟩ :=
    List.forall_mem_cons.1 (Value.readsBack_object.1 hback)
  cases hfrom with
  | object hordered hagree hlisted hblocks =>
      obtain ⟨vs, hvs, hfill⟩ := hlisted.fillItems Block.completed
      rw [hblocks] at hvs
      have hvalue : value (depth + 6)
          (Tree.ofValue (.array (r.blocks.map Block.toJson))) =
          .ok (.array (vs.map Block.completed)) := by
        refine value_ofItems hvs fun v b hb hv => ?_
        exact Block.value_written hv (h.blocks b hb)
          (Value.readsBack_array.1 hblocksBack _ (List.mem_map_of_mem hb))
      rw [completed, onFields, hfill]
      exact h.other.value_ofObject [("queries", .array (r.blocks.map Block.toJson))]
        [("queries", .array (vs.map Block.completed))] (.cons ⟨rfl, hvalue⟩ .nil)
        hagree hordered hotherBack

/-! ## Texts of answers -/

/-- An answer in a text is sound and comes from the value of the text. -/
theorem Response.of_decodeText {text : String} {r : Response}
    (h : decodeText Response.decoder text = .ok r) :
    ∃ v, decodeText Decoder.value text = .ok v ∧ From v r ∧ r.Sound 120 := by
  obtain ⟨hdecoded, hcomplete⟩ := decodeText_eq_ok.1 h
  obtain ⟨v, hv, hfrom⟩ :
      ∃ v, Decoder.value (120 + 7) _ = .ok v ∧ From v r ∧ r.Sound 120 :=
    of_decoder hdecoded
  exact ⟨v, decodeText_eq_ok.2 ⟨hv, hcomplete⟩, hfrom⟩

end Backend

end SeriesQuery
