import SeriesQuery.Backend.Request
import SeriesQuery.Proofs.Backend.Answers
import SeriesQuery.Proofs.Backend.Tags

/-!
# Requests come back

A written request is decoded as the request at whole milliseconds.  What that takes is
little: the tags of a metric have keys of their own, parameters of a grouping are kept
as they are, and both ends of the range have milliseconds within the range of instants.
Whatever is decoded has all of it.

The depth at all levels is how many containers may still be opened inside a parameter of
a grouping.

## Main results

* `Request.of_decodeText`: a decoded request is sound.
* `Request.decoder_written`: a sound request is decoded as it is on the wire.
-/

namespace SeriesQuery

namespace Backend

open SeriesQuery.Json Decoder Fallible
open SeriesQuery.Time (Instant)

variable {depth : Nat} {t : Tree}

/-! ## Aggregations -/

theorem Sampling.decoder_written (s : Sampling) :
    Sampling.decoder (depth + 1) (Tree.ofValue s.toJson) = .ok s := by
  obtain ⟨unit, count, hpos, hfits⟩ := s
  have hunit : Draft.step depth {} "unit" (Tree.ofValue (.text unit.text)) =
      .ok ⟨some unit, none⟩ := by
    cases unit <;> rfl
  have hrange : (Number.natural count).InRange := by
    have hpow : Nat.pow 2 32 ≤ Nat.pow 2 64 - 1 := by decide
    simp only [Number.InRange, maxSignificand]
    omega
  have hvalue : Draft.step depth ⟨some unit, none⟩ "value" (Tree.ofValue (.nat count)) =
      .ok ⟨some unit, some ⟨count, hpos, hfits⟩⟩ := by
    have hnat : nat (Nat.pow 2 32 - 1) depth (Tree.ofValue (.nat count)) = .ok count :=
      nat_eq_ok.2 ⟨value_ofValue (Value.kept_number.2 hrange)
        (Value.readsBack_number.2 (readsBack_natural hrange)),
        Nat.le_sub_one_of_lt hfits⟩
    have hcount : Count.ofNat? count = some ⟨count, hpos, hfits⟩ :=
      dif_pos ⟨hpos, hfits⟩
    simp only [Draft.step, once, Count.decoder, hnat]
    simp only [bind, Except.bind, hcount]
    rfl
  have hall : members Draft.step depth {} (Tree.ofMembers
      [("unit", .text unit.text), ("value", .nat count)]) =
      .ok ⟨some unit, some ⟨count, hpos, hfits⟩⟩ :=
    (members_ofMembers_cons hunit).trans (members_ofMembers_cons hvalue)
  exact record_ofObject hall

/-- A written aggregation is decoded as the aggregation. -/
theorem Aggregator.decoder_written {a : Aggregator}
    (hback : ∀ p ∈ a.percentile, (Number.float p).ReadsBack) :
    Aggregator.decoder (depth + 2) (Tree.ofValue a.toJson) = .ok a := by
  obtain ⟨name, align, sampling, percentile⟩ := a
  have hsampling : Draft.step (depth + 1) ⟨some name, some align, none, none⟩ "sampling"
      (Tree.ofValue sampling.toJson) =
      .ok ⟨some name, some align, some sampling, none⟩ := by
    simp only [Draft.step, once, Sampling.decoder_written]
    rfl
  have hstart : members Draft.step (depth + 1) {} (Tree.ofMembers
      [("name", .text name), ("align_sampling", .bool align),
        ("sampling", sampling.toJson)]) =
      .ok ⟨some name, some align, some sampling, none⟩ :=
    members_ofMembers_cons hsampling
  cases percentile with
  | none => exact record_ofObject hstart
  | some p =>
      have hpercentile : Draft.step (depth + 1)
          ⟨some name, some align, some sampling, none⟩ "percentile"
          (Tree.ofValue (.float p)) =
          .ok ⟨some name, some align, some sampling, some (some p)⟩ := by
        have hnumber : number (depth + 1) (Tree.ofValue (.float p)) =
            .ok (.float p) := by
          rw [number_eq_ok, value_eq_number]
          exact ⟨_, rfl, (hback p rfl).ofSpelling?⟩
        have hfloat : float? (depth + 1) (Tree.ofValue (.float p)) = .ok (some p) := by
          show (float (depth + 1) (Tree.ofValue (.float p))).map some = _
          simp only [float, hnumber]
          rfl
        simp only [Draft.step, once, hfloat]
        rfl
      have hall : members Draft.step (depth + 1) {} (Tree.ofMembers
          ([("name", .text name), ("align_sampling", .bool align),
            ("sampling", sampling.toJson)] ++ [("percentile", .float p)])) =
          .ok ⟨some name, some align, some sampling, some (some p)⟩ :=
        (members_ofMembers_append hstart).trans (members_ofMembers_cons hpercentile)
      exact record_ofObject hall

/-! ## Groupings -/

/-- A grouping as it comes out of a request. -/
def Grouping.Sound (depth : Nat) (g : Grouping) : Prop :=
  g.parameters.Extra ["name"] depth

theorem Grouping.sound_byTags (tags : List String) :
    (byTags tags).Sound (depth + 1) where
  ordered := List.pairwise_singleton _ _
  fresh := by simp [byTags]
  kept := by
    refine List.forall_mem_singleton.2 (List.forall_mem_map.2 fun _ _ => ?_)
    exact Value.kept_text

private theorem Grouping.Draft.step_other {d : Draft} {k : String} (hk : k ∉ ["name"]) :
    step depth d k t = (value depth t).map fun v =>
      { d with parameters := d.parameters.put k v } := by
  rw [step.eq_2 _ _ _ _ fun heq => hk (List.mem_singleton.2 heq)]
  rfl

private theorem Grouping.sound_of_decoder {g : Grouping}
    (h : Grouping.decoder (depth + 1) t = .ok g) : g.Sound depth := by
  obtain ⟨inner, ms, d, hdepth, -, hms, hd⟩ := object_eq_ok.1 h
  cases hdepth
  obtain ⟨name, -, hd⟩ := bind_eq_ok_iff.1 hd
  cases hd
  refine members_preserves (P := fun d : Draft => d.parameters.Extra ["name"] depth)
    (fun hstep hs => ?_) hms .nil
  unfold Draft.step at hstep
  split at hstep
  · obtain ⟨_, -, hd'⟩ := bind_eq_ok_iff.1 hstep
    cases hd'
    exact hs
  · rename_i hother
    obtain ⟨v, hv, hd'⟩ := bind_eq_ok_iff.1 hstep
    cases hd'
    exact hs.put (by simpa using hother) (kept_of_value hv)

/-- A written grouping is decoded as the grouping. -/
theorem Grouping.decoder_written {g : Grouping} (h : g.Sound depth)
    (hback : ∀ m ∈ g.parameters, m.2.ReadsBack) :
    Grouping.decoder (depth + 1) (Tree.ofValue g.toJson) = .ok g := by
  have hname : Draft.step depth {} "name" (Tree.ofValue (.text g.name)) =
      .ok ⟨some g.name, []⟩ := rfl
  have hparameters : members Draft.step depth ⟨some g.name,
      []⟩ (Tree.ofMembers g.parameters) = .ok ⟨some g.name, g.parameters⟩ :=
    Fields.Extra.members h (fun fs => (⟨some g.name, fs⟩ : Draft))
      (fun hk => Draft.step_other hk) hback
  exact object_eq_ok.2 ⟨depth, _, _, rfl, rfl,
    (members_ofMembers_cons hname).trans hparameters, rfl⟩

/-! ## Metrics -/

/-- A metric as it comes out of a request. -/
structure Metric.Sound (depth : Nat) (m : Metric) : Prop where
  tags : m.tags.Distinct
  groupings : ∀ g ∈ m.groupings, g.Sound depth

/-- The members of a metric read so far. -/
structure Metric.Draft.Sound (depth : Nat) (d : Draft) : Prop where
  tags : ∀ t ∈ d.tags, t.Distinct
  groupings : ∀ gs ∈ d.groupings, ∀ g ∈ gs, g.Sound depth

private theorem Metric.Draft.Sound.step {d d' : Draft} {k : String} (h : d.Sound depth)
    (hstep : Draft.step (depth + 2) d k t = .ok d') : d'.Sound depth := by
  unfold Draft.step at hstep
  split at hstep
  · obtain ⟨_, -, hd'⟩ := bind_eq_ok_iff.1 hstep
    cases hd'
    exact ⟨h.tags, h.groupings⟩
  · obtain ⟨_, honce, hd'⟩ := bind_eq_ok_iff.1 hstep
    obtain ⟨-, tags, htags, rfl⟩ := once_eq_ok.1 honce
    cases hd'
    refine ⟨?_, h.groupings⟩
    rintro _ ⟨⟩
    exact Tags.distinct_of_decoder htags
  · obtain ⟨_, -, hd'⟩ := bind_eq_ok_iff.1 hstep
    cases hd'
    exact ⟨h.tags, h.groupings⟩
  · obtain ⟨_, honce, hd'⟩ := bind_eq_ok_iff.1 hstep
    obtain ⟨-, gs, hgs, rfl⟩ := once_eq_ok.1 honce
    cases hd'
    refine ⟨h.tags, ?_⟩
    rintro _ ⟨⟩
    exact list_preserves (fun hg => Grouping.sound_of_decoder hg) hgs
  · obtain ⟨_, -, hd'⟩ := bind_eq_ok_iff.1 hstep
    cases hd'
    exact h

private theorem Metric.sound_of_decoder {m : Metric}
    (h : Metric.decoder (depth + 3) t = .ok m) : m.Sound depth := by
  obtain ⟨d, hd, h⟩ :=
    record_preserves (P := Draft.Sound depth) (fun hinner hstep hs => by
    cases hinner
    exact hs.step hstep) ⟨by simp, by simp⟩ h
  obtain ⟨name, -, h⟩ := bind_eq_ok_iff.1 h
  cases h
  refine ⟨?_, ?_⟩
  · cases htags : d.tags with
    | none => exact Tags.distinct_empty
    | some tags => exact hd.tags tags htags
  · cases hgroupings : d.groupings with
    | none => simp
    | some gs => exact hd.groupings gs hgroupings

/-- The floating-point numbers and the parameters of a metric read back. -/
structure Metric.PartsReadBack (m : Metric) : Prop where
  percentiles : ∀ a ∈ m.aggregators, ∀ p ∈ a.percentile, (Number.float p).ReadsBack
  parameters : ∀ g ∈ m.groupings, ∀ f ∈ g.parameters, f.2.ReadsBack

/-- A written metric is decoded as the metric: parts that were left out come back
empty. -/
theorem Metric.decoder_written {m : Metric} (h : m.Sound (depth + 1))
    (hback : m.PartsReadBack) :
    Metric.decoder (depth + 4) (Tree.ofValue m.toJson) = .ok m := by
  obtain ⟨name, tags, aggregators, groupings⟩ := m
  let tags? := if tags.isEmpty then none else some tags
  let aggregators? := if aggregators.isEmpty then none else some aggregators
  let groupings? := if groupings.isEmpty then none else some groupings
  have hname : members Draft.step (depth + 3) {}
      (Tree.ofMembers [("name", .text name)]) = .ok ⟨some name, none, none, none⟩ := rfl
  have htags : members Draft.step (depth + 3) ⟨some name, none, none, none⟩
      (Tree.ofMembers (if tags.isEmpty then [] else [("tags", tags.toJson)])) =
      .ok ⟨some name, tags?, none, none⟩ :=
    members_ofMembers_unless (fun hleft => by simp [tags?, hleft]) fun hleft => by
      simp only [Draft.step, once, Tags.decoder_written h.tags, tags?, hleft]
      rfl
  have haggregators : members Draft.step (depth + 3) ⟨some name, tags?, none, none⟩
      (Tree.ofMembers (if aggregators.isEmpty then []
        else [("aggregators", .array (aggregators.map Aggregator.toJson))])) =
      .ok ⟨some name, tags?, aggregators?, none⟩ :=
    members_ofMembers_unless (fun hleft => by simp [aggregators?, hleft])
      fun hleft => by
      have hlist : list Aggregator.decoder (depth + 3) _ = .ok aggregators :=
        list_ofArray fun a ha => Aggregator.decoder_written (hback.percentiles a ha)
      simp only [Draft.step, once, hlist, aggregators?, hleft]
      rfl
  have hgroupings : members Draft.step (depth + 3)
      ⟨some name, tags?, aggregators?, none⟩
      (Tree.ofMembers (if groupings.isEmpty then []
        else [("group_by", .array (groupings.map Grouping.toJson))])) =
      .ok ⟨some name, tags?, aggregators?, groupings?⟩ :=
    members_ofMembers_unless (fun hleft => by simp [groupings?, hleft]) fun hleft => by
      have hlist : list Grouping.decoder (depth + 3) _ = .ok groupings :=
        list_ofArray fun g hg =>
          Grouping.decoder_written (h.groupings g hg) (hback.parameters g hg)
      simp only [Draft.step, once, hlist, groupings?, hleft]
      rfl
  have hall := (members_ofMembers_append ((members_ofMembers_append
    ((members_ofMembers_append hname).trans htags)).trans haggregators)).trans
    hgroupings
  refine (record_ofObject hall).trans ?_
  have htagsBack : tags?.getD {} = tags := by
    obtain ⟨entries⟩ := tags
    cases entries <;> rfl
  have haggregatorsBack : aggregators?.getD [] = aggregators := by
    cases aggregators <;> rfl
  have hgroupingsBack : groupings?.getD [] = groupings := by cases groupings <;> rfl
  simp only [htagsBack, haggregatorsBack, hgroupingsBack]
  rfl

/-! ## Whole requests -/

/-- The request as it is on the wire: its range at whole milliseconds. -/
def Request.onWire (r : Request) : Request :=
  ⟨Instant.ofMillis r.start.millis, Instant.ofMillis r.stop.millis, r.metrics⟩

/-- A request and what is on the wire are written alike. -/
@[simp] theorem Request.toJson_onWire (r : Request) : r.onWire.toJson = r.toJson := by
  simp [onWire, toJson]

/-- A request that comes back from its text. -/
structure Request.Sound (depth : Nat) (r : Request) : Prop where
  start : (Instant.ofMillis r.start.millis).isRepresentable = true
  stop : (Instant.ofMillis r.stop.millis).isRepresentable = true
  metrics : ∀ m ∈ r.metrics, m.Sound depth

/-- The members of a request read so far. -/
structure Request.Draft.Sound (depth : Nat) (d : Draft) : Prop where
  start : ∀ t ∈ d.start, (Instant.ofMillis t.millis).isRepresentable = true
  stop : ∀ t ∈ d.stop, (Instant.ofMillis t.millis).isRepresentable = true
  metrics : ∀ ms ∈ d.metrics, ∀ m ∈ ms, m.Sound depth

private theorem isRepresentable_of_millisDecoder {u : Instant}
    (h : millisDecoder depth t = .ok u) :
    (Instant.ofMillis u.millis).isRepresentable = true := by
  obtain ⟨n, -, h⟩ := bind_eq_ok_iff.1 h
  unfold Instant.ofMillis? at h
  split at h
  · rename_i hrepresentable
    cases h
    rwa [Instant.millis_ofMillis]
  · cases h

private theorem Request.Draft.Sound.step {d d' : Draft} {k : String} (h : d.Sound depth)
    (hstep : Draft.step (depth + 4) d k t = .ok d') : d'.Sound depth := by
  unfold Draft.step at hstep
  split at hstep
  · obtain ⟨_, honce, hd'⟩ := bind_eq_ok_iff.1 hstep
    obtain ⟨-, u, hu, rfl⟩ := once_eq_ok.1 honce
    cases hd'
    refine ⟨?_, h.stop, h.metrics⟩
    rintro _ ⟨⟩
    exact isRepresentable_of_millisDecoder hu
  · obtain ⟨_, honce, hd'⟩ := bind_eq_ok_iff.1 hstep
    obtain ⟨-, u, hu, rfl⟩ := once_eq_ok.1 honce
    cases hd'
    refine ⟨h.start, ?_, h.metrics⟩
    rintro _ ⟨⟩
    exact isRepresentable_of_millisDecoder hu
  · obtain ⟨_, honce, hd'⟩ := bind_eq_ok_iff.1 hstep
    obtain ⟨-, ms, hms, rfl⟩ := once_eq_ok.1 honce
    cases hd'
    refine ⟨h.start, h.stop, ?_⟩
    rintro _ ⟨⟩
    exact list_preserves (fun hm => Metric.sound_of_decoder hm) hms
  · obtain ⟨_, -, hd'⟩ := bind_eq_ok_iff.1 hstep
    cases hd'
    exact h

private theorem Request.sound_of_decoder {r : Request}
    (h : Request.decoder (depth + 5) t = .ok r) : r.Sound depth := by
  obtain ⟨d, hd, h⟩ :=
    record_preserves (P := Draft.Sound depth) (fun hinner hstep hs => by
    cases hinner
    exact hs.step hstep) ⟨by simp, by simp, by simp⟩ h
  have hrequired : ∀ {α : Type} {a? : Option α} {a : α}, required a? = .ok a →
      a? = some a := by
    intro α a? a h
    cases a? <;> cases h
    rfl
  obtain ⟨start, hstart, h⟩ := bind_eq_ok_iff.1 h
  obtain ⟨stop, hstop, h⟩ := bind_eq_ok_iff.1 h
  obtain ⟨metrics, hmetrics, h⟩ := bind_eq_ok_iff.1 h
  cases h
  exact ⟨hd.start start (hrequired hstart), hd.stop stop (hrequired hstop),
    hd.metrics metrics (hrequired hmetrics)⟩

/-- A request in a text is sound. -/
theorem Request.of_decodeText {text : String} {r : Request}
    (h : decodeText Request.decoder text = .ok r) : r.Sound 122 :=
  sound_of_decoder (decodeText_eq_ok.1 h).1

/-- A sound request is decoded as it is on the wire. -/
theorem Request.decoder_written {r : Request} (h : r.Sound (depth + 1))
    (hback : ∀ m ∈ r.metrics, m.PartsReadBack) :
    Request.decoder (depth + 6) (Tree.ofValue r.toJson) = .ok r.onWire := by
  have hmillis : ∀ {n : Int}, (Instant.ofMillis n).isRepresentable = true →
      millisDecoder (depth + 5) (Tree.ofValue (.int n)) = .ok (Instant.ofMillis n) := by
    intro n hn
    have hbounds := Instant.int64_of_isRepresentable hn
    have hint : int64 (depth + 5) (Tree.ofValue (.int n)) = .ok n :=
      int_eq_ok.2 ⟨value_ofValue (Value.kept_int hbounds) (Value.readsBack_int hbounds),
        hbounds⟩
    refine bind_eq_ok_iff.2 ⟨n, hint, ?_⟩
    rw [Instant.ofMillis?, if_pos hn]
    rfl
  have hstart : Draft.step (depth + 5) {} "start_absolute"
      (Tree.ofValue (.int r.start.millis)) = .ok ⟨some r.onWire.start, none, none⟩ := by
    simp only [Draft.step, once, hmillis h.start]
    rfl
  have hstop : Draft.step (depth + 5) ⟨some r.onWire.start, none, none⟩ "end_absolute"
      (Tree.ofValue (.int r.stop.millis)) =
      .ok ⟨some r.onWire.start, some r.onWire.stop, none⟩ := by
    simp only [Draft.step, once, hmillis h.stop]
    rfl
  have hmetrics : Draft.step (depth + 5)
      ⟨some r.onWire.start, some r.onWire.stop, none⟩ "metrics"
      (Tree.ofValue (.array (r.metrics.map Metric.toJson))) =
      .ok ⟨some r.onWire.start, some r.onWire.stop, some r.metrics⟩ := by
    have hlist : list Metric.decoder (depth + 5) _ = .ok r.metrics :=
      list_ofArray fun m hm => Metric.decoder_written (h.metrics m hm) (hback m hm)
    simp only [Draft.step, once, hlist]
    rfl
  have hall : members Draft.step (depth + 5) {} (Tree.ofMembers
      [("start_absolute", .int r.start.millis), ("end_absolute", .int r.stop.millis),
        ("metrics", .array (r.metrics.map Metric.toJson))]) =
      .ok ⟨some r.onWire.start, some r.onWire.stop, some r.metrics⟩ :=
    (members_ofMembers_cons hstart).trans
      ((members_ofMembers_cons hstop).trans (members_ofMembers_cons hmetrics))
  exact record_ofObject hall

/-! ## Numbers in requests -/

/-- Where the floating-point numbers of a written metric read back, so do its parts. -/
theorem Metric.Sound.partsReadBack {m : Metric} (h : m.Sound depth)
    (hfloats : m.toJson.FloatsReadBack) : m.PartsReadBack := by
  have hmembers := Value.floatsReadBack_object.1 hfloats
  refine ⟨fun a ha p hp => ?_, fun g hg => ?_⟩
  · have hne : m.aggregators ≠ [] := List.ne_nil_of_mem ha
    have hlist := hmembers ("aggregators", .array (m.aggregators.map Aggregator.toJson))
      (by simp [hne])
    have hone := Value.floatsReadBack_array.1 hlist _ (List.mem_map_of_mem ha)
    have hpercentile := Value.floatsReadBack_object.1 hone ("percentile", .float p)
      (by simp [Option.mem_def.1 hp])
    exact hpercentile p (by simp [Value.float, Value.numbers])
  · have hne : m.groupings ≠ [] := List.ne_nil_of_mem hg
    have hlist :=
      hmembers ("group_by", .array (m.groupings.map Grouping.toJson)) (by simp [hne])
    have hone := Value.floatsReadBack_array.1 hlist _ (List.mem_map_of_mem hg)
    exact Fields.Extra.readsBack (h.groupings g hg)
      (List.forall_mem_cons.1 (Value.floatsReadBack_object.1 hone)).2

private theorem Metric.PartsReadBack.readsBack {m : Metric} (h : m.PartsReadBack) :
    m.toJson.ReadsBack := by
  have htext : ∀ s, (Value.text s).ReadsBack :=
    fun s => by simp [Value.ReadsBack, Value.numbers]
  have hbool : ∀ b, (Value.bool b).ReadsBack :=
    fun b => by simp [Value.ReadsBack, Value.numbers]
  have hcount : ∀ c : Count, (Value.nat c.val).ReadsBack := fun c =>
    Value.readsBack_number.2 (readsBack_natural (by
      have hpow : Nat.pow 2 32 ≤ Nat.pow 2 64 - 1 := by decide
      have hlt := c.property.2
      simp only [maxSignificand]
      omega))
  have haggregator : ∀ a ∈ m.aggregators, a.toJson.ReadsBack := by
    intro a ha
    have hpercentile : ∀ p ∈ a.percentile, (Value.float p).ReadsBack :=
      fun p hp => Value.readsBack_number.2 (h.percentiles a ha p hp)
    refine Value.readsBack_object.2 (List.forall_mem_append.2 ⟨?_, ?_⟩)
    · simp [htext, hbool, Sampling.toJson, hcount]
    · cases hp : a.percentile with
      | none => simp
      | some p => simpa using hpercentile p hp
  have hgrouping : ∀ g ∈ m.groupings, g.toJson.ReadsBack := fun g hg =>
    Value.readsBack_object.2 (List.forall_mem_cons.2 ⟨htext _, h.parameters g hg⟩)
  have htags : m.tags.toJson.ReadsBack :=
    Value.readsBack_object.2 (List.forall_mem_map.2 fun _ _ =>
      Value.readsBack_array.2 (List.forall_mem_map.2 fun v _ => htext v))
  have hunless : ∀ {c : Bool} {k : String} {v : Value}, v.ReadsBack →
      ∀ f ∈ (if c then [] else [(k, v)] : Fields), f.2.ReadsBack := by
    intro c k v hv
    cases c
    · simpa using hv
    · simp
  refine Value.readsBack_object.2 ?_
  simp only [List.forall_mem_append]
  refine ⟨⟨⟨by simp [htext], hunless htags⟩, hunless ?_⟩, hunless ?_⟩
  · exact Value.readsBack_array.2 (List.forall_mem_map.2 haggregator)
  · exact Value.readsBack_array.2 (List.forall_mem_map.2 hgrouping)

private theorem Request.Sound.partsReadBack {r : Request} (h : r.Sound depth)
    (hfloats : r.toJson.FloatsReadBack) : ∀ m ∈ r.metrics, m.PartsReadBack := by
  intro m hm
  have hlist :=
    Value.floatsReadBack_object.1 hfloats ("metrics",
      .array (r.metrics.map Metric.toJson))
    (by simp)
  exact (h.metrics m hm).partsReadBack
    (Value.floatsReadBack_array.1 hlist _ (List.mem_map_of_mem hm))

/-- All numbers in a sound request read back if its floating-point numbers do. -/
theorem Request.Sound.readsBack {r : Request} (h : r.Sound depth)
    (hfloats : r.toJson.FloatsReadBack) : r.toJson.ReadsBack := by
  refine Value.readsBack_object.2
    (List.forall_mem_cons.2 ⟨?_, List.forall_mem_cons.2 ⟨?_, ?_⟩⟩)
  · exact Value.readsBack_int (Instant.int64_of_isRepresentable h.start)
  · exact Value.readsBack_int (Instant.int64_of_isRepresentable h.stop)
  · refine List.forall_mem_singleton.2
      (Value.readsBack_array.2 (List.forall_mem_map.2 fun m hm => ?_))
    exact (h.partsReadBack hfloats m hm).readsBack

/-- The text of a sound request is decoded as the request on the wire. -/
theorem Request.Sound.decodeText_compact {r : Request} (h : r.Sound 122)
    (hfloats : r.toJson.FloatsReadBack) :
    decodeText Request.decoder r.toJson.compact = .ok r.onWire := by
  have hdecoded : Request.decoder maxDepth _ = .ok r.onWire :=
    decoder_written h (h.partsReadBack hfloats)
  rw [Json.decodeText_compact _ (h.readsBack hfloats), hdecoded]

end Backend

end SeriesQuery
