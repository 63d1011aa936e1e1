import SeriesQuery.Proofs.Backend.Tags
import SeriesQuery.Proofs.Plan.Ranges
import SeriesQuery.Proofs.Statement.Parsing

/-!
# Filters of requests

The filters of a select stage are calls, each of which gives the values of one tag, and
the metric of its request has the tags that these calls build: a tag that is filtered
twice has the values of both filters.  Functions of the backend that are put over the
request later leave the tags as they are.

## Main results

* `Written.filtered`: a request that comes from a select has the tags of its filters.
* `Statement.filters_collected`: calls, texts and select stages build tags in the same
  way.
-/

namespace SeriesQuery

open SeriesQuery.Backend SeriesQuery.Json Fallible
open SeriesQuery.Time (Instant)

/-- The calls that the filters of a select stage are, in the order written. -/
def Select.calls (x : Select) : List Tags.Call :=
  Tags.extendAll (x.filters.map fun f => (f.key, f.values))

/-- A request asks for one metric, with the tags that the filters of a select stage
build. -/
def Select.Filters (x : Select) (r : Request) : Prop :=
  ∃ m, r.metrics = [m] ∧ m.name = x.metric ∧ m.tags = Tags.built x.calls

namespace Binding

open Stages

variable {combiners : Combiners} {now : Instant} {b : Binding} {ss : List Stage}
  {k o : Nat} {x : Select} {r r₀ : Request}

private theorem filters_requestOf (x : Select) (range : Range) :
    x.Filters (requestOf x range) :=
  ⟨metricOf x, rfl, rfl, (Tags.built_extendAll _).symm⟩

/-- Functions of the backend leave the filters as they are. -/
theorem Adds.filters (h : Adds r₀ r) (hx : x.Filters r₀) : x.Filters r := by
  obtain ⟨m₀, hm₀, hname₀, htags₀⟩ := hx
  have hkept : r.metrics.map (fun m => (m.name, m.tags)) = [(m₀.name, m₀.tags)] := by
    have hsame : ∀ (r : Request) (a : Aggregator),
        (aggregated r a).metrics.map (fun m => (m.name, m.tags)) =
          r.metrics.map fun m => (m.name, m.tags) := by
      intro r a
      rw [aggregated, List.map_map]
      rfl
    rw [h.eq_of (f := fun r => r.metrics.map fun m => (m.name, m.tags)) hsame, hm₀]
    rfl
  obtain ⟨m, hm, heq⟩ := List.map_eq_singleton_iff.1 hkept
  obtain ⟨hname, htags⟩ := Prod.mk.inj heq
  exact ⟨m, hm, hname.trans hname₀, htags.trans htags₀⟩

/-- A request that comes from a select has the tags of its filters. -/
theorem Written.filtered (h : Written now ss o r) :
    ∃ x, selectAt? ss o = some x ∧ x.Filters r := by
  obtain ⟨x, range, hx, -, hadds⟩ := h
  exact ⟨x, hx, hadds.filters (filters_requestOf x range)⟩

private theorem comesFrom_of_selectAt? (h : selectAt? ss k = some x) :
    ComesFrom ss k k ∧ k < ss.length := by
  unfold selectAt? at h
  split at h
  · rename_i y hbody
    obtain ⟨s, hs, hselect⟩ := Option.map_eq_some_iff.1 hbody
    exact ⟨.select hs hselect, (List.getElem?_eq_some_iff.1 hs).1⟩
  · cases h

/-- A select stage that is bound stands for a request with the tags of its filters,
whatever aggregators there are. -/
theorem filters_of_bindStage {α : Type} [Settles α] {combiners : Combiners α}
    {b' : Binding} {st : Stage} (hbody : st.body = .select x)
    (h : bindStage combiners now b st = .ok b') :
    ∃ i r, b'.previous = some i ∧ b'.work? i = some (.ask r) ∧ x.Filters r := by
  unfold bindStage bindBody at h
  rw [hbody] at h
  split at h
  · cases h
  · obtain ⟨c, hselect, hstand⟩ := bind_eq_ok_iff.1 h
    obtain ⟨range, -, hadd⟩ := bind_eq_ok_iff.1 hselect
    have hgrow := stand_add { b with range := range } st (.ask (requestOf x range)) []
    rw [Except.ok.inj hadd] at hgrow
    rw [← Except.ok.inj hstand, hgrow]
    exact ⟨b.nodes.length, requestOf x range, rfl, work?_grow_last,
      filters_requestOf x range⟩

/-- Every select stage that has been bound stands for a request with the tags of its
filters. -/
theorem filters_of_bindStages (h : bindStages combiners now ss = .ok b)
    (hx : selectAt? ss k = some x) :
    ∃ i r, standsAt? combiners now ss k = some i ∧ b.work? i = some (.ask r) ∧
      x.Filters r := by
  obtain ⟨hfrom, hk⟩ := comesFrom_of_selectAt? hx
  rw [← ss.take_length] at h
  obtain ⟨i, r, hi, hr, hwritten⟩ := written_of_comesFrom (Nat.le_refl _) hk h hfrom
  obtain ⟨y, hy, hfilters⟩ := hwritten.filtered
  rw [hx, Option.some.injEq] at hy
  exact ⟨i, r, hi, hr, hy ▸ hfilters⟩

/-- Every request of a plan has the tags of the filters of the select that it comes
from. -/
theorem filters_of_plan {s : Statement} {p : Plan} {n : Node}
    (h : s.plan combiners now = .ok p) (hn : p.terminal.Reaches n)
    (hr : n.work = .ask r) :
    ∃ k o x, standsAt? combiners now s.stages k = some n.id ∧ ComesFrom s.stages k o ∧
      selectAt? s.stages o = some x ∧ x.Filters r := by
  obtain ⟨k, o, hstands, hfrom, hwritten⟩ := written_of_plan h hn hr
  obtain ⟨x, hx, hfilters⟩ := hwritten.filtered
  exact ⟨k, o, x, hstands, hfrom, hx, hfilters⟩

end Binding

open Binding Stages

/-- **Filters collect.**  Calls on the empty map collect what they give; a text of JSON
is decoded just if it is an object of lists, by one call for each member, and what calls
have built comes back from its own text.  The filters of a statement that is parsed
stand in its text in their order, and a select stage asks for the tags that its filters
build, whatever aggregators there are when it is bound, and until the plan is made. -/
theorem Statement.filters_collected :
    (∀ calls, Tags.Collects calls (Tags.built calls)) ∧
      (∀ text tags, decodeText Tags.decoder text = .ok tags ↔
        (Document.read text.toList).complete = true ∧ ∃ ms,
          (Document.read text.toList).value = Tags.tree ms ∧
            tags = Tags.built (Tags.extendAll ms)) ∧
      (∀ calls, decodeText Tags.decoder (Tags.built calls).toJson.compact =
        .ok (Tags.built calls)) ∧
      (∀ text s, Statement.parse text = .ok s → Rendering.Renders s text) ∧
      (∀ (α : Type) [Settles α] (combiners : Combiners α) now b b' st x,
        st.body = .select x → bindStage combiners now b st = .ok b' →
        ∃ i r, b'.previous = some i ∧ b'.work? i = some (.ask r) ∧ x.Filters r) ∧
      (∀ (combiners : Combiners) now ss b, bindStages combiners now ss = .ok b →
        ∀ k x, selectAt? ss k = some x → ∃ i r, standsAt? combiners now ss k = some i ∧
          b.work? i = some (.ask r) ∧ x.Filters r) ∧
      ∀ (combiners : Combiners) now s p, Statement.plan combiners now s = .ok p →
        ∀ n r, p.terminal.Reaches n → n.work = .ask r → ∃ k o x,
          standsAt? combiners now s.stages k = some n.id ∧ ComesFrom s.stages k o ∧
            selectAt? s.stages o = some x ∧ x.Filters r := by
  refine ⟨Tags.collects_built, fun text tags => Tags.decodeText_eq_ok, fun calls => ?_,
    fun text s h => (Rendering.parse_sound h).2.1, ?_, ?_, ?_⟩
  · exact Tags.decodeText_written (Tags.collects_built calls).distinct
  · exact fun α _ combiners now b b' st x hbody h => filters_of_bindStage hbody h
  · exact fun combiners now ss b h k x hx => filters_of_bindStages h hx
  · exact fun combiners now s p h n r hn hr => filters_of_plan h hn hr

/-- `select cpu where host = a, a and zone = b and host = c; max()`. -/
def hostTwice : List Stage :=
  [⟨none,
    .select ⟨"cpu", none, [⟨"host", ["a", "a"]⟩, ⟨"zone", ["b"]⟩, ⟨"host", ["c"]⟩], []⟩,
    ⟨1, 1⟩⟩, ⟨none, .aggregate ⟨"max", none, []⟩, ⟨1, 56⟩⟩]

/-- The tag that is filtered twice has all values, and stands where it was written
first. -/
theorem Statement.filters_collected_hostTwice :
    ∃ b r m,
      bindStages .standard ⟨10000, 0⟩ hostTwice = .ok b ∧ b.work? 0 = some (.ask r) ∧
      r.metrics = [m] ∧ m.tags = ⟨[("host", ["a", "a", "c"]), ("zone", ["b"])]⟩ ∧
      decodeText Tags.decoder m.tags.toJson.compact = .ok m.tags := by
  have hbind : bindStages .standard ⟨10000, 0⟩ hostTwice = .ok _ := rfl
  have hstands : standsAt? .standard ⟨10000, 0⟩ hostTwice 0 = some 0 := rfl
  obtain ⟨-, -, hwritten, -, -, hbound, -⟩ := Statement.filters_collected
  obtain ⟨i, r, hi, hr, m, hm, -, htags⟩ := hbound _ _ _ _ hbind 0 _ rfl
  rw [hstands, Option.some.injEq] at hi
  subst hi
  exact ⟨_, r, m, hbind, hr, hm, htags, htags ▸ hwritten _⟩

end SeriesQuery
