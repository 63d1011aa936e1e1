import SeriesQuery.Proofs.Backend.Answers
import SeriesQuery.Proofs.Time.Written
import SeriesQuery.Result.Threshold

/-!
# Answers and results pass through

What the backend sends goes through decoding, stages and encoding without loss.  The
text written for an answer denotes the value of the text it came from, with defaults
where known members were missing, and the text written for a result is decoded as the
result, whatever stages the result came from.

## Main results

* `SeriesResult.Built.sound`: what the results that stages build have in common.
* `SeriesResult.decoder_written`: a written result is decoded as the result.
* `answers_pass_through`: answers and results come back from their texts.
-/

namespace SeriesQuery

open SeriesQuery.Json Decoder Fallible
open SeriesQuery.Time (Instant)
open SeriesQuery.Backend (Point Series Block Response)

variable {depth most : Nat}

/-! ## Alerts -/

/-- An alert as stages raise it: at an ordinary instant that has a date. -/
structure Alert.Sound (a : Alert) : Prop where
  representable : a.time.isRepresentable = true
  ordinary : a.time.inLeapSecond = false

/-- A written alert is decoded as the alert. -/
theorem Alert.decoder_written {a : Alert} (h : a.Sound) (hback : a.toJson.ReadsBack) :
    Alert.decoder (depth + 1) (Tree.ofValue a.toJson) = .ok a := by
  have hvalue : (Number.float a.value).ReadsBack :=
    Value.readsBack_number.1
      (Value.readsBack_object.1 hback ("value", .float a.value) (by simp))
  have htime : Draft.step depth {} "time" (Tree.ofValue (.text a.time.zuluText)) =
      .ok ⟨some a.time, none⟩ := by
    have hread := Instant.readRelaxed?_zuluText h.representable h.ordinary
    have hdecoded : instantDecoder depth (Tree.ofValue (.text a.time.zuluText)) =
        .ok a.time := by
      unfold instantDecoder
      refine bind_eq_ok_iff.2 ⟨a.time.zuluText, text_eq_ok.2 rfl, ?_⟩
      rw [hread]
      rfl
    simp only [Draft.step, once, hdecoded]
    rfl
  have hfloat : Draft.step depth ⟨some a.time, none⟩ "value"
      (Tree.ofValue (.float a.value)) = .ok ⟨some a.time, some a.value⟩ := by
    have hnumber : number depth (Tree.ofValue (.float a.value)) =
        .ok (.float a.value) := by
      rw [number_eq_ok, value_eq_number]
      exact ⟨_, rfl, hvalue.ofSpelling?⟩
    simp only [Draft.step, once, float, hnumber]
    rfl
  have hall : members Draft.step depth {} (Tree.ofMembers
      [("time", .text a.time.zuluText), ("value", .float a.value)]) =
      .ok ⟨some a.time, some a.value⟩ :=
    (members_ofMembers_cons htime).trans (members_ofMembers_cons hfloat)
  exact record_ofObject hall

/-! ## Results -/

namespace SeriesResult

/-- A result as stages give it. -/
structure Sound (depth : Nat) (r : SeriesResult) : Prop where
  response : r.response.Sound depth
  alerts : ∀ a ∈ r.alerts, a.Sound

/-- A written result is decoded as the result. -/
theorem decoder_written {r : SeriesResult} (h : r.Sound depth)
    (hback : r.toJson.ReadsBack) :
    SeriesResult.decoder (depth + 8) (Tree.ofValue r.toJson) = .ok r := by
  have hmembers := Value.readsBack_object.1 hback
  have hresponse : Draft.step (depth + 7) {} "response"
      (Tree.ofValue r.response.toJson) = .ok ⟨some r.response, none, none, none⟩ := by
    have hanswer := Response.decoder_written h.response (hmembers _ List.mem_cons_self)
    simp only [Draft.step, once, hanswer]
    rfl
  have htexts : ∀ ts, list text (depth + 7) (Tree.ofValue (Value.texts ts)) = .ok ts :=
    fun ts => list_ofArray fun _ _ => rfl
  have hwarnings : Draft.step (depth + 7) ⟨some r.response, none, none, none⟩ "warnings"
      (Tree.ofValue (Value.texts r.warnings)) =
      .ok ⟨some r.response, some r.warnings, none, none⟩ := by
    simp only [Draft.step, once, htexts]
    rfl
  have herrors : Draft.step (depth + 7)
      ⟨some r.response, some r.warnings, none, none⟩ "errors"
      (Tree.ofValue (Value.texts r.errors)) =
      .ok ⟨some r.response, some r.warnings, some r.errors, none⟩ := by
    simp only [Draft.step, once, htexts]
    rfl
  have hstart : ∀ ms, members Draft.step (depth + 7) {} (Tree.ofMembers
      ([("response", r.response.toJson), ("warnings", Value.texts r.warnings),
        ("errors", Value.texts r.errors)] ++ ms)) =
      members Draft.step (depth + 7)
        ⟨some r.response, some r.warnings, some r.errors, none⟩
        (Tree.ofMembers ms) := fun ms =>
    (members_ofMembers_cons hresponse).trans
      ((members_ofMembers_cons hwarnings).trans (members_ofMembers_cons herrors))
  cases hempty : r.alerts with
  | nil =>
      obtain ⟨response, warnings, errors, alerts⟩ := r
      cases hempty
      exact record_ofObject (hstart [])
  | cons a as =>
      have hlast : Draft.step (depth + 7)
          ⟨some r.response, some r.warnings, some r.errors, none⟩ "alerts"
          (Tree.ofValue (.array (r.alerts.map Alert.toJson))) =
          .ok ⟨some r.response, some r.warnings, some r.errors, some r.alerts⟩ := by
        have hlist : list Alert.decoder (depth + 7) _ = .ok r.alerts :=
          list_ofArray fun a ha => Alert.decoder_written (h.alerts a ha)
            (Value.readsBack_array.1
              (hmembers ("alerts", .array (r.alerts.map Alert.toJson))
              (by simp [hempty])) _ (List.mem_map_of_mem ha))
        simp only [Draft.step, once, hlist]
        rfl
      have hjson : r.toJson = .object ([("response", r.response.toJson),
          ("warnings", Value.texts r.warnings), ("errors", Value.texts r.errors)] ++
          [("alerts", .array (r.alerts.map Alert.toJson))]) := by
        simp [toJson, hempty]
      rw [hjson]
      have hall := (hstart [("alerts", .array (r.alerts.map Alert.toJson))]).trans
        (members_ofMembers_cons hlast)
      exact record_ofObject hall

/-! ## What stages make of answers -/

private theorem Sound.ofResponse {r : Response} (h : r.Sound depth) :
    (ofResponse r).Sound depth :=
  ⟨h, by simp [SeriesResult.ofResponse]⟩

private theorem Sound.append {a b : SeriesResult} (ha : a.Sound depth)
    (hb : b.Sound depth) :
    (append a b).Sound depth where
  response :=
    { blocks := List.forall_mem_append.2 ⟨ha.response.blocks, hb.response.blocks⟩
      other := hb.response.other.foldl_putNew ha.response.other }
  alerts := List.forall_mem_append.2 ⟨ha.alerts, hb.alerts⟩

private theorem Sound.foldl_append {a : SeriesResult} {rs : List SeriesResult}
    (ha : a.Sound depth) (h : ∀ r ∈ rs, r.Sound depth) :
    (rs.foldl SeriesResult.append a).Sound depth := by
  induction rs generalizing a with
  | nil => exact ha
  | cons r rs ih =>
      obtain ⟨hr, hrs⟩ := List.forall_mem_cons.1 h
      exact ih (ha.append hr) hrs

private theorem Sound.concat {rs : List SeriesResult} (h : ∀ r ∈ rs, r.Sound depth) :
    (concat rs).Sound depth := by
  have hempty : (empty : SeriesResult).Sound depth :=
    ⟨⟨by simp [empty, Response.empty], Fields.Extra.nil⟩, by simp [empty]⟩
  exact hempty.foldl_append h

/-- A threshold raises its alerts at the instants of points. -/
theorem Sound.evaluate {t : Threshold} {rs : List SeriesResult} {r : SeriesResult}
    (h : ∀ r ∈ rs, r.Sound depth) (hr : t.evaluate rs = .ok r) : r.Sound depth := by
  have hpoints : ∀ p ∈ Threshold.scanned rs, p.Sound depth := by
    intro p hp
    obtain ⟨x, hx, hp⟩ := List.mem_flatMap.1 hp
    obtain ⟨b, hb, hp⟩ := List.mem_flatMap.1 hp
    obtain ⟨s, hs, hp⟩ := List.mem_flatMap.1 hp
    exact (((h x hx).response.blocks b hb).series s hs).points p hp
  have hconcat := Sound.concat h
  unfold Threshold.evaluate at hr
  split at hr
  · cases hr
  · cases hr
    refine ⟨hconcat.response, List.forall_mem_append.2 ⟨hconcat.alerts, fun a ha => ?_⟩⟩
    obtain ⟨p, hp, halert⟩ := List.mem_filterMap.1 ha
    have htime : a.time = p.time := by
      unfold Threshold.alert? at halert
      split at halert
      · split at halert
        · cases halert
          rfl
        · cases halert
      · cases halert
    have hsound := hpoints p hp
    refine ⟨htime ▸ hsound.representable, ?_⟩
    rw [htime, hsound.whole]
    exact Instant.inLeapSecond_ofMillis _

/-- Results that stages make of the answers in texts. -/
inductive Built : SeriesResult → Prop
  | answer {text : String} {r : Response} :
      decodeText Response.decoder text = .ok r → Built (ofResponse r)
  | concat {rs : List SeriesResult} : (∀ r ∈ rs, Built r) → Built (concat rs)
  | withWarnings {r : SeriesResult} (ws : List String) : Built r →
      Built (r.withWarnings ws)
  | withErrors {r : SeriesResult} (es : List String) : Built r → Built (r.withErrors es)
  | evaluate {t : Threshold} {rs : List SeriesResult} {r : SeriesResult} :
      (∀ r ∈ rs, Built r) → t.evaluate rs = .ok r → Built r

/-- What results are built from answers have in common. -/
theorem Built.sound {r : SeriesResult} (h : Built r) : r.Sound 120 := by
  induction h with
  | answer h =>
      obtain ⟨-, -, -, hsound⟩ := Response.of_decodeText h
      exact .ofResponse hsound
  | concat _ ih => exact .concat ih
  | withWarnings _ _ ih => exact ⟨ih.response, ih.alerts⟩
  | withErrors _ _ ih => exact ⟨ih.response, ih.alerts⟩
  | evaluate _ hr ih => exact .evaluate ih hr

private theorem Sound.readsBack {r : SeriesResult} (h : r.Sound depth)
    (hfloats : r.toJson.FloatsReadBack) : r.toJson.ReadsBack := by
  have hmembers := Value.floatsReadBack_object.1 hfloats
  have htexts : ∀ ts, (Value.texts ts).ReadsBack := fun ts =>
    Value.readsBack_array.2
      (List.forall_mem_map.2 fun t _ => by simp [Value.ReadsBack, Value.numbers])
  refine Value.readsBack_object.2 (List.forall_mem_append.2 ⟨?_, ?_⟩)
  · refine List.forall_mem_cons.2
      ⟨h.response.readsBack (hmembers _ List.mem_cons_self), ?_⟩
    exact List.forall_mem_cons.2 ⟨htexts _, List.forall_mem_cons.2 ⟨htexts _, by simp⟩⟩
  · intro m hm
    refine (hmembers m (List.mem_append_right _ hm)).readsBack fun n hn => ?_
    split at hm
    · cases hm
    · rw [List.mem_singleton.1 hm] at hn
      obtain ⟨v, hv, hn⟩ := mem_itemNumbers.1 hn
      obtain ⟨a, -, rfl⟩ := List.mem_map.1 hv
      have hfloat : n = .float a.value := by
        simpa [Alert.toJson, Value.numbers, Value.memberNumbers, Value.float] using hn
      rw [hfloat]
      trivial

private theorem Sound.restrict {r : SeriesResult} (h : r.Sound most)
    (hfits : r.toJson.Fits (depth + 8)) : r.Sound depth :=
  ⟨h.response.restrict (Value.fits_object.1 hfits _ List.mem_cons_self), h.alerts⟩

end SeriesResult

/-- **Passage.**  The text written for a decoded answer denotes the object of the text
it came from, completed by defaults, and is decoded as the answer again; so is the text
written for any result that stages make of answers.  A point is decoded from nothing but
a pair of milliseconds that are within the range of instants and a value. -/
theorem answers_pass_through :
    (∀ (text : String) (r : Response), decodeText Response.decoder text = .ok r →
      r.toJson.FloatsReadBack →
      (∃ fs, decodeText Decoder.value text = .ok (.object fs) ∧
        decodeText Decoder.value r.toJson.compact =
          .ok (Response.completed (.object fs))) ∧
      decodeText Response.decoder r.toJson.compact = .ok r) ∧
    (∀ r : SeriesResult, r.Built → r.toJson.FloatsReadBack → r.toJson.Fits maxDepth →
      decodeText SeriesResult.decoder r.toJson.compact = .ok r) ∧
    ∀ (depth : Nat) (t : Tree) (p : Point), Point.decoder depth t = .ok p ↔
      ∃ n v, Decoder.value depth t = .ok (.array [.int n, v]) ∧
        (-Int.pow 2 63 ≤ n ∧ n ≤ Int.pow 2 63 - 1) ∧
          (Instant.ofMillis n).isRepresentable = true ∧
        p = ⟨Instant.ofMillis n, v⟩ := by
  refine ⟨fun text r hr hfloats => ?_, fun r hbuilt hfloats hfits => ?_,
    fun depth t p => ?_⟩
  · obtain ⟨v, hv, hfrom, hsound⟩ := Response.of_decodeText hr
    have hback := hsound.readsBack hfloats
    have hvalue : Decoder.value maxDepth _ = .ok _ :=
      Response.value_written hfrom hsound hback
    have hanswer : Response.decoder maxDepth _ = .ok r :=
      Response.decoder_written hsound hback
    rw [decodeText_compact _ hback, decodeText_compact _ hback]
    cases hfrom with
    | object => exact ⟨⟨_, hv, hvalue⟩, hanswer⟩
  · have hback := hbuilt.sound.readsBack hfloats
    have hsound : r.Sound 119 := hbuilt.sound.restrict hfits
    rw [decodeText_compact _ hback]
    exact SeriesResult.decoder_written hsound hback
  · exact Point.decoder_eq_ok_iff

/-! ### A text with an unknown member twice and no size -/

/-- One block with one series of one point. -/
def mixedText : String :=
  "\x7b\"node\":1,\"queries\":[\x7b\"results\":[\x7b\"values\":[[1500,6.5]]\x7d]" ++
    "\x7d],\"node\":2\x7d"

/-- The answer in the text. -/
def mixedAnswer : Response where
  blocks := [⟨0, [⟨[⟨⟨1, 500000000⟩, .float 6.5⟩], []⟩], []⟩]
  other := [("node", .number (.natural 2))]

/-- The value that the text writes. -/
def mixedValue : Value :=
  .object [("node", .nat 1),
    ("queries", .array [.object [("results", .array [.object [("values",
      .array [.array [.nat 1500, .float 6.5]])]])]]),
    ("node", .nat 2)]

private theorem half_readsBack : (Number.float 6.5).ReadsBack := by
  have hfloat : Json.float? ⟨false, ['6'], ['5'], false, []⟩ = some 6.5 := by
    decide +kernel
  exact ⟨⟨false, ['6'], ['5'], false, []⟩, by decide +kernel,
    by simp [Number.ofSpelling?, hfloat]⟩

private theorem mixedValue_readsBack : mixedValue.ReadsBack := by
  have hnatural : ∀ n ≤ 1500, (Number.natural n).ReadsBack := fun n hn =>
    readsBack_natural (hn.trans (by decide))
  simp [mixedValue, Value.nat, Value.float, hnatural, half_readsBack]

private theorem mixedText_decoded :
    decodeText Response.decoder mixedText = .ok mixedAnswer := by
  have hwritten : mixedText = mixedValue.compact := by decide +kernel
  have hnatural : ∀ n ≤ 1500,
      Number.ofSpelling? (Number.natural n).spelling = some (.natural n) := fun n hn =>
    (readsBack_natural (hn.trans (by decide))).ofSpelling?
  have hmillis : Instant.ofMillis? 1500 = some ⟨1, 500000000⟩ := by decide +kernel
  rw [hwritten, decodeText_compact _ mixedValue_readsBack]
  simp [mixedValue, mixedAnswer, maxDepth, Response.decoder, Response.Draft.step,
    Block.decoder, Block.Draft.step, Series.decoder, Series.Draft.step, Point.decoder,
    object, members, once, list, Decoder.key, int64, Decoder.int, Decoder.number,
    Decoder.value, Fields.put, Value.nat, Value.float, Tree.ofValue, Tree.ofItems,
    Tree.ofMembers, bind, Except.bind, Except.map, pure, Except.pure, hnatural,
    half_readsBack.ofSpelling?, hmillis]

/-- The result of the answer with a warning. -/
def mixedResult : SeriesResult :=
  (SeriesResult.ofResponse mixedAnswer).withWarnings ["late"]

private theorem mixedAnswer_floats : mixedAnswer.toJson.FloatsReadBack := by
  intro x hx
  have heq : x = 6.5 := by
    simpa [mixedAnswer, Response.toJson, Block.toJson, Series.toJson, Point.toJson,
      Value.numbers, Value.itemNumbers, Value.memberNumbers, Value.nat, Value.int,
      Value.float, Instant.millis] using hx
  rw [heq]
  exact half_readsBack

private theorem mixedResult_floats : mixedResult.toJson.FloatsReadBack := by
  have htexts : ∀ ts, (Value.texts ts).FloatsReadBack := fun ts =>
    Value.floatsReadBack_array.2 (List.forall_mem_map.2 fun t _ => by
      simp [Value.FloatsReadBack, Value.numbers])
  exact Value.floatsReadBack_object.2 (List.forall_mem_cons.2 ⟨mixedAnswer_floats,
    List.forall_mem_cons.2 ⟨htexts _, List.forall_mem_cons.2 ⟨htexts _, by
      simp [mixedResult, SeriesResult.withWarnings, SeriesResult.ofResponse]⟩⟩⟩)

/-- The answer and its result come back. -/
theorem answers_pass_through_mixed :
    decodeText Response.decoder mixedText = .ok mixedAnswer ∧
      mixedAnswer.toJson.FloatsReadBack ∧
      decodeText Response.decoder mixedAnswer.toJson.compact = .ok mixedAnswer ∧
      mixedResult.Built ∧ mixedResult.toJson.FloatsReadBack ∧
        mixedResult.toJson.Fits maxDepth ∧
      decodeText SeriesResult.decoder mixedResult.toJson.compact = .ok mixedResult := by
  have hbuilt : mixedResult.Built := .withWarnings ["late"] (.answer mixedText_decoded)
  have hfits : mixedResult.toJson.Fits maxDepth := by
    simp [mixedResult, SeriesResult.toJson, SeriesResult.withWarnings,
      SeriesResult.ofResponse, mixedAnswer, Response.toJson, Block.toJson,
      Series.toJson, Point.toJson, Value.texts, maxDepth, Value.Fits, Value.nat,
      Value.int, Value.float]
  exact ⟨mixedText_decoded, mixedAnswer_floats,
    (answers_pass_through.1 mixedText mixedAnswer mixedText_decoded
      mixedAnswer_floats).2, hbuilt, mixedResult_floats, hfits,
    answers_pass_through.2.1 mixedResult hbuilt mixedResult_floats hfits⟩

end SeriesQuery
