import SeriesQuery.Proofs.Plan.Requests

/-!
# Requests on the wire

The backend gets the range of a request in milliseconds.  A request is decoded from its
own text as it is on the wire, unless an end lies in the leap second past the last
second: the milliseconds of that instant are those of no instant.  A request that can be
sent has its ends in order, and so they are on the wire, unless the start lies in a leap
second and the end in the second right after it.

## Main results

* `requests_come_back`: a request is decoded from its text as it is on the wire.
* `wire_range_ordered_iff`: when the ends of a request are in order on the wire.
-/

namespace SeriesQuery

open SeriesQuery.Backend SeriesQuery.Json
open SeriesQuery.Time (Instant)

/-! ## Back from the text -/

/-- A request that comes from a text or from the plan of a statement. -/
inductive Backend.Request.Produced : Request → Prop
  | decoded {text : String} {r : Request} :
      decodeText Request.decoder text = .ok r → Produced r
  | planned {combiners : Combiners} {now : Instant} {s : Statement} {p : Plan}
      {n : Node} {r : Request} : now.Present → s.Proper → s.plan combiners now = .ok p →
      p.terminal.Reaches n → n.work = .ask r → Produced r

/-- A request that is produced comes back from its text, unless an end lies past the
last second. -/
theorem Backend.Request.Produced.sound {r : Request} (h : r.Produced)
    (hstart : ¬ r.start.IsPastLast) (hstop : ¬ r.stop.IsPastLast) : r.Sound 122 := by
  cases h with
  | decoded hdecoded => exact Request.of_decodeText hdecoded
  | planned hnow hs hplan hreaches hask =>
      have hplanned := (Statement.request_of_plan hnow hs hplan hreaches hask).1
      exact ⟨Instant.isRepresentable_ofMillis hplanned.start hstart,
        Instant.isRepresentable_ofMillis hplanned.stop hstop,
        fun m hm => hplanned.metrics m hm 121⟩

/-- **Requests come back.**  The text of a request is decoded as the request at whole
milliseconds, which is written as the same text. -/
theorem requests_come_back {r : Request} (h : r.Produced)
    (hfloats : r.toJson.FloatsReadBack) (hstart : ¬ r.start.IsPastLast)
    (hstop : ¬ r.stop.IsPastLast) :
    decodeText Request.decoder r.toJson.compact = .ok r.onWire ∧
      r.onWire.metrics = r.metrics ∧ r.onWire.start = Instant.ofMillis r.start.millis ∧
      r.onWire.stop = Instant.ofMillis r.stop.millis ∧
      r.onWire.toJson.compact = r.toJson.compact := by
  refine ⟨(h.sound hstart hstop).decodeText_compact hfloats, rfl, rfl, rfl, ?_⟩
  rw [Request.toJson_onWire]

/-- `select cpu from ... to ... where host = a, a group by host`. -/
def hostsWithin (start stop : Instant) : Statement :=
  ⟨[⟨none, .select ⟨"cpu", some ⟨.fixed start, some (.fixed stop)⟩,
    [⟨"host", ["a", "a"]⟩], ["host"]⟩, ⟨1, 1⟩⟩]⟩

/-- Its request: a value that is given twice is asked for twice. -/
def hostsRequest (start stop : Instant) : Request :=
  ⟨start, stop, [⟨"cpu", ⟨[("host", ["a", "a"])]⟩, [], [Grouping.byTags ["host"]]⟩]⟩

/-- The noon of the first of June 2024. -/
def juneNoon : Instant := ⟨1717243200, 0⟩

private theorem present_juneNoon : juneNoon.Present :=
  ⟨⟨by decide +kernel, by decide⟩, ⟨by decide +kernel, by decide⟩⟩

private theorem proper_hostsWithin {start stop : Instant} (hstart : start.Proper)
    (hstop : stop.Proper) : (hostsWithin start stop).Proper := by
  refine List.forall_mem_singleton.2 ?_
  rintro _ ⟨⟩
  exact ⟨hstart, by rintro _ ⟨⟩; exact hstop⟩

/-- All numbers in it are those of its ends. -/
theorem readsBack_hostsRequest {start stop : Instant}
    (hstart : -Int.pow 2 63 ≤ start.millis ∧ start.millis ≤ Int.pow 2 63 - 1)
    (hstop : -Int.pow 2 63 ≤ stop.millis ∧ stop.millis ≤ Int.pow 2 63 - 1) :
    (hostsRequest start stop).toJson.ReadsBack := by
  have hnumbers : (hostsRequest start stop).toJson.numbers =
      (Value.int start.millis).numbers ++ (Value.int stop.millis).numbers := rfl
  unfold Value.ReadsBack
  rw [hnumbers]
  exact List.forall_mem_append.2 ⟨Value.readsBack_int hstart, Value.readsBack_int hstop⟩

/-- A start between two milliseconds comes back at the earlier one. -/
theorem requests_come_back_hosts :
    (hostsRequest ⟨1717239600, 1500000⟩ juneNoon).Produced ∧
      decodeText Request.decoder
        (hostsRequest ⟨1717239600, 1500000⟩ juneNoon).toJson.compact =
        .ok (hostsRequest ⟨1717239600, 1000000⟩ juneNoon) := by
  have hplan : (hostsWithin ⟨1717239600, 1500000⟩ juneNoon).plan .standard
      juneNoon = .ok _ := rfl
  have hproduced : (hostsRequest ⟨1717239600, 1500000⟩ juneNoon).Produced :=
    .planned present_juneNoon
      (proper_hostsWithin ⟨by decide +kernel, by decide⟩ present_juneNoon.stop)
      hplan (.refl _) rfl
  have hfloats : (hostsRequest ⟨1717239600, 1500000⟩ juneNoon).toJson.FloatsReadBack :=
    fun x => readsBack_hostsRequest (by decide) (by decide) (.float x)
  refine ⟨hproduced, ?_⟩
  exact (requests_come_back hproduced hfloats (fun h => nomatch h.2)
    (fun h => nomatch h.2)).1

/-- The leap second past the last second can be asked for, but what is on the wire is
decoded as no request. -/
theorem request_past_last_second :
    ∃ past p r, readDateTime "+262142-12-31 23:59:60".toList = .ok past ∧
      (hostsWithin juneNoon past).Proper ∧
        (hostsWithin juneNoon past).plan .standard juneNoon = .ok p ∧
      p.terminal.work = .ask r ∧
        ∀ q, decodeText Request.decoder r.toJson.compact ≠ .ok q := by
  have hback : (hostsRequest juneNoon ⟨8210266876799, 1000000000⟩).toJson.ReadsBack :=
    readsBack_hostsRequest (by decide) (by decide)
  have hrefused : Request.decoder maxDepth
      (Tree.ofValue (hostsRequest juneNoon ⟨8210266876799, 1000000000⟩).toJson) =
      .error .unfit := rfl
  refine ⟨⟨8210266876799, 1000000000⟩, _,
    hostsRequest juneNoon ⟨8210266876799, 1000000000⟩, by decide +kernel,
    proper_hostsWithin present_juneNoon.stop ⟨by decide +kernel, by decide⟩, rfl,
    rfl, ?_⟩
  intro q h
  rw [decodeText_compact _ hback, hrefused] at h
  cases h

/-! ## The order of the ends -/

/-- The start lies in a leap second, and the end in the second after it, at an earlier
millisecond of the second. -/
def Backend.Request.SlipsBack (r : Request) : Prop :=
  r.start.inLeapSecond = true ∧ r.stop.second = r.start.second + 1 ∧
    r.stop.nano / 1000000 < (r.start.nano - Instant.nanosPerSecond) / 1000000

/-- The end of a request that can be sent does not come before the start. -/
theorem Backend.Request.stop_not_before {r : Request} (h : r.isValid = true) :
    r.stop.before r.start = false := by
  unfold Request.isValid Request.faults at h
  rw [List.isEmpty_iff, List.append_eq_nil_iff, List.append_eq_nil_iff] at h
  have hrange := h.1.1
  split at hrange
  · cases hrange
  · rename_i hbefore
    exact Bool.eq_false_iff.2 hbefore

/-- Ends in order are in order on the wire, unless the start slips back behind the
end. -/
theorem Backend.Request.millis_le_iff {r : Request} (h : r.isValid = true)
    (hnano : r.start.nano < 2 * Instant.nanosPerSecond) :
    r.start.millis ≤ r.stop.millis ↔ ¬ r.SlipsBack := by
  have horder := Request.stop_not_before h
  simp only [Instant.before, Bool.or_eq_false_iff, Bool.and_eq_false_iff,
    decide_eq_false_iff_not, beq_eq_false_iff_ne] at horder
  obtain ⟨hsecond, hsame⟩ := horder
  simp only [SlipsBack, Instant.inLeapSecond, decide_eq_true_eq, Instant.millis]
  simp only [Instant.nanosPerSecond] at hnano ⊢
  omega

/-- A request that is sent: one that passes the check of its range, with an instant as
its start, and each request of the plan of a statement, read from a text or built. -/
inductive Backend.Request.Sent : Request → Prop
  | checked {r : Request} :
      r.isValid = true → r.start.nano < 2 * Instant.nanosPerSecond → Sent r
  | planned {combiners : Combiners} {now : Instant} {s : Statement} {p : Plan}
      {n : Node} {r : Request} : now.Present → s.Proper → s.plan combiners now = .ok p →
      p.terminal.Reaches n → n.work = .ask r → Sent r
  | compiled {text : String} {combiners : Combiners} {now : Instant}
      {s : Statement} {p : Plan} {n : Node} {r : Request} :
      now.Present → Statement.parse text = .ok s →
      s.plan combiners now = .ok p → p.terminal.Reaches n → n.work = .ask r → Sent r

/-- What a plan asks for has passed the check. -/
theorem Statement.checked_of_plan {combiners : Combiners} {now : Instant}
    {s : Statement} {p : Plan} {n : Node} {r : Request} (hnow : now.Present)
    (hs : s.Proper) (hplan : s.plan combiners now = .ok p)
    (hreaches : p.terminal.Reaches n) (hask : n.work = .ask r) :
    r.isValid = true ∧ r.start.nano < 2 * Instant.nanosPerSecond := by
  obtain ⟨hplanned, hvalid⟩ := Statement.request_of_plan hnow hs hplan hreaches hask
  exact ⟨hvalid, hplanned.start.nano⟩

private theorem Backend.Request.Sent.checks {r : Request} (h : r.Sent) :
    r.isValid = true ∧ r.start.nano < 2 * Instant.nanosPerSecond := by
  cases h with
  | checked hvalid hnano => exact ⟨hvalid, hnano⟩
  | planned hnow hs hplan hreaches hask =>
      exact Statement.checked_of_plan hnow hs hplan hreaches hask
  | compiled hnow hparse hplan hreaches hask =>
      exact Statement.checked_of_plan hnow (Statement.proper_of_parse hparse)
        hplan hreaches hask

/-- **The range on the wire.**  The ends of a request that is sent are in order on the
wire, unless the request slips back. -/
theorem wire_range_ordered_iff {r : Request} (h : r.Sent) :
    ∃ start stop rest, r.toJson =
      .object (("start_absolute", .int start) :: ("end_absolute", .int stop) :: rest) ∧
        (start ≤ stop ↔ ¬ r.SlipsBack) :=
  ⟨r.start.millis, r.stop.millis, _, rfl, Request.millis_le_iff h.checks.1 h.checks.2⟩

/-- The start in a leap second and the end in the same one stay in order. -/
theorem wire_range_ordered_leap :
    (hostsRequest ⟨1705320059, 1500000000⟩ ⟨1705320059, 1700000000⟩).isValid = true ∧
      ∃ start stop rest,
        (hostsRequest ⟨1705320059, 1500000000⟩ ⟨1705320059, 1700000000⟩).toJson =
        .object
          (("start_absolute", .int start) :: ("end_absolute", .int stop) :: rest) ∧
          start ≤ stop := by
  have hvalid :
      (hostsRequest ⟨1705320059, 1500000000⟩ ⟨1705320059, 1700000000⟩).isValid = true :=
    rfl
  obtain ⟨start, stop, rest, hjson, horder⟩ :=
    wire_range_ordered_iff (.checked hvalid (by decide))
  exact ⟨hvalid, start, stop, rest, hjson, horder.2 fun h => nomatch h.2.1⟩

/-- A range from the middle of a leap second into the second after it can be sent, and
it goes out reversed. -/
theorem wire_range_reversed_after_leap_second :
    ∃ start stop p r, readDateTime "2024-01-15 12:00:60.5".toList = .ok start ∧
      readDateTime "2024-01-15 12:01:00.2".toList = .ok stop ∧
      (hostsWithin start stop).plan .standard juneNoon = .ok p ∧
        p.terminal.work = .ask r ∧ r.isValid = true ∧ r.stop.millis < r.start.millis :=
  ⟨⟨1705320059, 1500000000⟩, ⟨1705320060, 200000000⟩, _, _, rfl, rfl, rfl, rfl,
    rfl, by decide⟩

end SeriesQuery
