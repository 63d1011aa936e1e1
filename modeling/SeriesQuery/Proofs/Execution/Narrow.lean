import SeriesQuery.Proofs.Execution.Punctual

/-!
# Runs of narrow plans

In a plan whose joins are all narrow no pass comes too late: time goes on to the moment
when the next reply comes in, and every stage that has not ended waits for such a reply.
So a pass that meets a failure does so at the moment of the earliest failure.  What has
been asked by then is what a walk asks, up to that failure if it comes in the first
pass.

## Main results

* `exists_timer`: a stage that ends later waits for a reply that comes in at the moment
  when it ends.
* `narrow_run`: how a run of a narrow plan ends, and what it asks.
-/

namespace SeriesQuery.Execution

open SeriesQuery.Backend (Request Response)
open World

variable {respond : Respond} {reply : Nat → Request → Reply}
  {past : Option (List Request)} {w w' : World} {root n m k : Node} {t t' : Task}
  {e : StageFailure}

/-! ## The order of asking -/

/-- When stages ask in the order of the walk, replies come as they are scheduled for
that order. -/
theorem scheduled_replyTo (hroot : root.Distinct) :
    Scheduled respond (replyTo respond root) root.inOrder := by
  intro before n after request horder _
  have hnodup := nodup_inOrder hroot
  rw [horder, List.map_append, List.map_cons, List.nodup_append] at hnodup
  have hbefore : ∀ m ∈ before, (m.id != n.id) = true := by
    intro m hm
    have hne := hnodup.2.2 m.id (List.mem_map_of_mem hm) n.id List.mem_cons_self
    simpa using hne
  rw [replyTo, horder, List.takeWhile_append_of_pos hbefore,
    List.takeWhile_cons_of_neg (by simp), List.append_nil]

/-! ## Between two passes -/

/-- What holds between two passes of a run on schedule. -/
structure Steady (respond : Respond) (reply : Nat → Request → Reply)
    (past : Option (List Request)) (root : Node) (t : Task) (w : World) : Prop where
  ready : Ready respond root.Reaches root t w
  timers : ∀ s ∈ w.timers, w.now < s.due
  idle : Idle root [] t w
  placed : Placed [] root t
  timely : Timely reply root [] t
  handled : Handled reply root.Reaches [] w
  calls : w.calls = askedAfter past []
  phase : t = .fresh ↔ past = none
  opening : past = none → Opening root.inOrder [] root w
  begun : past ≠ none → ∀ k, root.Reaches k → w.Begun k.id
  failing : ∀ m, root.Reaches m → ownFailure? reply m ≠ none →
    w.now ≤ ends reply m ∧ (past ≠ none → 0 < ends reply m)

/-- Nothing is kept, begun or asked before a run. -/
theorem Steady.start : Steady respond reply none root .fresh (.start []) where
  ready := .nil
  timers := fun s hs => by cases hs
  idle := idle_of_single (by simp) (by simp)
  placed := .fresh [] root
  timely := timely_of_single (by simp) (by simp)
  handled := ⟨.nil, (fun m r _ hr => by cases hr), by simp⟩
  calls := rfl
  phase := by simp
  opening := fun _ => ⟨rfl, fun k _ => by simp [Begun, recalled?, turn?, World.start],
    List.prefix_refl _⟩
  begun := fun h => absurd rfl h
  failing := fun m _ _ => ⟨Nat.zero_le _, fun h => absurd rfl h⟩

/-- A pass of a run on schedule that meets no failure. -/
structure Gone (respond : Respond) (reply : Nat → Request → Reply) (root : Node)
    (t : Task) (w : World) : Prop where
  tidy : w.Tidy
  founded : w.Founded respond root.Reaches
  timers : ∀ s ∈ w.timers, w.now < s.due
  sound : Sound respond root.Reaches root [] t w
  quiet : Quiet root [] t w
  idle : Idle root [] t w
  placed : Placed [] root t
  timely : Timely reply root [] t
  handled : Handled reply root.Reaches root.inOrder w
  calls : w.calls = requestsOf root.inOrder
  begun : ∀ k, root.Reaches k → w.Begun k.id

/-- A run has met the earliest failure; of those at one moment, the first in the order
of the walk.  It has asked what comes before the failure in the order of the walk, and
all else unless that was in the first pass. -/
structure Stopped (reply : Nat → Request → Reply) (root : Node) (e : StageFailure)
    (w : World) (before : List Node) (f : Node) (after : List Node) : Prop where
  order : root.inOrder = before ++ f :: after
  failure : ownFailure? reply f = some e
  moment : w.now = ends reply f
  earliest :
    ∀ m, root.Reaches m → ownFailure? reply m ≠ none → ends reply f ≤ ends reply m
  first : ∀ m ∈ before, ownFailure? reply m ≠ none → ends reply f < ends reply m
  calls : w.calls =
    requestsOf (if ends reply f = 0 then before ++ [f] else root.inOrder)

private theorem Steady.pass (hplanned : Planned root.Reaches)
    (hnarrow : Narrow root.Reaches) (hscheduled : Scheduled respond reply root.inOrder)
    (hpast : ∀ c, past = some c → c = requestsOf root.inOrder)
    (h : Steady respond reply past root t w)
    (hpoll : (actor respond root).poll [] t w = (t', w')) :
    Gone respond reply root t' w' ∨
      ∃ e before f after,
        t' = .done (.error e) ∧ Stopped reply root e w' before f after := by
  have hroot : root.Reaches root := .refl root
  obtain ⟨htidy, hfounded, hsound, hquiet⟩ := h.ready.pass hplanned.closed hroot hpoll
  have hpassed :=
    passing respond hplanned.closed root hroot [] t w h.ready.tidy h.ready.sound
    h.ready.expected
  have hpunctual :=
    punctual respond hplanned hnarrow hscheduled root hroot [] t w [] h.ready.tidy
    h.ready.founded h.ready.sound h.ready.expected h.idle h.placed h.timely h.handled
    h.calls h.phase h.opening
  have hasking := asking respond hplanned root hroot [] t w h.ready.tidy h.ready.sound
    h.ready.expected h.idle
  rw [hpoll] at hpassed hpunctual hasking
  have hasked : askedAfter past root.inOrder = requestsOf root.inOrder := by
    cases hp : past with
    | none => rfl
    | some c => exact hpast c hp
  rcases hpunctual with hontime | ⟨e, he, before, f, after, horder, hfailure, hends,
    hbefore, hcalls⟩
  · left
    have hgoing : ∀ e, t' ≠ .done (.error e) := by
      rintro e rfl
      have hplaced := hontime.placed
      cases hplaced
    obtain ⟨hsmooth, hidle⟩ :=
      hasking (hsound.clear hplanned.closed hnarrow hroot hgoing)
    refine ⟨htidy, hfounded, hpassed.moves.awaits h.ready.tidy h.timers, hsound,
      hquiet, hidle, hontime.placed, hontime.timely, hontime.handled,
      hontime.calls.trans hasked, fun k hk => ?_⟩
    by_cases hnone : past = none
    · exact (hontime.begun hnone k hk).2 (Or.inr hk)
    · exact hsmooth.begun k.id (h.begun hnone k hk)
  · right
    have horder' : root.inOrder = before ++ f :: after := horder
    have hmem : ∀ m, m ∈ before ++ f :: after → root.Reaches m := by
      intro m hm
      rw [← horder'] at hm
      exact (mem_inOrder hplanned.numbered).1 hm
    have hf := hmem f (by simp)
    have hnow : w'.now = w.now := hpassed.moves.clock.1
    obtain ⟨hleast, hpositive⟩ := h.failing f hf (by rw [hfailure]; simp)
    have hended : ends reply f ≤ w'.now := hends
    have hmoment : w'.now = ends reply f := by omega
    refine ⟨e, before, f, after, he, horder', hfailure, hmoment, ?_, ?_, ?_⟩
    · intro m hm hown
      have hm' := (h.failing m hm hown).1
      omega
    · intro m hm hown
      by_contra hle
      exact hown (hbefore m hm (by omega))
    · rw [hcalls, List.nil_append]
      cases hp : past with
      | none =>
          have hzero : ends reply f = 0 := by
            rw [← hmoment, hnow]
            exact (h.opening hp).now
          rw [if_pos hzero]
          rfl
      | some c =>
          have hpos := hpositive (by rw [hp]; simp)
          rw [if_neg (by omega)]
          exact hpast c hp

/-! ## Going on in time -/

/-- A stage of a run on schedule fails later than now. -/
theorem Gone.later (h : Gone respond reply root t w) (hroot : root.Distinct)
    (hm : root.Reaches m) (hown : ownFailure? reply m ≠ none) :
    w.now < ends reply m := by
  by_contra hle
  exact hown (h.handled.ownFailure? ((mem_inOrder hroot).2 hm) (by omega))

/-- **No pass comes too late.**  A stage that ends later waits for a reply that comes in
at the moment when it ends. -/
theorem exists_timer (hplanned : Planned root.Reaches) (h : Gone respond reply root t w)
    (hm : root.Reaches m) (hlater : w.now < ends reply m) :
    ∃ q, ⟨ends reply m, q⟩ ∈ w.timers := by
  have hpos : 0 < ends reply m := by omega
  obtain ⟨k, request, hk, hwork, hends⟩ :=
    exists_ask_of_ends hplanned _ m (Nat.lt_succ_self _) hm hpos
  have hgraph := hm.trans hk
  obtain ⟨s, hs⟩ : ∃ s, w.turn? k.id = some s := by
    rcases h.begun k hgraph with hkept | hturn
    · obtain ⟨r, hr⟩ := Option.isSome_iff_exists.1 hkept
      have hle := (h.handled.kept k r hgraph hr).2
      omega
    · exact Option.isSome_iff_exists.1 hturn
  have howns : w.Owns k.id s.owner := ⟨s, hs, rfl⟩
  obtain ⟨k', v, hv, hid, hlive⟩ :=
    h.sound.home k.id s.owner List.nil_suffix (Or.inl howns)
  have hsame :=
    hplanned.numbered k' k (hv.mem_graph hplanned.closed (.refl root)) hgraph hid
  subst hsame
  have hokay := h.sound.okay k' s.owner v hv
  cases v with
  | fresh => exact absurd hlive fun hfalse => hfalse
  | done result => exact absurd hlive fun hfalse => hfalse
  | queued => exact absurd howns (h.idle k' s.owner hv)
  | joining ts =>
      obtain ⟨-, hlength, hresults, -⟩ := hokay
      rw [hplanned.leaf k' request hgraph hwork, List.length_nil,
        List.length_eq_zero_iff] at hlength
      subst hlength
      cases hresults
  | calling due outcome =>
      obtain ⟨hdue, -⟩ := h.timely k' s.owner due outcome request hv hwork
      refine ⟨s.owner, ?_⟩
      rw [← hends, ← hdue]
      exact h.quiet k' s.owner _ hv

/-- A run on schedule is on schedule in its next pass. -/
theorem Gone.steady (hplanned : Planned root.Reaches) (h : Gone respond reply root t w)
    (hready : Ready respond root.Reaches root t w') (hlater : Later w w') :
    Steady respond reply (some (requestsOf root.inOrder)) root t w' := by
  have hrecalled : ∀ id, w'.recalled? id = w.recalled? id := fun id => by
    rw [recalled?, hlater.memo, recalled?]
  have hturn : ∀ id, w'.turn? id = w.turn? id :=
    fun id => by rw [turn?, hlater.turns, turn?]
  have hfresh : t ≠ .fresh := by
    rintro rfl
    exact absurd (h.quiet _ _ _ (.here _ _ _)) fun hfalse => hfalse
  have hnow : w.now ≤ w'.now := by
    rcases hlater.clock with ⟨hnow, -⟩ | ⟨⟨s, hs, hnow⟩, -⟩
    · omega
    · have hdue := h.timers s hs
      omega
  have hawaits : ∀ s ∈ w'.timers, w'.now < s.due := by
    rcases hlater.clock with ⟨hnow, htimers⟩ | ⟨-, -, hawaits⟩
    · rw [hnow, htimers]
      exact h.timers
    · exact hawaits
  refine ⟨hready, hawaits, ?_, h.placed, h.timely, ⟨.nil, ?_, by simp⟩,
    hlater.calls.trans h.calls, by simp [hfresh], by simp, ?_, ?_⟩
  · rintro k q hv ⟨s, hs, howner⟩
    rw [hturn] at hs
    exact h.idle k q hv ⟨s, hs, howner⟩
  · intro m r hm hr
    rw [hrecalled] at hr
    obtain ⟨houtcome, hends⟩ := h.handled.kept m r hm hr
    exact ⟨houtcome, by omega⟩
  · intro _ k hk
    unfold Begun
    rw [hrecalled, hturn]
    exact h.begun k hk
  · intro m hm hown
    have hends := h.later hplanned.numbered hm hown
    refine ⟨?_, fun _ => by omega⟩
    rcases hlater.clock with ⟨hsame, -⟩ | ⟨-, hleast, -⟩
    · omega
    · obtain ⟨q, hq⟩ := exists_timer hplanned h hm hends
      exact hleast _ hq

/-! ## Runs -/

/-- How a run of a narrow plan ends, and what it has asked by then. -/
structure Ran (reply : Nat → Request → Reply) (root : Node) (o : Outcome) : Prop where
  late : o.result = none → o.world.calls = requestsOf root.inOrder
  ok : ∀ r, o.result = some (.ok r) →
    stageOutcome reply root = .ok r ∧ o.world.calls = requestsOf root.inOrder
  error : ∀ e, o.result = some (.error e) →
    ∃ before f after, Stopped reply root e o.world before f after

/-- **Runs of narrow plans.**  A run has the result that its schedule tells of, or it
stops at the earliest failure; unless that is in the first pass it asks all that a walk
asks. -/
theorem narrow_run (hplanned : Planned root.Reaches) (hnarrow : Narrow root.Reaches)
    (respond : Respond) (deadline : Option Nat) :
    Ran (replyTo respond root) root (run respond deadline [] root) := by
  let P : Task → World → Prop := fun t w =>
    ∃ past, (∀ c, past = some c → c = requestsOf root.inOrder) ∧
      Steady respond (replyTo respond root) past root t w
  let Q : Task → World → Prop :=
    fun t w => Gone respond (replyTo respond root) root t w ∨
    ∃ e before f after, t = .done (.error e) ∧
      Stopped (replyTo respond root) root e w before f after
  have hpass : ∀ {t w t' w'}, Ready respond root.Reaches root t w → P t w →
      (actor respond root).poll [] t w = (t', w') → Q t' w' := by
    rintro t w t' w' - ⟨past, hpast, h⟩ hpoll
    exact h.pass hplanned hnarrow (scheduled_replyTo hplanned.numbered) hpast hpoll
  have hlater : ∀ {t w w'}, (∀ r, t ≠ .done r) →
      Ready respond root.Reaches root t w' → Q t w → Later w w' → P t w' := by
    rintro t w w' hdone hready (hgone | ⟨e, _, _, _, he, -⟩) hlater
    · exact ⟨_, by simp, hgone.steady hplanned hready hlater⟩
    · exact absurd he (hdone _)
  have hstart : P .fresh (.start []) := ⟨none, by simp, .start⟩
  obtain ⟨t, hend, hresult⟩ : ∃ t, Q t (run respond deadline [] root).world ∧
      ∀ r, (run respond deadline [] root).result = some r ↔ t = .done r :=
    Ready.along hplanned.closed (.refl root) hpass hlater .nil hstart
  constructor
  · intro hnone
    rcases hend with hgone | ⟨e, _, _, _, he, -⟩
    · exact hgone.calls
    · rw [(hresult _).2 he] at hnone
      cases hnone
  · intro r hr
    rw [(hresult _).1 hr] at hend
    rcases hend with hgone | ⟨e, _, _, _, he, -⟩
    · have hkept : World.recalled? _ root.id = some r :=
        hgone.sound.okay _ _ _ (.here _ _ _)
      exact ⟨(hgone.handled.kept root r (.refl root) hkept).1, hgone.calls⟩
    · cases he
  · intro e he
    rw [(hresult _).1 he] at hend
    rcases hend with hgone | ⟨e', before, f, after, he', hstopped⟩
    · have hplaced := hgone.placed
      cases hplaced
    · cases he'
      exact ⟨before, f, after, hstopped⟩

end SeriesQuery.Execution
