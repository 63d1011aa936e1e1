import SeriesQuery.Execution.Progress

/-!
# Runs

A run lets the task of the last stage go on, pass after pass, until it is done.  Time
moves on only when a pass has woken nobody, and then to the moment when the next reply
comes in.  A run that is allowed only so much time ends when that moment lies beyond it;
replies that come in at the very last moment still count.
-/

namespace SeriesQuery.Execution

open SeriesQuery.Backend (Request)

/-- Moving on in time ends the wait of at least one task. -/
theorem World.advance?_timers {w w' : World} (h : w.advance? = some w') :
    w'.timers.length < w.timers.length := by
  unfold World.advance? at h
  cases hm : (w.timers.map Timer.due).min? with
  | none => rw [hm] at h; simp at h
  | some due =>
    rw [hm] at h
    simp only [Option.map_some, Option.some.injEq] at h
    subst h
    obtain ⟨t, ht, rfl⟩ := List.mem_map.1 (List.min?_mem hm)
    dsimp only
    exact List.length_filter_lt_length_iff_exists.2 ⟨t, ht, by simp⟩

/-- What a run leaves behind. -/
structure Outcome where
  /-- The result of the last stage; none when the run did not end in time. -/
  result : Option (Except StageFailure SeriesResult)
  world : World

/-- Lets a task go on from some world until it is done. -/
def proceed (respond : Respond) (deadline : Option Nat) (root : Node) (t : Task)
    (w : World) :
    Outcome :=
  let awake := { w with next := [] }
  match _step : (actor respond root).poll [] t awake with
  | (.done r, w') => ⟨some r, w'⟩
  | (t', w') =>
    if _woke : w'.next ≠ [] then
      proceed respond deadline root t' { w' with woken := w'.next }
    else
      match _later : w'.advance? with
      | none => ⟨none, w'⟩
      | some w'' =>
        if deadline.any (· < w''.now) then ⟨none, w'⟩
        else proceed respond deadline root t' w''
  termination_by (remaining root t, w.timers.length)
  decreasing_by
    · have := advances respond root [] t awake
      rw [_step] at this
      rcases this with same | less
      · simp only [Prod.mk.injEq] at same
        rw [same.2] at _woke
        exact absurd rfl _woke
      · exact Prod.Lex.left _ _ less
    · have := advances respond root [] t awake
      rw [_step] at this
      have earlier := World.advance?_timers _later
      rcases this with same | less
      · simp only [Prod.mk.injEq] at same
        rw [same.1]
        rw [same.2] at earlier
        exact Prod.Lex.right _ earlier
      · exact Prod.Lex.left _ _ less

/-- Runs a stage and all it needs, starting with some results. -/
def run (respond : Respond) (deadline : Option Nat) (memo : Memo)
    (root : Node) : Outcome :=
  proceed respond deadline root .fresh (.start memo)

end SeriesQuery.Execution

namespace SeriesQuery

open SeriesQuery.Execution

/-- The result of a run of a plan that may take some milliseconds: what was noticed
while the plan was made comes after what was noticed while it ran. -/
def Plan.outcome (p : Plan) (timeout : Nat) (o : Outcome) :
    Except StatementFailure SeriesResult :=
  match o.result with
  | some (.ok r) => .ok (r.withWarnings p.warnings)
  | some (.error e) => .error (.stage e)
  | none => .error (.outOfTime (timeout * 1000))

/-- Runs a plan that may take some milliseconds. -/
def Plan.run (respond : Respond) (timeout : Nat) (p : Plan) : Outcome :=
  Execution.run respond (some timeout) [] p.terminal

end SeriesQuery
