import Mathlib.Data.List.Induction
import SeriesQuery.Execution.Context

/-!
# Backends in hindsight

An execution depends on the backend only through the replies to the requests that it
makes.  So one may put in the place of the backend, in hindsight, any other that would
have replied the same to these requests: one that refuses all that were not made, say,
or that keeps silent about earlier ones.

The proofs follow the way a task runs.  Requests are only ever added, so what is asked
within a part of a pass is asked within the whole.

## Main results

* `hearing`: letting a task run depends only on the replies to its own requests.
* `Context.after_congr`: the same of all that happens in a context.
* `Contexts.after_context`: what happens in one of several contexts is what happens in
  it alone.
-/

namespace SeriesQuery.Execution

open SeriesQuery.Backend (Request Response)

variable {respond respond' : Respond} {w w' : World} {n : Node} {p : Path} {t : Task}
  {start start' : Nat} {calls calls' : List Request}

/-- Two backends reply the same to the requests of a list, from one of them on. -/
def Concur (respond respond' : Respond) (start : Nat) (calls : List Request) : Prop :=
  ∀ k request, start ≤ k → calls[k]? = some request →
    respond k request = respond' k request

private theorem getElem?_of_starts {k : Nat} {request : Request} (h : calls <+: calls')
    (hk : calls[k]? = some request) : calls'[k]? = some request := by
  obtain ⟨rest, rfl⟩ := h
  obtain ⟨hlt, -⟩ := List.getElem?_eq_some_iff.1 hk
  rw [List.getElem?_append_left hlt]
  exact hk

private theorem Concur.mono (h : Concur respond respond' start calls')
    (hstart : start ≤ start') (hcalls : calls <+: calls') :
    Concur respond respond' start' calls :=
  fun k request hk hr =>
    h k request (Nat.le_trans hstart hk) (getElem?_of_starts hcalls hr)

/-! ## Dropping -/

mutual

/-- Dropping a task asks nothing. -/
theorem drop_congr (respond respond' : Respond) :
    (n : Node) → (actor respond' n).drop = (actor respond n).drop
  | .mk id name work inputs => by
      rw [actor, actor]
      funext path t w
      cases t with
      | joining ts =>
          show (dropFrom path 0 (actors respond' inputs) ts w).release id =
            (dropFrom path 0 (actors respond inputs) ts w).release id
          rw [dropFrom_congr respond respond' inputs]
      | fresh => rfl
      | queued => rfl
      | calling due outcome => rfl
      | done result => rfl

/-- The same of several tasks. -/
theorem dropFrom_congr (respond respond' : Respond) : (ns : List Node) →
    ∀ (path : Path) (i : Nat) (ts : List Task) (w : World),
      dropFrom path i (actors respond' ns) ts w =
        dropFrom path i (actors respond ns) ts w
  | [], path, i, ts, w => by rw [actors, actors]
  | n :: ns, path, i, ts, w => by
      rw [actors, actors]
      cases ts with
      | nil => rfl
      | cons t ts =>
          rw [dropFrom, dropFrom, drop_congr respond respond' n,
            dropFrom_congr respond respond' ns]

end

/-- Nothing is asked and no result is kept. -/
def Idles (w w' : World) : Prop := w'.memo = w.memo ∧ w'.calls = w.calls

theorem Idles.trans {w'' : World} (h : Idles w w') (h' : Idles w' w'') : Idles w w'' :=
  ⟨h'.1.trans h.1, h'.2.trans h.2⟩

private theorem idles_leave (w : World) (id : Nat) (p : Path) :
    Idles w (w.leave id p) := by
  unfold World.leave
  split
  · exact ⟨rfl, rfl⟩
  · exact ⟨rfl, rfl⟩

mutual

/-- Dropping a task keeps no result. -/
theorem idles_drop (respond : Respond) : (n : Node) →
    ∀ (p : Path) (t : Task) (w : World), Idles w ((actor respond n).drop p t w)
  | .mk id name work inputs, p, t, w => by
      rw [actor]
      cases t with
      | fresh => exact ⟨rfl, rfl⟩
      | queued => exact idles_leave w id p
      | joining ts =>
          have hdrop := idles_dropFrom respond inputs p 0 ts w
          exact ⟨hdrop.1, hdrop.2⟩
      | calling due outcome => exact ⟨rfl, rfl⟩
      | done result => exact ⟨rfl, rfl⟩

/-- The same of several tasks. -/
theorem idles_dropFrom (respond : Respond) : (ns : List Node) →
    ∀ (p : Path) (i : Nat) (ts : List Task) (w : World),
      Idles w (dropFrom p i (actors respond ns) ts w)
  | [], p, i, ts, w => by
      rw [actors]
      exact ⟨rfl, rfl⟩
  | n :: ns, p, i, ts, w => by
      rw [actors]
      cases ts with
      | nil => exact ⟨rfl, rfl⟩
      | cons t ts =>
          exact (idles_drop respond n (i :: p) t w).trans
            (idles_dropFrom respond ns p (i + 1) ts _)

end

/-! ## Letting a task run -/

/-- What comes of a world with one backend, and what with another: requests are added
only, and it is the same when the backends concur on these. -/
def Hears {α : Type} (respond respond' : Respond) (w : World)
    (x x' : α × World) : Prop :=
  w.calls <+: x.2.calls ∧ (Concur respond respond' w.calls.length x.2.calls → x' = x)

/-- Letting a task of a stage run depends only on the replies to its requests. -/
def Hearing (respond respond' : Respond) (n : Node) : Prop :=
  ∀ p t w,
    Hears respond respond' w ((actor respond n).poll p t w)
    ((actor respond' n).poll p t w)

/-- What asks nothing hears nothing. -/
theorem Hears.of_calls {α : Type} {x : α × World} (h : x.2.calls = w.calls) :
    Hears respond respond' w x x :=
  ⟨⟨[], by rw [List.append_nil, h]⟩, fun _ => rfl⟩

private theorem conclude_calls (id : Nat) (result : Except StageFailure SeriesResult)
    (w : World) :
    (conclude id result w).2.calls = w.calls := by
  cases result with
  | ok r => rfl
  | error e => rfl

private theorem act_hears (respond respond' : Respond) (id : Nat) (work : Work)
    (ids : List Nat) (path : Path) (rs : List SeriesResult) (w : World) :
    Hears respond respond' w (act respond id work ids path rs w)
      (act respond' id work ids path rs w) := by
  cases work with
  | combine c => exact .of_calls (conclude_calls _ _ _)
  | ask request =>
      have hcalls : (act respond id (.ask request) ids path rs w).2.calls =
          w.calls ++ [request] := by
        unfold act
        dsimp only
        split
        · exact conclude_calls _ _ _
        · rfl
      refine ⟨?_, fun hconcur => ?_⟩
      · rw [hcalls]
        exact List.prefix_append _ _
      · have hreply : respond w.calls.length request =
            respond' w.calls.length request := by
          refine hconcur _ _ (Nat.le_refl _) ?_
          rw [hcalls]
          simp
        unfold act
        dsimp only
        rw [← hreply]

private theorem pollAt_hears {ns : List Node} (h : ∀ n ∈ ns, Hearing respond respond' n)
    (path : Path) (i : Nat) (ts : List Task) (w : World) :
    Hears respond respond' w (pollAt (actors respond ns) path i ts w)
      (pollAt (actors respond' ns) path i ts w) := by
  unfold pollAt
  rw [getElem?_actors, getElem?_actors]
  cases hn : ns[i]? with
  | none => exact .of_calls rfl
  | some n =>
      cases ts[i]? with
      | none => exact .of_calls rfl
      | some t =>
          obtain ⟨hgrows, hsame⟩ := h n (List.mem_of_getElem? hn) (i :: path) t w
          refine ⟨hgrows, fun hconcur => ?_⟩
          dsimp only [Option.map_some]
          rw [hsame hconcur]

private theorem joinFailure?_congr (respond respond' : Respond) (ns : List Node)
    (ts : List Task) :
    joinFailure? (actors respond' ns) ts = joinFailure? (actors respond ns) ts := by
  rw [joinFailure?, joinFailure?, isNarrow, isNarrow, length_actors, length_actors]

/-- What is heard in two parts, one after the other. -/
theorem Hears.parts {w₁ : World} (hgrows : w.calls <+: w₁.calls)
    (hgrows' : w₁.calls <+: w'.calls)
    (hconcur : Concur respond respond' w.calls.length w'.calls) :
    Concur respond respond' w.calls.length w₁.calls ∧
      Concur respond respond' w₁.calls.length w'.calls :=
  ⟨hconcur.mono (Nat.le_refl _) hgrows',
    hconcur.mono hgrows.length_le (List.prefix_refl _)⟩

private theorem visit_hears {ns : List Node} (h : ∀ n ∈ ns, Hearing respond respond' n)
    (path : Path) (order : List Nat) : ∀ (ts : List Task) (w : World),
    w.calls <+: (visit (actors respond ns) path order ts w).2.2.calls ∧
      (Concur respond respond' w.calls.length
        (visit (actors respond ns) path order ts w).2.2.calls →
        visit (actors respond' ns) path order ts w =
          visit (actors respond ns) path order ts w) := by
  induction order with
  | nil => exact fun ts w => ⟨List.prefix_refl _, fun _ => rfl⟩
  | cons i order ih =>
      intro ts w
      obtain ⟨hgrows, hsame⟩ := pollAt_hears h path i ts w
      obtain ⟨⟨ts₁, w₁⟩, hpoll⟩ : ∃ r, pollAt (actors respond ns) path i ts w = r :=
        ⟨_, rfl⟩
      rw [hpoll] at hgrows hsame
      rw [visit, visit, hpoll]
      dsimp only
      cases hfail : joinFailure? (actors respond ns) ts₁ with
      | some e =>
          refine ⟨hgrows, fun hconcur => ?_⟩
          rw [hsame hconcur]
          dsimp only
          rw [joinFailure?_congr respond respond', hfail]
      | none =>
          obtain ⟨hgrows', hsame'⟩ := ih ts₁ w₁
          refine ⟨hgrows.trans hgrows', fun hconcur => ?_⟩
          obtain ⟨hfirst, hrest⟩ := Hears.parts hgrows hgrows' hconcur
          rw [hsame hfirst]
          dsimp only
          rw [joinFailure?_congr respond respond', hfail]
          exact hsame' hrest

private theorem pollJoin_hears {ns : List Node}
    (h : ∀ n ∈ ns, Hearing respond respond' n) (id : Nat) (work : Work) (ids : List Nat)
    (path : Path) (order : List Nat) (ts : List Task) (w : World) :
    Hears respond respond' w
      (pollJoin respond id work ids (actors respond ns) path order ts w)
      (pollJoin respond' id work ids (actors respond' ns) path order ts w) := by
  obtain ⟨hgrows, hsame⟩ := visit_hears h path order ts w
  unfold pollJoin
  obtain ⟨⟨failure, ts₁, w₁⟩, hvisit⟩ :
      ∃ r, visit (actors respond ns) path order ts w = r := ⟨_, rfl⟩
  rw [hvisit] at hgrows hsame ⊢
  cases failure with
  | some e =>
      have hcalls : (conclude id (.error e)
          (dropFrom path 0 (actors respond ns) ts₁ w₁)).2.calls = w₁.calls := by
        rw [conclude_calls]
        exact (idles_dropFrom respond ns path 0 ts₁ w₁).2
      dsimp only
      refine ⟨by rw [hcalls]; exact hgrows, fun hconcur => ?_⟩
      rw [hcalls] at hconcur
      rw [hsame hconcur]
      dsimp only
      rw [dropFrom_congr respond respond']
  | none =>
      dsimp only
      cases hresults : results? ts₁ with
      | none =>
          refine ⟨hgrows, fun hconcur => ?_⟩
          rw [hsame hconcur]
          dsimp only
          rw [hresults]
      | some rs =>
          obtain ⟨hgrows', hsame'⟩ := act_hears respond respond' id work ids path rs w₁
          refine ⟨hgrows.trans hgrows', fun hconcur => ?_⟩
          obtain ⟨hfirst, hrest⟩ := Hears.parts hgrows hgrows' hconcur
          rw [hsame hfirst]
          dsimp only
          rw [hresults]
          exact hsame' hrest

private theorem begin_hears {ns : List Node} (h : ∀ n ∈ ns, Hearing respond respond' n)
    (id : Nat) (work : Work) (ids : List Nat) (path : Path) (w : World) :
    Hears respond respond' w (begin respond id work ids (actors respond ns) path w)
      (begin respond' id work ids (actors respond' ns) path w) := by
  unfold begin
  rw [length_actors, length_actors]
  exact pollJoin_hears h id work ids path _ _ w

private theorem pollStage_hears {ns : List Node}
    (h : ∀ n ∈ ns, Hearing respond respond' n) (id : Nat) (work : Work) (ids : List Nat)
    (path : Path) (t : Task) (w : World) :
    Hears respond respond' w
      (pollStage respond id work ids (actors respond ns) path t w)
      (pollStage respond' id work ids (actors respond' ns) path t w) := by
  cases t with
  | done r => exact .of_calls rfl
  | fresh =>
      rw [pollStage, pollStage]
      cases w.recalled? id with
      | some r => exact .of_calls rfl
      | none =>
          dsimp only
          split
          · exact .of_calls rfl
          · exact begin_hears h id work ids path (w.take id path)
  | queued =>
      rw [pollStage, pollStage]
      cases w.recalled? id with
      | some r => exact .of_calls rfl
      | none =>
          dsimp only
          split
          · exact begin_hears h id work ids path w
          · exact .of_calls rfl
  | joining ts =>
      have horder : visitOrder (actors respond' ns) path w =
          visitOrder (actors respond ns) path w := by
        rw [visitOrder, visitOrder, isNarrow, isNarrow, length_actors, length_actors]
      rw [pollStage, pollStage, horder]
      exact pollJoin_hears h id work ids path _ ts w
  | calling due outcome =>
      cases work with
      | combine c => exact .of_calls rfl
      | ask request =>
          rw [pollStage, pollStage]
          split
          · exact .of_calls (conclude_calls _ _ _)
          · exact .of_calls rfl

mutual

/-- **Hearing.**  Letting a task run depends only on the replies to its own requests. -/
theorem hearing (respond respond' : Respond) : (n : Node) → Hearing respond respond' n
  | .mk id name work inputs => by
      intro p t w
      rw [actor, actor]
      exact pollStage_hears (hearingAll respond respond' inputs) id work _ p t w

/-- The same of several stages. -/
theorem hearingAll (respond respond' : Respond) :
    (ns : List Node) → ∀ n ∈ ns, Hearing respond respond' n
  | [], _, h => by cases h
  | m :: ns, n, h => by
      rcases List.mem_cons.1 h with same | rest
      · exact same ▸ hearing respond respond' m
      · exact hearingAll respond respond' ns n rest

end

/-! ## Contexts -/

variable {root : Node} {c : Context}

theorem resume_same (w : World) :
    w.resume.turns = w.turns ∧ w.resume.memo = w.memo ∧ w.resume.calls = w.calls := by
  unfold World.resume World.advance?
  split
  · exact ⟨rfl, rfl, rfl⟩
  · cases (w.timers.map Timer.due).min? with
    | none => exact ⟨rfl, rfl, rfl⟩
    | some due => exact ⟨rfl, rfl, rfl⟩

private theorem pass_hears (respond respond' : Respond) (root : Node) (t : Task)
    (w : World) :
    Hears respond respond' w (pass respond root t w) (pass respond' root t w) := by
  obtain ⟨hgrows, hsame⟩ := hearing respond respond' root [] t { w with next := [] }
  obtain ⟨⟨t₁, w₁⟩, hpoll⟩ :
      ∃ r, (actor respond root).poll [] t { w with next := [] } = r := ⟨_, rfl⟩
  rw [hpoll] at hgrows hsame
  have hcalls : (pass respond root t w).2.calls = w₁.calls := by
    unfold pass
    rw [hpoll]
    split
    · rename_i hstep
      cases hstep
      rfl
    · rename_i hstep
      cases hstep
      exact (resume_same w₁).2.2
  refine ⟨by rw [hcalls]; exact hgrows, fun hconcur => ?_⟩
  rw [hcalls] at hconcur
  unfold pass
  rw [hpoll, hsame hconcur]

namespace Context

theorem cut_congr (respond respond' : Respond) (c : Context) :
    c.cut respond' = c.cut respond := by
  unfold cut
  cases c.current with
  | none => rfl
  | some e =>
      dsimp only
      rw [drop_congr respond respond' e.1]

theorem idles_cut (respond : Respond) (c : Context) :
    Idles c.world (c.cut respond).world := by
  unfold cut
  cases c.current with
  | none => exact ⟨rfl, rfl⟩
  | some e => exact idles_drop respond e.1 [] e.2 c.world

private theorem step_hears (respond respond' : Respond) (c : Context) (e : Event) :
    c.world.calls <+: (c.step respond e).world.calls ∧
      (Concur respond respond' c.world.calls.length (c.step respond e).world.calls →
        c.step respond' e = c.step respond e) := by
  have hcut : c.world.calls <+: (c.cut respond).world.calls :=
    ⟨[], by rw [List.append_nil, (idles_cut respond c).2]⟩
  cases e with
  | start root =>
      refine ⟨hcut, fun _ => ?_⟩
      rw [step, step, cut_congr respond respond']
  | drop =>
      refine ⟨hcut, fun _ => ?_⟩
      rw [step, step, cut_congr respond respond']
  | pass =>
      rw [step, step]
      cases c.current with
      | none => exact ⟨List.prefix_refl _, fun _ => rfl⟩
      | some e =>
          obtain ⟨hgrows, hsame⟩ := pass_hears respond respond' e.1 e.2 c.world
          refine ⟨hgrows, fun hconcur => ?_⟩
          dsimp only
          rw [hsame hconcur]

theorem after_append (respond : Respond) (c : Context) (events events' : List Event) :
    c.after respond (events ++ events') =
      (c.after respond events).after respond events' :=
  List.foldl_append

/-- What happens in a context depends only on the replies to the requests made there. -/
theorem after_hears (respond respond' : Respond) (events : List Event) : ∀ c : Context,
    c.world.calls <+: (c.after respond events).world.calls ∧
      (Concur respond respond' c.world.calls.length
        (c.after respond events).world.calls →
        c.after respond' events = c.after respond events) := by
  induction events with
  | nil => exact fun c => ⟨List.prefix_refl _, fun _ => rfl⟩
  | cons e events ih =>
      intro c
      obtain ⟨hgrows, hsame⟩ := step_hears respond respond' c e
      obtain ⟨hgrows', hsame'⟩ := ih (c.step respond e)
      refine ⟨hgrows.trans hgrows', fun hconcur => ?_⟩
      obtain ⟨hfirst, hrest⟩ := Hears.parts hgrows hgrows' hconcur
      show (c.step respond' e).after respond' events =
          (c.step respond e).after respond events
      rw [hsame hfirst, hsame' hrest]

/-- **Hindsight.**  Another backend does as well if it replies the same to the requests
made. -/
theorem after_congr {events : List Event}
    (h : Concur respond respond' c.world.calls.length
      (c.after respond events).world.calls) :
    c.after respond' events = c.after respond events :=
  (after_hears respond respond' events c).2 h

end Context

namespace Contexts

private theorem after_concat (respond : Respond) (s : Contexts)
    (events : List (Nat × Event)) (e : Nat × Event) :
    s.after respond (events ++ [e]) = (s.after respond events).step respond e :=
  List.foldl_append

/-- Calls of a context, by their numbers among all calls: the first ones as before, the
others as the context sees the backend from now on. -/
def numbering (s : Contexts) (c : Context) (number : Nat → Nat) (k : Nat) : Nat :=
  if k < c.world.calls.length then number k else k - c.world.calls.length + s.calls

/-- **Independence.**  What happens in one of several contexts is what happens in it
alone, with a backend that gives the replies which the shared one has given to it. -/
theorem after_context (respond : Respond) (events : List (Nat × Event)) (i : Nat) :
    ∃ number : Nat → Nat, (Contexts.fresh.after respond events).context i =
      Context.fresh.after (fun k => respond (number k)) (own i events) := by
  induction events using List.reverseRecOn with
  | nil => exact ⟨id, rfl⟩
  | append_singleton events e ih =>
      obtain ⟨number, hnumber⟩ := ih
      rw [after_concat]
      obtain ⟨s, hs⟩ : ∃ s, Contexts.fresh.after respond events = s := ⟨_, rfl⟩
      rw [hs] at hnumber ⊢
      by_cases hi : e.1 = i
      · subst hi
        have hown : own e.1 (events ++ [e]) = own e.1 events ++ [e.2] := by simp [own]
        obtain ⟨c, hc⟩ : ∃ c, s.context e.1 = c := ⟨_, rfl⟩
        have hstep : (s.step respond e).context e.1 =
            c.step (s.seen respond c) e.2 := by
          simp [Contexts.step, hc]
        rw [hc] at hnumber
        refine ⟨numbering s c number, ?_⟩
        -- The calls made before keep their numbers, and those of this event get them in
        -- a row.
        have hbefore : Context.fresh.after (fun k => respond (numbering s c number k))
            (own e.1 events) = c := by
          refine (Context.after_congr fun k request _ hk => ?_).trans hnumber.symm
          obtain ⟨hlt, -⟩ := List.getElem?_eq_some_iff.1 hk
          rw [← hnumber] at hlt
          rw [numbering, if_pos hlt]
        have hnow : c.step (fun k => respond (numbering s c number k)) e.2 =
            c.step (s.seen respond c) e.2 := by
          refine (Context.step_hears _ _ c e.2).2 fun k request hk _ => ?_
          rw [numbering, if_neg (Nat.not_lt.2 hk)]
          rfl
        rw [hstep, hown, Context.after_append, hbefore, ← hnow]
        rfl
      · have hown : own i (events ++ [e]) = own i events := by simp [own, hi]
        refine ⟨number, ?_⟩
        rw [hown, ← hnumber, Contexts.step]
        dsimp only
        rw [if_neg (Ne.symm hi)]

end Contexts

end SeriesQuery.Execution
