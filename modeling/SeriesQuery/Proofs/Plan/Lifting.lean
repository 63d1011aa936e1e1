import SeriesQuery.Proofs.Plan.Places
import SeriesQuery.Proofs.Plan.Sharing

/-!
# Folding keeps what stages mean

A plan under construction is compared with a reading of the same stages.  Several stages
may stand for one place in the plan, and folding a function into that place changes what
all of them stand for.  But a place that is folded into in place is read by no stage,
and of the stages that stand for it only the last one may still be read when every stage
reads afresh.  So every stage that may still be read stands for what it means.

## Main results

* `Matches`: a plan under construction and a reading agree on every stage that may still
  be read.
* `Matches.step`: one more stage keeps the agreement.
* `Statement.plan_meaning`: the last stage of a plan means what the last stage of its
  statement means.
-/

namespace SeriesQuery

open SeriesQuery.Backend
open SeriesQuery.Time (Instant)

private theorem Node.meanings_eq_map (ns : List Node) :
    Node.meanings ns = ns.map Node.meaning := by
  induction ns with
  | nil => rw [Node.meanings, List.map_nil]
  | cons n ns ih => rw [Node.meanings, List.map_cons, ih]

private theorem Node.meaning_mk (i : Nat) (name : Option String) (work : Work)
    (inputs : List Node) :
    (Node.mk i name work inputs).meaning = .mk work (inputs.map Node.meaning) := by
  rw [Node.meaning, Node.meanings_eq_map]

namespace Stages

variable {ss : List Stage}

/-- A stage is spent at `n` when a stage before `n` has put a function over it. -/
def Spent (ss : List Stage) (n j : Nat) : Prop := ∃ k, k < n ∧ PutOver ss k j

private theorem Spent.succ {n j : Nat} (h : Spent ss n j) : Spent ss (n + 1) j := by
  obtain ⟨k, hk, hover⟩ := h
  exact ⟨k, by omega, hover⟩

private theorem PutOver.spent {n j : Nat} (h : PutOver ss n j) : Spent ss (n + 1) j :=
  ⟨n, Nat.lt_succ_self n, h⟩

/-- Where every stage reads afresh, what a stage reads is not spent. -/
theorem ReadAfresh.not_spent (h : ReadAfresh ss) {n j : Nat} (hj : j ∈ reads ss n) :
    ¬ Spent ss n j := by
  rintro ⟨k, hk, hover⟩
  exact h k j n hover hk hj

/-- The stage read last is not spent. -/
theorem not_spent_last {n : Nat} : ¬ Spent ss n (n - 1) ∨ n = 0 := by
  rcases Nat.eq_zero_or_pos n with hn | hn
  · exact Or.inr hn
  · left
    rintro ⟨k, hk, s, a, -, -, -, hreads, -⟩
    have hlt : n - 1 < k := lt_of_mem_reads (by rw [hreads]; simp)
    omega

/-- The check is sound: nothing is read again when it passes. -/
theorem readAfresh_of_isReadAfresh (h : isReadAfresh ss = true) : ReadAfresh ss := by
  rintro k j l ⟨s, a, hs, ha, hname, hreads, -⟩ hkl hj
  have hl : l < ss.length := by
    by_cases hl : l < ss.length
    · exact hl
    · have hnone : ss[l]? = none := List.getElem?_eq_none (Nat.le_of_not_lt hl)
      simp [reads, hnone] at hj
  have hk := List.all_eq_true.1 (List.all_eq_true.1 h l (List.mem_range.2 hl)) k
    (List.mem_range.2 hkl)
  have hfun : isFunction ss k = true := by simp [isFunction, hs, ha, hname]
  simp [hfun, hreads] at hk
  exact hk hj

end Stages

namespace Binding

open Stages

variable {combiners : Combiners} {now : Instant} {b b' : Binding} {s : Stage}

/-! ## Requests read nothing -/

/-- A request reads no stage. -/
def Leaf (b : Binding) : Prop :=
  ∀ (i : Nat) (d : DraftNode) (r : Request),
    b.nodes[i]? = some d → d.work = .ask r → d.inputs = []

theorem Leaf.grow (hb : b.Leaf) {work : Work} {inputs : List Nat}
    (h : ∀ r, work = .ask r → inputs = []) : (b.grow s work inputs).Leaf := by
  intro i d r hd hask
  simp only [Binding.grow, List.getElem?_append] at hd
  split at hd
  · exact hb i d r hd hask
  · have hlast := List.mem_singleton.1 (List.mem_of_getElem? hd)
    subst hlast
    exact h r hask

theorem Leaf.fold (hb : b.Leaf) {i : Nat} {r r' : Request}
    (hi : b.work? i = some (.ask r)) : (b.fold s i r').Leaf := by
  intro j d r'' hd hask
  rw [getElem?_fold] at hd
  obtain ⟨e, he, rfl⟩ := Option.map_eq_some_iff.1 hd
  by_cases hj : i = j
  · subst hj
    rw [work?, he] at hi
    simpa using hb i e r he (Option.some.inj hi)
  · rw [if_neg hj] at hask ⊢
    exact hb j e r'' he hask

/-! ## Agreement -/

/-- What the finished stage at `i` means. -/
def meaningAt? (b : Binding) (i : Nat) : Option Meaning :=
  b.finished[i]?.map Node.meaning

/-- A plan under construction from the first `n` stages agrees with a reading of them:
`places` says for every stage where it stands, and the stages that may still be read
stand for what they mean, no two of them in one place. -/
structure Matches (ss : List Stage) (n : Nat) (b : Binding) (g : Reading)
    (places : List Nat) :
    Prop where
  ordered : b.Ordered
  leaf : b.Leaf
  range : b.range = g.range
  read : g.meanings.length = n
  placed : places.length = n
  below : ∀ (j i : Nat), places[j]? = some i → i < b.nodes.length
  names : ∀ name, b.find? name = (place? (ss.take n) name).bind fun j => places[j]?
  previous : b.previous = places.getLast?
  request : ∀ (j i : Nat) (r : Request),
    places[j]? = some i → b.work? i = some (.ask r) → IsRequest ss j
  means : ∀ (j i : Nat), places[j]? = some i → ¬ Spent ss n j →
    b.meaningAt? i = g.meanings[j]?
  sole : ∀ (j j' i : Nat), places[j]? = some i → places[j']? = some i →
    ¬ Spent ss n j → ¬ Spent ss n j' → j = j'

variable {ss : List Stage} {n : Nat} {g : Reading} {places : List Nat}

private theorem matches_start (ss : List Stage) (now : Instant) :
    Matches ss 0 (start now) (.start now) [] where
  ordered := ordered_start now
  leaf := by
    intro i d r hd
    simp [start] at hd
  range := rfl
  read := rfl
  placed := rfl
  below := by simp
  names := by
    intro name
    simp [start, find?, place?]
  previous := rfl
  request := by simp
  means := by simp
  sole := by simp

private theorem Matches.located (h : Matches ss n b g places) : Located ss n b places :=
  ⟨h.placed, h.names, h.previous⟩

/-! ## What a stage reads -/

/-- Two lists whose members correspond give the same under readings that agree on
them. -/
theorem filterMap_eq_of_map {α β γ : Type} {k : α → Option β} {p : α → Option γ}
    {q : β → Option γ} :
    ∀ {xs : List α} {ys : List β}, xs.map k = ys.map some →
      (∀ x ∈ xs, ∀ y, k x = some y → q y = p x) → xs.filterMap p = ys.filterMap q := by
  intro xs
  induction xs with
  | nil =>
      intro ys h _
      cases ys with
      | nil => rfl
      | cons y ys => simp at h
  | cons x xs ih =>
      intro ys h hagree
      cases ys with
      | nil => simp at h
      | cons y ys =>
          simp only [List.map_cons, List.cons.injEq] at h
          have hy := hagree x List.mem_cons_self y h.1
          have hrest := ih h.2 fun x' hx' => hagree x' (List.mem_cons_of_mem x hx')
          rw [List.filterMap_cons, List.filterMap_cons, hy, hrest]

/-- What an aggregation reads means what it is bound to. -/
theorem Matches.reads_meanings (h : Matches ss n b g places) (hafresh : ReadAfresh ss)
    {inputs : List Nat}
    (hreads : ((reads ss n).map fun j => places[j]?) = inputs.map some) :
    ((reads ss n).filterMap fun j => g.meanings[j]?) = inputs.filterMap b.meaningAt? :=
  filterMap_eq_of_map hreads fun j hj i hi => h.means j i hi (hafresh.not_spent hj)

/-- A single source stands in one place, and it is not spent. -/
theorem Matches.single_source (h : Matches ss n b g places) (hafresh : ReadAfresh ss)
    (hs : ss[n]? = some s) {a : Aggregation} (ha : s.body = .aggregate a) {p : Position}
    {i : Nat} (hsrc : b.sources a p = .ok [i]) :
    ∃ j, reads ss n = [j] ∧ places[j]? = some i ∧ ¬ Spent ss n j := by
  obtain ⟨j, hreads, hplace⟩ := h.located.single_source hs ha hsrc
  exact ⟨j, hreads, hplace,
    hafresh.not_spent (by rw [hreads]; exact List.mem_singleton_self j)⟩

/-! ## Meanings of finished stages -/

private theorem meaningAt?_eq (ho : b.Ordered) {i : Nat} {d : DraftNode}
    (hd : b.nodes[i]? = some d) :
    b.meaningAt? i = some (.mk d.work (d.inputs.filterMap b.meaningAt?)) := by
  rw [meaningAt?, getElem?_finished ho hd, Option.map_some, Node.meaning_mk,
    List.map_filterMap]
  rfl

/-- A place that holds a request means that request. -/
theorem meaningAt?_ask (ho : b.Ordered) (hl : b.Leaf) {i : Nat} {r : Request}
    (hr : b.work? i = some (.ask r)) : b.meaningAt? i = some (.mk (.ask r) []) := by
  obtain ⟨d, hd, hask⟩ := Option.map_eq_some_iff.1 hr
  rw [meaningAt?_eq ho hd, hask, hl i d r hd hask]
  rfl

/-- Adding a stage changes no meaning of an earlier one. -/
theorem meaningAt?_grow (ho : b.Ordered) {work : Work} {inputs : List Nat}
    (h : ∀ j ∈ inputs, j < b.nodes.length) {i : Nat} (hi : i < b.nodes.length) :
    (b.grow s work inputs).meaningAt? i = b.meaningAt? i := by
  have ho' : (b.grow s work inputs).Ordered := ho.grow h
  have hsame := finished_agree ho ho' (S := fun _ => True)
    (fun _ _ _ _ _ _ => trivial) (fun j d _ hd => getElem?_grow hd) i trivial hi
  rw [meaningAt?, meaningAt?, hsame]

/-- Folding into an unread place changes no meaning elsewhere. -/
theorem meaningAt?_fold (ho : b.Ordered) {i k : Nat} {r : Request}
    (hk : k < b.nodes.length) (hread : b.isRead k = false) (hi : i < b.nodes.length)
    (hne : i ≠ k) :
    (b.fold s k r).meaningAt? i = b.meaningAt? i := by
  have hclosed : ∀ (x : Nat) (d : DraftNode), x ≠ k → b.nodes[x]? = some d →
      ∀ j ∈ d.inputs, j ≠ k := by
    rintro x d - hd j hj rfl
    have hany : b.isRead j = true := by
      simp only [isRead, List.any_eq_true]
      exact ⟨d, List.mem_of_getElem? hd, by simpa using hj⟩
    rw [hany] at hread
    cases hread
  have hkept : ∀ (x : Nat) (d : DraftNode), x ≠ k → b.nodes[x]? = some d →
      (b.fold s k r).nodes[x]? = some d := by
    intro x d hx hd
    rw [getElem?_fold, hd, Option.map_some, if_neg (Ne.symm hx)]
  have hsame := finished_agree ho (ho.fold (s := s) (r := r) hk) (S := fun x => x ≠ k)
    hclosed hkept i hne hi
  rw [meaningAt?, meaningAt?, hsame]

/-! ## One more stage -/

private theorem Matches.warn (h : Matches ss n b g places) (ws : List String) :
    Matches ss n (b.warn ws) g places :=
  ⟨h.ordered.warn ws, h.leaf, h.range, h.read, h.placed, h.below, h.names,
    h.previous, h.request, h.means, h.sole⟩

private theorem Matches.setRange (h : Matches ss n b g places) (range : Range) :
    Matches ss n { b with range := range } { g with range := range } places :=
  ⟨h.ordered.range range, h.leaf, rfl, h.read, h.placed, h.below, h.names,
    h.previous, h.request, h.means, h.sole⟩

/-- Adding a stage keeps the agreement. -/
theorem Matches.grow (h : Matches ss n b g places) (hs : ss[n]? = some s)
    (hnew : ∀ m, s.binding = some m → b.find? m = none) {work : Work}
    {inputs : List Nat} (hinputs : ∀ j ∈ inputs, j < b.nodes.length)
    (hask : ∀ r, work = .ask r → inputs = [] ∧ IsRequest ss n) :
    Matches ss (n + 1) (b.grow s work inputs)
      { g with meanings := g.meanings ++ [.mk work (inputs.filterMap b.meaningAt?)] }
      (places ++ [b.nodes.length]) where
  ordered := h.ordered.grow hinputs
  leaf := h.leaf.grow fun r hr => (hask r hr).1
  range := h.range
  read := by simp [h.read]
  placed := by simp [h.placed]
  below := by
    intro j i hj
    rw [length_grow]
    rcases getElem?_concat_cases hj with ⟨-, hj⟩ | ⟨-, rfl⟩
    · have := h.below j i hj
      omega
    · omega
  names := fun name => h.located.names_next hs hnew b.nodes.length name
  previous := by simp [Binding.grow]
  request := by
    intro j i r hj hr
    rcases getElem?_concat_cases hj with ⟨-, hj⟩ | ⟨hend, rfl⟩
    · have hi := h.below j i hj
      rw [work?_grow hi] at hr
      exact h.request j i r hj hr
    · rw [work?_grow_last] at hr
      rw [hend, h.placed]
      exact (hask r (Option.some.inj hr)).2
  means := by
    intro j i hj hspent
    rcases getElem?_concat_cases hj with ⟨hlt, hj⟩ | ⟨hend, rfl⟩
    · rw [meaningAt?_grow h.ordered hinputs (h.below j i hj),
        h.means j i hj fun hsp => hspent hsp.succ,
        List.getElem?_append_left (by rw [h.read, ← h.placed]; exact hlt)]
    · have hsame : inputs.filterMap (b.grow s work inputs).meaningAt? =
          inputs.filterMap b.meaningAt? :=
        List.filterMap_congr fun k hk =>
          meaningAt?_grow h.ordered hinputs (hinputs k hk)
      rw [meaningAt?_eq (h.ordered.grow hinputs) getElem?_grow_last, hsame, hend,
        h.placed, ← h.read, List.getElem?_concat_length]
  sole := by
    intro j j' i hj hj' hspent hspent'
    rcases getElem?_concat_cases hj with ⟨-, hj⟩ | ⟨hend, rfl⟩ <;>
      rcases getElem?_concat_cases hj' with ⟨-, hj'⟩ | ⟨hend', hi⟩
    · exact h.sole j j' i hj hj' (fun hsp => hspent hsp.succ) fun hsp =>
        hspent' hsp.succ
    · have := h.below j i hj
      omega
    · have := h.below j' _ hj'
      omega
    · omega

/-- Folding into an unread place over a stage that may be read keeps the agreement: of
the stages in that place only the new one may still be read. -/
theorem Matches.fold (h : Matches ss n b g places) (hs : ss[n]? = some s)
    (hnew : ∀ m, s.binding = some m → b.find? m = none) {j i : Nat} {r r' : Request}
    (hplace : places[j]? = some i) (hunspent : ¬ Spent ss n j) (hover : PutOver ss n j)
    (hwork : b.work? i = some (.ask r)) (hread : b.isRead i = false)
    (hreq : IsRequest ss n) :
    Matches ss (n + 1) (b.fold s i r')
      { g with meanings := g.meanings ++ [.mk (.ask r') []] } (places ++ [i]) := by
  have hi := h.below j i hplace
  have hnot : ∀ k, places[k]? = some i → Spent ss (n + 1) k := by
    intro k hk
    by_cases hspent : Spent ss n k
    · exact hspent.succ
    · rw [h.sole k j i hk hplace hspent hunspent]
      exact hover.spent
  have hfold : (b.fold s i r').work? i = some (.ask r') := work?_fold_self hi
  exact
    { ordered := h.ordered.fold hi
      leaf := h.leaf.fold hwork
      range := h.range
      read := by simp [h.read]
      placed := by simp [h.placed]
      below := by
        intro k x hk
        rw [length_fold]
        rcases getElem?_concat_cases hk with ⟨-, hk⟩ | ⟨-, rfl⟩
        · exact h.below k x hk
        · exact hi
      names := fun name => h.located.names_next hs hnew i name
      previous := by simp [Binding.fold]
      request := by
        intro k x r'' hk hr
        rcases getElem?_concat_cases hk with ⟨-, hk⟩ | ⟨hend, -⟩
        · by_cases hx : x = i
          · exact h.request k x r hk (by rw [hx, hwork])
          · rw [work?_fold_of_ne hx] at hr
            exact h.request k x r'' hk hr
        · rwa [hend, h.placed]
      means := by
        intro k x hk hspent
        rcases getElem?_concat_cases hk with ⟨hlt, hold⟩ | ⟨hend, rfl⟩
        · have hx : x ≠ i := by
            rintro rfl
            exact hspent (hnot k hold)
          rw [meaningAt?_fold h.ordered hi hread (h.below k x hold) hx,
            h.means k x hold fun hsp => hspent hsp.succ,
            List.getElem?_append_left (by rw [h.read, ← h.placed]; exact hlt)]
        · rw [meaningAt?_ask (h.ordered.fold hi) (h.leaf.fold hwork) hfold, hend,
            h.placed, ← h.read, List.getElem?_concat_length]
      sole := by
        intro k k' x hk hk' hspent hspent'
        rcases getElem?_concat_cases hk with ⟨-, hold⟩ | ⟨hend, rfl⟩ <;>
          rcases getElem?_concat_cases hk' with ⟨-, hold'⟩ | ⟨hend', hx⟩
        · exact h.sole k k' x hold hold' (fun hsp => hspent hsp.succ) fun hsp =>
            hspent' hsp.succ
        · subst hx
          exact absurd (hnot k hold) hspent
        · exact absurd (hnot k' hold') hspent'
        · omega }

/-- Places that hold no single request mean no single request. -/
theorem single?_eq_none (ho : b.Ordered) {inputs : List Nat}
    (hinputs : ∀ j ∈ inputs, j < b.nodes.length) (h : b.requestAmong? inputs = none) :
    Meaning.single? (inputs.filterMap b.meaningAt?) = none := by
  have hmeans : ∀ j ∈ inputs, ∃ d ms, b.nodes[j]? = some d ∧
      b.meaningAt? j = some (.mk d.work ms) := fun j hj =>
    ⟨_, _, List.getElem?_eq_getElem (hinputs j hj),
      meaningAt?_eq ho (List.getElem?_eq_getElem (hinputs j hj))⟩
  match inputs with
  | [] => rfl
  | [i] =>
      obtain ⟨d, ms, hd, hm⟩ := hmeans i (List.mem_singleton_self i)
      rw [List.filterMap_cons, hm, List.filterMap_nil, Meaning.single?,
        Meaning.request?]
      simpa [requestAmong?, work?, hd] using h
  | i :: j :: is =>
      obtain ⟨d, ms, -, hm⟩ := hmeans i List.mem_cons_self
      obtain ⟨e, ns, -, hn⟩ := hmeans j (List.mem_cons_of_mem i List.mem_cons_self)
      rw [List.filterMap_cons, hm, List.filterMap_cons, hn]
      rfl

/-- **Step.**  One more stage can be read, and keeps the agreement. -/
theorem Matches.step (h : Matches ss n b g places) (hafresh : ReadAfresh ss)
    (hs : ss[n]? = some s) (hnew : ∀ m, s.binding = some m → b.find? m = none)
    (hb : Binds combiners now b s b') :
    ∃ g' places', Reading.next combiners now ss g s = some g' ∧
      Matches ss (n + 1) b' g' places' := by
  have hnil : ∀ j ∈ ([] : List Nat), j < b.nodes.length := by simp
  cases hb with
  | request x range hbody hrange =>
      refine ⟨_, _, ?_, (h.setRange range).grow hs hnew hnil
        fun r _ => ⟨rfl, .select hs hbody⟩⟩
      rw [h.range, rangeAfter_eq_ok] at hrange
      simp only [Reading.next, hbody, hrange, requestOf_eq]
      rfl
  | folded a d i r hbody hname hsrc hwork hd hread =>
      obtain ⟨j, hreads, hplace, hunspent⟩ := h.single_source hafresh hs hbody hsrc
      have hreq := h.request j i r hplace hwork
      have hover : PutOver ss n j := ⟨s, a, hs, hbody, hname, hreads, hreq⟩
      refine ⟨_, _, ?_,
        (h.warn d.warnings).fold hs hnew hplace hunspent hover hwork hread
        (.function hs hbody hname hreads hreq)⟩
      have hmeaning := h.means j i hplace hunspent
      rw [meaningAt?_ask h.ordered h.leaf hwork] at hmeaning
      simp [Reading.next, hbody, h.read, hreads, ← hmeaning, Aggregation.meaning?,
        hname, Meaning.single?, Meaning.request?, Work.request?, hd, aggregated_eq]
  | copied a d i r hbody hname hsrc hwork hd hread =>
      obtain ⟨j, hreads, hplace, hunspent⟩ := h.single_source hafresh hs hbody hsrc
      have hreq := h.request j i r hplace hwork
      refine ⟨_, _, ?_, (h.warn d.warnings).grow hs hnew hnil
        fun r _ => ⟨rfl, .function hs hbody hname hreads hreq⟩⟩
      have hmeaning := h.means j i hplace hunspent
      rw [meaningAt?_ask h.ordered h.leaf hwork] at hmeaning
      simp [Reading.next, hbody, h.read, hreads, ← hmeaning, Aggregation.meaning?,
        hname, Meaning.single?, Meaning.request?, Work.request?, hd, aggregated_eq]
  | combined a d inputs hbody hsrc hnone hd =>
      have hreads := h.reads_meanings hafresh (h.located.reads_places hs hbody hsrc)
      have hinputs := h.ordered.sources hsrc
      refine ⟨_, _, ?_, (h.warn d.warnings).grow hs hnew hinputs (by simp)⟩
      have hsingle : (if isBackendFunction a.name then
          Meaning.single? (inputs.filterMap b.meaningAt?) else none) = none := by
        by_cases hname : isBackendFunction a.name = true
        · rw [if_pos hname, single?_eq_none h.ordered hinputs (hnone hname)]
        · rw [if_neg hname]
      simp only [Reading.next, hbody, h.read, hreads, Aggregation.meaning?, hsingle, hd,
        Option.map_some]
      rfl

/-! ## Statements -/

/-- **Run.**  Stages that bind can be read, and what is bound agrees with what is
read. -/
theorem Matches.run (hafresh : ReadAfresh ss) :
    ∀ {rest : List Stage} {n : Nat} {b : Binding} {g : Reading} {places : List Nat},
      Matches ss n b g places → (∀ k, rest[k]? = ss[n + k]?) →
      bindMore combiners now b rest = .ok b' →
      ∃ g' places', rest.foldlM (Reading.next combiners now ss) g = some g' ∧
        Matches ss (n + rest.length) b' g' places' := by
  intro rest
  induction rest with
  | nil =>
      intro n b g places h _ hb
      cases hb
      exact ⟨g, places, rfl, h⟩
  | cons s rest ih =>
      intro n b g places h hrest hb
      obtain ⟨c, hc, hb⟩ := bindMore_cons_ok hb
      obtain ⟨hnew, hbinds⟩ := bindStage_binds hc
      have hs : ss[n]? = some s := (hrest 0).symm
      obtain ⟨g', places', hg', h'⟩ := h.step hafresh hs hnew hbinds
      have hshift : ∀ k, rest[k]? = ss[n + 1 + k]? := by
        intro k
        rw [show n + 1 + k = n + (k + 1) by omega, ← hrest (k + 1),
          List.getElem?_cons_succ]
      obtain ⟨g'', places'', hg'', h''⟩ := ih h' hshift hb
      refine ⟨g'', places'', ?_, ?_⟩
      · rw [List.foldlM_cons, hg']
        exact hg''
      · rw [List.length_cons, show n + (rest.length + 1) = n + 1 + rest.length by omega]
        exact h''

end Binding

/-- **Folding keeps meanings.**  When a statement has a plan and no stage reads again
what an earlier stage has put a function of the backend over, the last stage of the
plan, numbers and names forgotten, is what the last stage of the statement means. -/
theorem Statement.plan_meaning (combiners : Combiners) (now : Instant) (s : Statement)
    (p : Plan) (h : s.plan combiners now = .ok p)
    (hafresh : Stages.ReadAfresh s.stages) :
    s.meaning? combiners now = some p.terminal.meaning := by
  obtain ⟨b, i, hb, hi, hn, -, -⟩ := Binding.plan_eq_ok h
  obtain ⟨g, places, hg, hmatch⟩ :=
    (Binding.matches_start s.stages now).run hafresh (fun k => by rw [Nat.zero_add]) hb
  rw [Nat.zero_add] at hmatch
  have hlast : places[s.stages.length - 1]? = some i := by
    rw [← hmatch.placed, ← List.getLast?_eq_getElem?, ← hmatch.previous, hi]
  have hunspent : ¬ Stages.Spent s.stages s.stages.length (s.stages.length - 1) := by
    rcases Stages.not_spent_last with hsp | hzero
    · exact hsp
    · rw [hzero] at hlast
      have hnil := hmatch.placed
      rw [hzero] at hnil
      rw [List.eq_nil_of_length_eq_zero hnil] at hlast
      cases hlast
  have hmeans := hmatch.means _ i hlast hunspent
  rw [Binding.meaningAt?, hn, Option.map_some, ← hmatch.read,
    ← List.getLast?_eq_getElem?] at hmeans
  rw [Statement.meaning?, hg, Option.bind_some, hmeans]

/-- One request aggregated twice, the first result shared by two combinations. -/
theorem Statement.plan_meaning_shared :
    ∃ p, Statement.plan .standard ⟨0, 0⟩
        ⟨[⟨some "a", .select ⟨"cpu", none, [], []⟩, ⟨1, 1⟩⟩,
          ⟨some "b", .aggregate ⟨"max", some ["a"], []⟩, ⟨1, 17⟩⟩,
          ⟨some "u", .aggregate ⟨"union", some ["b"], []⟩, ⟨1, 32⟩⟩,
          ⟨some "c", .aggregate ⟨"min", some ["b"], []⟩, ⟨1, 49⟩⟩,
          ⟨none, .aggregate ⟨"union", some ["u", "c"], []⟩, ⟨1, 64⟩⟩]⟩ = .ok p ∧
      Statement.meaning? .standard ⟨0, 0⟩
        ⟨[⟨some "a", .select ⟨"cpu", none, [], []⟩, ⟨1, 1⟩⟩,
          ⟨some "b", .aggregate ⟨"max", some ["a"], []⟩, ⟨1, 17⟩⟩,
          ⟨some "u", .aggregate ⟨"union", some ["b"], []⟩, ⟨1, 32⟩⟩,
          ⟨some "c", .aggregate ⟨"min", some ["b"], []⟩, ⟨1, 49⟩⟩,
          ⟨none, .aggregate ⟨"union", some ["u", "c"], []⟩, ⟨1, 64⟩⟩]⟩ =
        some p.terminal.meaning :=
  ⟨_, rfl, Statement.plan_meaning .standard ⟨0, 0⟩ _ _ rfl
    (Stages.readAfresh_of_isReadAfresh rfl)⟩

end SeriesQuery
