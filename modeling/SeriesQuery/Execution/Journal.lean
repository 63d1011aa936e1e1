import SeriesQuery.Execution.Context

/-!
# Journals

A run without a deadline can be told pass by pass: at which moment the pass is made, the
requests that are made in it, and the requests whose replies come in.
-/

namespace SeriesQuery.Execution

open SeriesQuery.Backend (Request)

/-- What a pass does, and when. -/
structure Entry where
  moment : Nat
  calls : List Request
  finished : List Request

/-- What the next passes of a run do. -/
def journal (respond : Respond) (root : Node) : Nat → Task → World → List Entry
  | 0, _, _ => []
  | passes + 1, t, w =>
    let (t', w') := pass respond root t w
    ⟨w.now, w'.calls.drop w.calls.length, w'.finished.drop w.finished.length⟩ ::
      journal respond root passes t' w'

/-- The entries of a journal up to some moment. -/
def entriesBy (moment : Nat) (es : List Entry) : List Entry :=
  es.filter fun e => e.moment ≤ moment

end SeriesQuery.Execution
