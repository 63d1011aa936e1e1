import SeriesQuery.Plan.Node

/-!
# The order of a plan's stages

A walk through a plan goes into the inputs of a stage in their declared order before it
is done with the stage itself, and into no stage twice.  The order in which it is done
with the stages is the order in which a plan asks the backend.
-/

namespace SeriesQuery

open SeriesQuery.Backend (Request)

namespace Node

mutual

/-- Stages in the order in which a walk is done with them, after some that it is done
with already: the inputs of a stage in their declared order, then the stage, each number
once. -/
def walk (done : List Node) : Node → List Node
  | mk i name work inputs =>
    if done.any fun m => m.id == i then done
    else walkAll done inputs ++ [mk i name work inputs]

/-- The same for several stages, one after the other. -/
def walkAll (done : List Node) : List Node → List Node
  | [] => done
  | n :: ns => walkAll (walk done n) ns

end

/-- All stages that a stage needs, in the order of the walk. -/
def inOrder (n : Node) : List Node := n.walk []

end Node

/-- The requests of those stages that ask the backend. -/
def requestsOf (ns : List Node) : List Request := ns.filterMap fun n => n.work.request?

/-- The requests that the description of a plan lists. -/
def Plan.requests (p : Plan) : List Request :=
  p.describe.stages.filterMap fun e => e.work.request?

end SeriesQuery
