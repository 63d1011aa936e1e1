import SeriesQuery.Command.Help
import SeriesQuery.Plan.Node

/-!
# Results and plans as tables

A result is shown series by series, each point on a line of its own, and then its alerts
and errors.  A plan is shown stage by stage, with the request of a stage below it.
-/

namespace SeriesQuery.Command

open SeriesQuery.Backend (Block Series Point)

/-- A time and what goes with it. -/
def timeLine (time : Time.Instant) (what : String) : String :=
  leftAligned 25 time.tableText ++ " " ++ what

/-- A series; one without a name is called after the place of its block. -/
def seriesLines (place : Nat) (s : Series) : List String :=
  ("== " ++ s.name?.getD s!"query {place}" ++ " ==") ::
    if s.points.isEmpty then ["(no datapoints)"]
    else s.points.map fun p => timeLine p.time p.value.compact

/-- A result. -/
def resultLines (r : SeriesResult) : List String :=
  (if r.response.blocks.isEmpty then ["No data"] else []) ++
  (r.response.blocks.zipIdx.flatMap fun (b, i) => b.series.flatMap (seriesLines i)) ++
  (if r.alerts.isEmpty then []
    else "" :: "Alerts:" ::
      r.alerts.map fun a => timeLine a.time (Decimal.messageText a.value)) ++
  r.errors.map fun e => s!"error: {e}"

/-- A stage of a plan. -/
def stageLines (e : StageEntry) : List String :=
  let inputs := ", ".intercalate (e.inputs.map fun i => s!"#{i}")
  (leftAligned 6 s!"#{e.id}" ++ " " ++ leftAligned 12 (e.name.getD "-") ++ " " ++
    leftAligned 10 e.work.text ++ " " ++ inputs) ::
    (e.work.request?.map fun r => "       " ++ r.toJson.compact).toList

/-- A plan. -/
def planLines (d : PlanDescription) : List String :=
  [leftAligned 6 "Id" ++ " " ++ leftAligned 12 "Name" ++ " " ++
    leftAligned 10 "Kind" ++ " " ++ "Depends on",
    String.ofList (List.replicate 50 '-')] ++
  d.stages.flatMap stageLines ++
  ["", s!"Terminal: #{d.terminal}"] ++
  d.warnings.map fun w => s!"warning: {w}"

end SeriesQuery.Command
