import Bulletin.Json.Decode
import Bulletin.Query.Execute

/-!
# The engine

How the engine is set up: which connectors it has, whether a trigger waits for the end of its run,
how often the schedules are looked at, and how many rows a chart carries at most.
-/

namespace Bulletin

structure EngineConfig where
  awaitCompletion : Bool
  schedulerTickSecs : UInt64
  /-- zero for no bound -/
  maxChartPoints : UInt64
deriving DecidableEq

namespace EngineConfig

def standard : EngineConfig := ⟨false, 60, 0⟩

def toJson (config : EngineConfig) : Json :=
  .object [("await_completion", .bool config.awaitCompletion),
    ("scheduler_tick_secs", .nat config.schedulerTickSecs.toNat),
    ("max_chart_points", .nat config.maxChartPoints.toNat)]

def ofDraft? (v : Draft) : Option EngineConfig := do
  match ← v.slots? [["await_completion"], ["scheduler_tick_secs"], ["max_chart_points"]] with
  | [await, tick, points] =>
    return {
      awaitCompletion := ← await.orElse standard.awaitCompletion Draft.readBool?
      schedulerTickSecs := ← tick.orElse standard.schedulerTickSecs Draft.readWord64?
      maxChartPoints := ← points.orElse standard.maxChartPoints Draft.readWord64? }
  | _ => none

/-- The most rows that a chart carries. -/
def chartCap (config : EngineConfig) : Option Nat :=
  if config.maxChartPoints = 0 then none else some config.maxChartPoints.toNat

end EngineConfig

/-- The engine that runs reports and refreshes widgets. -/
structure Engine where
  connectors : Connectors
  config : EngineConfig
deriving DecidableEq

end Bulletin
