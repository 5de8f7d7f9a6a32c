import Bulletin.Action.Call
import Bulletin.Document.Render
import Bulletin.Engine.Config
import Bulletin.Engine.Error

/-!
# Running reports

A trigger checks the report and looks at its cache. A fresh cache is the answer. Otherwise an
execution is recorded as queued, then as running, and its run is left to the background, or waited
for.

A run queries the sources, transforms the rows, builds the charts and writes the files. Whatever
becomes of it, even a crash, the execution is recorded once more, completed or failed. Only a
success is then written to the cache, of the report as it is stored by then.
-/

namespace Bulletin

namespace Engine

/-! ## The pipeline -/

/-- What a run yields. -/
structure Output where
  payload : Json
  artifacts : List Artifact
deriving DecidableEq

/-- The payload of rows and charts. -/
def payload (rows : List Record) (charts : Fields Chart) : Json :=
  .object [("row_count", .nat rows.length), ("data", rowsJson rows),
    ("visualizations", Json.ofFields (charts.map Chart.toJson))]

/-- From the sources of a report to its files. -/
def pipeline (engine : Engine) (report : Report) (execution : ExecutionId) :
    Action EngineError Output := do
  let rows ← (Query.executeAll engine.connectors report.query.input report.sources).mapError .query
  let rows := TransformStep.applyAll rows report.query.transformations
  let charts := Chart.buildAll engine.config.chartCap rows report.charts.charts
  let artifacts ← (Document.renderAll rows charts execution report.formats).mapError .render
  return ⟨payload rows charts, artifacts⟩

/-! ## Runs -/

/-- Writes a payload to the cache of a report, as it is stored now. A report that is gone or cannot
be read or saved stays as it is. -/
def refreshCache {ε : Type} (id : ReportId) (payload : Json) : Action ε Unit := do
  match ← Action.tryCall (.get .report id) with
  | .ok (some report) =>
    let now ← Action.request .now
    let _ ← Action.tryCall
      (.save .report { report with cache := report.cache.store payload now })
  | _ => pure ()

/-- The execution with a failure. -/
def failed (execution : Execution) (e : EngineError) (now : Instant) : Execution :=
  match execution.fail e.message now with
  | .ok execution => execution
  | .error _ => execution

/-- The execution after its run has ended, with the payload for the cache. -/
def settle (execution : Execution) (ending : Ending EngineError Output) (now : Instant) :
    Execution × Option Json :=
  match ending with
  | .value output =>
    match execution.complete output.payload output.artifacts now with
    | .ok execution => (execution, some output.payload)
    | .error _ => (execution, none)
  | .error e => (failed execution e now, none)
  | .crash c => (failed execution (.execution c.message) now, none)

/-- Runs a report for an execution, and gives the final execution. -/
def conduct {ε : Type} (engine : Engine) (report : Report) (execution : Execution) :
    Action ε Execution := do
  let ending ← (engine.pipeline report execution.id).ending
  let now ← Action.request .now
  let (execution, cachePayload) := settle execution ending now
  let _ ← Action.tryCall (.save .execution execution)
  match cachePayload with
  | some payload => refreshCache report.id payload
  | none => pure ()
  return execution

/-! ## Triggers -/

/-- A trigger up to the run. -/
inductive Begun where
  /-- answered from the cache -/
  | served (execution : Execution)
  /-- recorded as running -/
  | started (report : Report) (execution : Execution)

/-- Checks a report and answers from its cache or records a running execution. -/
def start (id : ReportId) (trigger : Trigger) : Action EngineError Begun := do
  match ← Action.call .storage (.get .report id) with
  | none => .fail (.notFound "report" id.display)
  | some report =>
    Action.ofExcept (report.validate.mapError EngineError.ofDomain)
    let now ← Action.request .now
    match ← Action.inCalendar (report.cache.fresh now) with
    | some payload =>
      let fresh ← Action.request .freshId
      let execution := Execution.cached ⟨fresh⟩ report.id payload now
      Action.call .storage (.save .execution execution)
      return .served execution
    | none =>
      let fresh ← Action.request .freshId
      let execution := Execution.queued ⟨fresh⟩ report.id trigger now
      Action.call .storage (.save .execution execution)
      let now ← Action.request .now
      let execution ← Action.ofExcept ((execution.start now).mapError EngineError.ofDomain)
      Action.call .storage (.save .execution execution)
      return .started report execution

/-- What a trigger gives to its caller. -/
inductive Triggered where
  /-- an execution that has come to its end -/
  | finished (execution : Execution)
  /-- an execution that goes on in the background -/
  | launched (execution : Execution)

/-- The execution as it was when the trigger came to its end. -/
def Triggered.execution : Triggered → Execution
  | .finished execution => execution
  | .launched execution => execution

/-- Whether nothing is left in the background. -/
def Triggered.isFinished : Triggered → Bool
  | .finished _ => true
  | .launched _ => false

/-- Triggers a report; the run goes to the background unless the engine waits for runs. -/
def trigger (engine : Engine) (id : ReportId) (trigger : Trigger) :
    Action EngineError Triggered := do
  match ← start id trigger with
  | .served execution => return .finished execution
  | .started report execution =>
    if engine.config.awaitCompletion then
      return .finished (← engine.conduct report execution)
    else
      Action.request (.launch report execution)
      return .launched execution

/-- Triggers a report and waits for the final execution. -/
def run (engine : Engine) (id : ReportId) (trigger : Trigger) :
    Action EngineError Execution := do
  match ← start id trigger with
  | .served execution => return execution
  | .started report execution => engine.conduct report execution

end Engine

end Bulletin
