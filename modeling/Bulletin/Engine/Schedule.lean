import Bulletin.Engine.Run

/-!
# Scheduled reports

A tick goes through the reports and triggers those that are due. A report is looked at once more
before it is stamped, so that a report written since the listing is neither stamped twice nor
overwritten. What goes wrong with one report does not stop the others.
-/

namespace Bulletin.Engine

/-- Stamps a report that is due, if it still is. -/
def stampDue (id : ReportId) (now : Instant) : Action EngineError Bool := do
  match ← Action.tryCall (.get .report id) with
  | .ok (some report) =>
    if ← Action.inCalendar (report.due now) then
      match ← Action.tryCall (.save .report { report with lastScheduledAt := some now }) with
      | .ok () => return true
      | .error _ => return false
    else return false
  | _ => return false

/-- Triggers one listed report if it is due, and gives the execution. -/
def tickReport (engine : Engine) (now : Instant) (listed : Report) :
    Action EngineError (Option ExecutionId) := do
  if ← Action.inCalendar (listed.due now) then
    if ← stampDue listed.id now then
      match ← (engine.trigger listed.id .scheduled).result with
      | .ok triggered => return some triggered.execution.id
      | .error _ => return none
    else return none
  else return none

/-- Goes through listed reports. -/
def tickReports (engine : Engine) (now : Instant) :
    List Report → Action EngineError (List ExecutionId)
  | [] => pure []
  | listed :: rest => do
    let execution ← tickReport engine now listed
    let executions ← tickReports engine now rest
    return execution.toList ++ executions

/-- Goes through all reports, and gives the executions that it started or answered. -/
def tick (engine : Engine) : Action EngineError (List ExecutionId) := do
  let now ← Action.request .now
  let reports ← Action.call .storage (.list .report ())
  tickReports engine now reports

end Bulletin.Engine
