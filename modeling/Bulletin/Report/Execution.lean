import Bulletin.Ident
import Bulletin.Instant
import Bulletin.Artifact.Basic

/-!
# Executions

An execution is one run of a report. It is queued, runs, and ends completed or failed; it may
also fail while it is still queued. An answer from the cache is an execution that is completed
from the start and took no time. Nothing leads to the state `cancelled`, which is kept for
records that have it.

The three steps `start`, `complete` and `fail` give the next record or say why there is none.
-/

namespace Bulletin

/-! ## States -/

inductive ExecutionStatus where
  | queued
  | running
  | completed
  | failed
  | cancelled
deriving DecidableEq

namespace ExecutionStatus

def name : ExecutionStatus → String
  | .queued => "QUEUED"
  | .running => "RUNNING"
  | .completed => "COMPLETED"
  | .failed => "FAILED"
  | .cancelled => "CANCELLED"

def ofName? : String → Option ExecutionStatus
  | "QUEUED" => some .queued
  | "RUNNING" => some .running
  | "COMPLETED" => some .completed
  | "FAILED" => some .failed
  | "CANCELLED" => some .cancelled
  | _ => none

/-- Whether the execution can no longer change. -/
def terminal : ExecutionStatus → Bool
  | .completed | .failed | .cancelled => true
  | .queued | .running => false

def toJson (status : ExecutionStatus) : Json := .string status.name

def ofDraft? (v : Draft) : Option ExecutionStatus := v.variant?.bind ofName?

end ExecutionStatus

/-- What started an execution. -/
inductive Trigger where
  | manual
  | scheduled
  | api
  | cached
deriving DecidableEq

namespace Trigger

def name : Trigger → String
  | .manual => "manual"
  | .scheduled => "scheduled"
  | .api => "api"
  | .cached => "cached"

def ofName? : String → Option Trigger
  | "manual" => some .manual
  | "scheduled" => some .scheduled
  | "api" => some .api
  | "cached" => some .cached
  | _ => none

def toJson (trigger : Trigger) : Json := .string trigger.name

def ofDraft? (v : Draft) : Option Trigger := v.variant?.bind ofName?

end Trigger

/-! ## Records -/

/-- One run of a report. -/
structure Execution where
  id : ExecutionId
  reportId : ReportId
  status : ExecutionStatus
  trigger : Trigger
  createdAt : Instant
  startedAt : Option Instant
  completedAt : Option Instant
  durationMs : Option UInt64
  payload : Option Json
  artifacts : List Artifact
  error : Option String
deriving DecidableEq

namespace Execution

def toJson (e : Execution) : Json :=
  .object [("id", e.id.toJson), ("report_id", e.reportId.toJson), ("status", e.status.toJson),
    ("trigger_type", e.trigger.toJson), ("created_at", e.createdAt.toJson),
    ("started_at", Json.ofOption Instant.toJson e.startedAt),
    ("completed_at", Json.ofOption Instant.toJson e.completedAt),
    ("duration_ms", Json.ofOption (fun n => .nat (UInt64.toNat n)) e.durationMs),
    ("result_payload", Json.ofOption (fun v => v) e.payload),
    ("output_artifacts", .array (e.artifacts.map Artifact.toJson)),
    ("error", Json.ofOption .string e.error)]

def ofDraft? (v : Draft) : Option Execution := do
  match ← v.slots? [["id"], ["report_id"], ["status"], ["trigger_type"], ["created_at"],
    ["started_at"], ["completed_at"], ["duration_ms"], ["result_payload"], ["output_artifacts"],
    ["error"]] with
  | [id, reportId, status, trigger, created, started, completed, duration, payload, artifacts,
      error] =>
    return {
      id := ← id.required Id.ofDraft?
      reportId := ← reportId.required Id.ofDraft?
      status := ← status.required ExecutionStatus.ofDraft?
      trigger := ← trigger.required Trigger.ofDraft?
      createdAt := ← created.required Instant.ofDraft?
      startedAt := ← started.optional Instant.ofDraft?
      completedAt := ← completed.optional Instant.ofDraft?
      durationMs := ← duration.optional Draft.readWord64?
      payload := ← payload.optional Draft.readAny?
      artifacts := ← artifacts.orElse [] (Draft.readList? Artifact.ofDraft?)
      error := ← error.optional Draft.readString? }
  | _ => none

/-- A new execution. -/
def queued (id : ExecutionId) (reportId : ReportId) (trigger : Trigger) (now : Instant) :
    Execution :=
  { id, reportId, status := .queued, trigger, createdAt := now, startedAt := none,
    completedAt := none, durationMs := none, payload := none, artifacts := [], error := none }

/-- An execution answered from the cache. -/
def cached (id : ExecutionId) (reportId : ReportId) (payload : Json) (now : Instant) : Execution :=
  { queued id reportId .cached now with
    status := .completed
    startedAt := some now
    completedAt := some now
    durationMs := some 0
    payload := some payload }

/-! ## Steps -/

/-- The refusal of a step. -/
def refused (e : Execution) (next : ExecutionStatus) : DomainError :=
  .validation "status"
    ("cannot move execution " ++ e.id.display ++ " from " ++ e.status.name ++ " to " ++ next.name)

/-- Sets the end and the duration, counted from the start or else from the creation. -/
def finish (e : Execution) (now : Instant) : Execution :=
  { e with
    completedAt := some now
    durationMs := some (UInt64.ofNat (Instant.elapsedMillis (e.startedAt.getD e.createdAt) now)) }

/-- A queued execution starts to run. -/
def start (e : Execution) (now : Instant) : Except DomainError Execution :=
  if e.status = .queued then .ok { e with status := .running, startedAt := some now }
  else .error (e.refused .running)

/-- A running execution completes with a payload and artifacts. -/
def complete (e : Execution) (payload : Json) (artifacts : List Artifact) (now : Instant) :
    Except DomainError Execution :=
  if e.status = .running then
    .ok (finish { e with status := .completed, payload := some payload, artifacts } now)
  else .error (e.refused .completed)

/-- An execution that has not ended fails with a message. -/
def fail (e : Execution) (message : String) (now : Instant) : Except DomainError Execution :=
  if e.status.terminal then .error (e.refused .failed)
  else .ok (finish { e with status := .failed, error := some message } now)

end Execution

end Bulletin
