import Bulletin.Engine.Run
import Bulletin.Proofs.Queries
import Bulletin.Proofs.Traces

/-!
# How a report is run

A trigger goes one of four ways up to the run, and a run goes one of three. `Engine.Starts` and
`Engine.Conducts` list these ways, each with its ending, with all that was asked for, and with the
repository after it. What a trigger does in any world follows from the lists.

* `start_starts` — the four ways of a trigger, unless the end of a cache lies beyond the calendar
* `conduct_conducts` — the three ways of a run
-/

namespace Bulletin

/-! ## Work -/

/-- What a pipeline asks for: rows, and places for artifacts. -/
def Request.IsWork : Request → Prop
  | .putArtifact _ _ => True
  | request => request.IsQuery

theorem Request.IsQuery.isWork {request : Request} (h : request.IsQuery) : request.IsWork := by
  cases request <;> first | exact h | trivial

theorem not_isWork_call (c : Call) : ¬ (Request.call c).IsWork := id

/-- A file of an execution, to be written. -/
def Document.PutsFile (rows : List Record) (charts : Fields Chart) (execution : ExecutionId) :
    Request → Prop
  | .putArtifact name content => ∃ format text, filename? execution format = some name ∧
      encode? rows charts format execution = some text ∧ content = bytes text
  | _ => False

/-- Nothing is written but the files. -/
theorem asksOnly_renderAll (rows : List Record) (charts : Fields Chart) (execution : ExecutionId)
    (formats : List OutputFormat) :
    (Document.renderAll rows charts execution formats).AsksOnly
      (Document.PutsFile rows charts execution) := by
  induction formats with
  | nil => trivial
  | cons format rest ih =>
    refine Action.asksOnly_bind ?_ fun artifact => Action.asksOnly_bind ih fun _ => trivial
    unfold Document.render
    split
    · next filename text hname htext =>
      refine Action.asksOnly_bind (Action.asksOnly_request ⟨format, text, hname, htext, rfl⟩) ?_
      rintro (_ | _) <;> trivial
    · trivial

/-- A pipeline asks for rows, and for places for its files. -/
theorem asksOnly_pipeline_files (engine : Engine) (report : Report) (id : ExecutionId) :
    (engine.pipeline report id).AsksOnly fun request =>
      request.IsQuery ∨ ∃ rows charts, Document.PutsFile rows charts id request := by
  refine Action.asksOnly_bind ?_ fun rows => ?_
  · exact Action.asksOnly_mapError ((asksOnly_executeAll _ _ _).imp fun _ => .inl)
  · refine Action.asksOnly_bind (Action.asksOnly_mapError ?_) fun _ => trivial
    exact (asksOnly_renderAll _ _ _ _).imp fun _ h => .inr ⟨_, _, h⟩

/-- A pipeline calls no repository. -/
theorem asksOnly_pipeline (engine : Engine) (report : Report) (execution : ExecutionId) :
    (engine.pipeline report execution).AsksOnly Request.IsWork := by
  refine (asksOnly_pipeline_files engine report execution).imp ?_
  rintro request (hquery | ⟨rows, charts, hfile⟩)
  · exact hquery.isWork
  · cases request with
    | putArtifact => trivial
    | call | relational | dataset | api | now | freshId | notify | launch => cases hfile

/-! ## Reports and executions -/

theorem MemoryRepository.answer_get_report (r : MemoryRepository) (id : ReportId) :
    r.answer (.get .report id) = (.ok (r.reports.get? id), r) := rfl

/-- An execution that has begun. -/
def Execution.running (id : ExecutionId) (reportId : ReportId) (trigger : Trigger)
    (now begun : Instant) : Execution :=
  { queued id reportId trigger now with status := .running, startedAt := some begun }

theorem Execution.start_queued (id : ExecutionId) (reportId : ReportId) (trigger : Trigger)
    (now begun : Instant) :
    (queued id reportId trigger now).start begun = .ok (running id reportId trigger now begun) :=
  if_pos rfl

/-! ## Triggers -/

namespace Engine

variable {σ : Type}

/-- The ways of a trigger up to the run, in a world that stands at `s`. -/
inductive Starts (id : ReportId) (trigger : Trigger) (outside : World σ) (r : MemoryRepository)
    (s : σ) : Ending EngineError Begun → List Event → MemoryRepository → Prop
  /-- there is no such report -/
  | unknown (h : r.reports.get? id = none) :
    Starts id trigger outside r s (.error (.notFound "report" id.display))
      [⟨.call (.get .report id), .ok none⟩] r
  /-- the report is not valid -/
  | refused {report : Report} {e : DomainError} (h : r.reports.get? id = some report)
    (hv : report.validate = .error e) :
    Starts id trigger outside r s (.error (.ofDomain e))
      [⟨.call (.get .report id), .ok (some report)⟩] r
  /-- the cache answers -/
  | served {report : Report} {payload : Json} {now : Instant} {fresh : Uuid}
    (h : r.reports.get? id = some report) (hv : report.validate = .ok ())
    (hnow : now = (outside .now s).1) (hf : report.cache.fresh now = some (some payload))
    (hid : ∃ s, fresh = (outside .freshId s).1) :
    Starts id trigger outside r s (.value (.served (.cached ⟨fresh⟩ report.id payload now)))
      [⟨.call (.get .report id), .ok (some report)⟩, ⟨.now, now⟩, ⟨.freshId, fresh⟩,
        ⟨.call (.save .execution (.cached ⟨fresh⟩ report.id payload now)), .ok ()⟩]
      (r.put .execution (.cached ⟨fresh⟩ report.id payload now))
  /-- an execution is recorded as queued, and as running -/
  | started {report : Report} {now begun : Instant} {fresh : Uuid}
    (h : r.reports.get? id = some report) (hv : report.validate = .ok ())
    (hnow : now = (outside .now s).1) (hf : report.cache.fresh now = some none)
    (hid : ∃ s, fresh = (outside .freshId s).1) :
    Starts id trigger outside r s
      (.value (.started report (.running ⟨fresh⟩ report.id trigger now begun)))
      [⟨.call (.get .report id), .ok (some report)⟩, ⟨.now, now⟩, ⟨.freshId, fresh⟩,
        ⟨.call (.save .execution (.queued ⟨fresh⟩ report.id trigger now)), .ok ()⟩, ⟨.now, begun⟩,
        ⟨.call (.save .execution (.running ⟨fresh⟩ report.id trigger now begun)), .ok ()⟩]
      ((r.put .execution (.queued ⟨fresh⟩ report.id trigger now)).put .execution
        (.running ⟨fresh⟩ report.id trigger now begun))

/-- The end of a cache lies within the calendar. -/
theorem fresh_ne_none {cache : Cache} (h : cache.expiry ≠ none) (now : Instant) :
    cache.fresh now ≠ none := by
  unfold Cache.fresh Cache.valid
  cases hp : cache.payload with
  | none => simp
  | some payload =>
    cases he : cache.expiry with
    | none => exact absurd he h
    | some stop => simp

/-- A trigger up to the run takes one of the ways, or finds a valid report with a cache that ends
beyond the calendar. -/
theorem start_starts_or_crashes (id : ReportId) (trigger : Trigger) (outside : World σ)
    (r : MemoryRepository) (s : σ) :
    Starts id trigger outside r s
        ((start id trigger).run (MemoryRepository.world outside) (r, s)).1
        ((start id trigger).trace (MemoryRepository.world outside) (r, s))
        ((start id trigger).run (MemoryRepository.world outside) (r, s)).2.1 ∨
      ∃ report c s', r.reports.get? id = some report ∧ report.validate = .ok () ∧
        report.cache.fresh (outside .now s).1 = none ∧
        (start id trigger).run (MemoryRepository.world outside) (r, s) = (.crash c, r, s') := by
  unfold start
  rw [MemoryRepository.run_call (r.answer_get_report id),
    MemoryRepository.trace_call (r.answer_get_report id)]
  cases hr : r.reports.get? id with
  | none => exact .inl (.unknown hr)
  | some report =>
    cases hv : report.validate with
    | error e =>
      simp only [hv]
      exact .inl (.refused hr hv)
    | ok _ =>
      simp only [hv, Action.run_ofExcept_mapError_ok, Action.trace_ofExcept_mapError_ok]
      rw [MemoryRepository.run_now, MemoryRepository.trace_now]
      cases hf : report.cache.fresh (outside .now s).1 with
      | none => exact .inr ⟨report, _, _, rfl, hv, hf, rfl⟩
      | some found =>
        cases found with
        | some payload => exact .inl (.served hr hv rfl hf ⟨_, rfl⟩)
        | none => exact .inl (.started hr hv rfl hf ⟨_, rfl⟩)

theorem start_starts {id : ReportId} {trigger : Trigger} {outside : World σ}
    {r : MemoryRepository} {s : σ}
    (hcal : ∀ report, r.reports.get? id = some report → report.cache.expiry ≠ none) :
    Starts id trigger outside r s
      ((start id trigger).run (MemoryRepository.world outside) (r, s)).1
      ((start id trigger).trace (MemoryRepository.world outside) (r, s))
      ((start id trigger).run (MemoryRepository.world outside) (r, s)).2.1 := by
  rcases start_starts_or_crashes id trigger outside r s with h | ⟨report, _, _, hr, -, hf, -⟩
  · exact h
  · exact absurd hf (fresh_ne_none (hcal report hr) _)

/-! ## Runs -/

/-- The ways of a run, from the pipeline on. -/
inductive Conducts (engine : Engine) (report : Report) (execution : Execution) (outside : World σ)
    (r : MemoryRepository) (s : σ) : Execution → List Event → MemoryRepository → Prop
  /-- a success that is written to the cache -/
  | completed {output : Output} {now written : Instant} {work : List Event} {final : Execution}
    {stored : Report}
    (hp : ((engine.pipeline report execution.id).run (MemoryRepository.world outside) (r, s)).1
      = .value output)
    (hw : (engine.pipeline report execution.id).trace (MemoryRepository.world outside) (r, s)
      = work)
    (hf : execution.complete output.payload output.artifacts now = .ok final)
    (hr : r.reports.get? report.id = some stored) :
    Conducts engine report execution outside r s final
      (work ++ [⟨.now, now⟩, ⟨.call (.save .execution final), .ok ()⟩,
        ⟨.call (.get .report report.id), .ok (some stored)⟩, ⟨.now, written⟩,
        ⟨.call (.save .report
          { stored with cache := stored.cache.store output.payload written }), .ok ()⟩])
      ((r.put .execution final).put .report
        { stored with cache := stored.cache.store output.payload written })
  /-- a success of a report that is gone -/
  | orphaned {output : Output} {now : Instant} {work : List Event} {final : Execution}
    (hp : ((engine.pipeline report execution.id).run (MemoryRepository.world outside) (r, s)).1
      = .value output)
    (hw : (engine.pipeline report execution.id).trace (MemoryRepository.world outside) (r, s)
      = work)
    (hf : execution.complete output.payload output.artifacts now = .ok final)
    (hr : r.reports.get? report.id = none) :
    Conducts engine report execution outside r s final
      (work ++ [⟨.now, now⟩, ⟨.call (.save .execution final), .ok ()⟩,
        ⟨.call (.get .report report.id), .ok none⟩])
      (r.put .execution final)
  /-- an error or a crash -/
  | failed {e : EngineError} {now : Instant} {work : List Event} {final : Execution}
    (hp : ∀ output, ((engine.pipeline report execution.id).run
      (MemoryRepository.world outside) (r, s)).1 ≠ .value output)
    (hw : (engine.pipeline report execution.id).trace (MemoryRepository.world outside) (r, s)
      = work)
    (hf : execution.fail e.message now = .ok final) :
    Conducts engine report execution outside r s final
      (work ++ [⟨.now, now⟩, ⟨.call (.save .execution final), .ok ()⟩])
      (r.put .execution final)

section

variable {ε : Type} {id : ReportId} {payload : Json} {outside : World σ} {r : MemoryRepository}
  {s : σ}

/-- A report that is gone stays so. -/
theorem refreshCache_gone (h : r.reports.get? id = none) :
    (refreshCache id payload : Action ε Unit).run (MemoryRepository.world outside) (r, s)
        = (.value (), r, s) ∧
      (refreshCache id payload : Action ε Unit).trace (MemoryRepository.world outside) (r, s)
        = [⟨.call (.get .report id), .ok none⟩] := by
  have hget : r.answer (.get .report id) = (.ok none, r) := by rw [r.answer_get_report, h]
  unfold refreshCache
  rw [MemoryRepository.run_tryCall hget, MemoryRepository.trace_tryCall hget]
  exact ⟨rfl, rfl⟩

/-- A payload is written to the cache of the report as it is stored. -/
theorem refreshCache_stored {stored : Report} (h : r.reports.get? id = some stored) :
    (refreshCache id payload : Action ε Unit).run (MemoryRepository.world outside) (r, s)
        = (.value (), r.put .report
            { stored with cache := stored.cache.store payload (outside .now s).1 },
          (outside .now s).2) ∧
      (refreshCache id payload : Action ε Unit).trace (MemoryRepository.world outside) (r, s)
        = [⟨.call (.get .report id), .ok (some stored)⟩, ⟨.now, (outside .now s).1⟩,
          ⟨.call (.save .report
            { stored with cache := stored.cache.store payload (outside .now s).1 }), .ok ()⟩] := by
  have hget : r.answer (.get .report id) = (.ok (some stored), r) := by
    rw [r.answer_get_report, h]
  unfold refreshCache
  rw [MemoryRepository.run_tryCall hget, MemoryRepository.trace_tryCall hget]
  exact ⟨rfl, rfl⟩

end

theorem conduct_conducts {ε : Type} {engine : Engine} {report : Report} {execution : Execution}
    {outside : World σ} {r : MemoryRepository} {s : σ} (h : execution.status = .running) :
    ∃ final, ((engine.conduct report execution : Action ε Execution).run
        (MemoryRepository.world outside) (r, s)).1 = .value final ∧
      Conducts engine report execution outside r s final
        ((engine.conduct report execution : Action ε Execution).trace
          (MemoryRepository.world outside) (r, s))
        ((engine.conduct report execution : Action ε Execution).run
          (MemoryRepository.world outside) (r, s)).2.1 := by
  have hr : ((engine.pipeline report execution.id).run (MemoryRepository.world outside)
      (r, s)).2.1 = r :=
    MemoryRepository.run_of_asksOnly not_isWork_call (asksOnly_pipeline engine report execution.id)
  -- the pipeline calls no repository, so the end is recorded in the one from the beginning
  unfold conduct
  rw [Action.run_ending_bind, Action.trace_ending_bind]
  generalize hwork : (engine.pipeline report execution.id).trace (MemoryRepository.world outside)
    (r, s) = work
  generalize hp : (engine.pipeline report execution.id).run (MemoryRepository.world outside) (r, s)
    = ended at hr ⊢
  obtain ⟨ending, r', s'⟩ := ended
  obtain rfl : r' = r := hr
  -- an execution that runs can end either way, so the record of its end is never refused
  have hfail : ∀ message now, ∃ final, execution.fail message now = .ok final := by
    intro message now
    refine ⟨_, if_neg ?_⟩
    rw [h]
    decide
  rw [MemoryRepository.run_now, MemoryRepository.trace_now]
  cases ending with
  | value output =>
    obtain ⟨final, hf⟩ : ∃ final, execution.complete output.payload output.artifacts
      (outside .now s').1 = .ok final := ⟨_, if_pos h⟩
    have hsettle : settle execution (.value output) (outside .now s').1
        = (final, some output.payload) := by
      simp only [settle, hf]
    rw [hsettle, MemoryRepository.run_tryCall (r'.answer_save .execution final),
      MemoryRepository.trace_tryCall (r'.answer_save .execution final)]
    rw [Action.run_bind, Action.trace_bind]
    cases hr : r'.reports.get? report.id with
    | none =>
      have hgone : (r'.put .execution final).reports.get? report.id = none := hr
      rw [(refreshCache_gone hgone).1, (refreshCache_gone hgone).2]
      exact ⟨final, rfl, .orphaned (by rw [hp]) hwork hf hr⟩
    | some stored =>
      have hstored : (r'.put .execution final).reports.get? report.id = some stored := hr
      rw [(refreshCache_stored hstored).1, (refreshCache_stored hstored).2]
      exact ⟨final, rfl, .completed (by rw [hp]) hwork hf hr⟩
  | error e =>
    obtain ⟨final, hf⟩ := hfail e.message (outside .now s').1
    have hsettle : settle execution (.error e) (outside .now s').1 = (final, none) := by
      simp only [settle, Engine.failed, hf]
    rw [hsettle]
    exact ⟨final, rfl, .failed (by rw [hp]; exact fun _ => nofun) hwork hf⟩
  | crash c =>
    obtain ⟨final, hf⟩ := hfail (EngineError.execution c.message).message (outside .now s').1
    have hsettle : settle execution (.crash c) (outside .now s').1 = (final, none) := by
      simp only [settle, Engine.failed, hf]
    rw [hsettle]
    exact ⟨final, rfl, .failed (by rw [hp]; exact fun _ => nofun) hwork hf⟩

end Engine

end Bulletin
