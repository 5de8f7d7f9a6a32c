import Bulletin.Proofs.ReportRuns

/-!
# What becomes of a trigger

A trigger is refused, answered from the cache, or run. A refused trigger leaves nothing behind.
Either of the others leaves one execution behind, whose saved versions are listed here: one version
for an answer from the cache, and three for a run, of which the last is completed or failed.

Nothing is assumed of the world beside the repository: a connector may answer with rows, with an
error or with a crash, an artifact may or may not be written, and the clock may show any time.

* `Conducts.concludes` — the version with which a run ends
* `runsOn_running` — a run in the background ends its execution, whenever it goes on
* `trigger_outcome` — all that a trigger can come to
-/

namespace Bulletin

/-! ## What a run leaves behind -/

/-- The executions that were saved, in order. -/
def savedExecutions (events : List Event) : List Execution :=
  events.filterMap fun event =>
    match event.request with
    | .call (.save .execution execution) => some execution
    | _ => none

/-- The runs that were left to the background, in order. -/
def launchedRuns (events : List Event) : List (Report × Execution) :=
  events.filterMap fun event =>
    match event.request with
    | .launch report execution => some (report, execution)
    | _ => none

/-- No connector was asked for rows, and no artifact was written. -/
def Idle (events : List Event) : Prop := ∀ event ∈ events, ¬ event.request.IsWork

theorem savedExecutions_append (events events' : List Event) :
    savedExecutions (events ++ events') = savedExecutions events ++ savedExecutions events' :=
  List.filterMap_append

theorem launchedRuns_append (events events' : List Event) :
    launchedRuns (events ++ events') = launchedRuns events ++ launchedRuns events' :=
  List.filterMap_append

/-- A pipeline saves no execution. -/
theorem savedExecutions_work {events : List Event}
    (h : ∀ event ∈ events, event.request.IsWork) : savedExecutions events = [] := by
  refine List.filterMap_eq_nil_iff.mpr fun event he => ?_
  have hwork := h event he
  obtain ⟨request, answer⟩ := event
  cases request with
  | call c => exact absurd hwork (not_isWork_call c)
  | now | freshId | relational | dataset | api | putArtifact | notify | launch => rfl

/-- An execution that was not there is, and all others are as they were. -/
def MemoryRepository.Gains (r r' : MemoryRepository) (execution : Execution) : Prop :=
  r.executions.get? execution.id = none ∧
    ∀ id, r'.executions.get? id
      = if execution.id = id then some execution else r.executions.get? id

/-- A later version of an execution takes the place of an earlier one. -/
theorem MemoryRepository.Gains.later {r r' r'' : MemoryRepository} {execution later : Execution}
    (h : r.Gains r' execution) (hid : later.id = execution.id)
    (hsave : r''.executions = r'.executions.save later) : r.Gains r'' later := by
  refine ⟨hid ▸ h.1, fun id => ?_⟩
  have hget : r''.executions.get? id
      = if later.id = id then some later else r'.executions.get? id :=
    hsave ▸ r'.executions.get?_save later id
  rw [hget, h.2 id, hid]
  split <;> rfl

theorem MemoryRepository.Gains.put {r r' : MemoryRepository} {execution later : Execution}
    (h : r.Gains r' execution) (hid : later.id = execution.id) :
    r.Gains (r'.put .execution later) later :=
  h.later hid rfl

/-- Saving an execution under an identifier that is not in use. -/
theorem MemoryRepository.gains_put {r : MemoryRepository} {execution : Execution}
    (h : r.executions.get? execution.id = none) : r.Gains (r.put .execution execution) execution :=
  ⟨h, r.executions.get?_save execution⟩

/-! ## Freshness -/

/-- A cache may serve a payload: it holds it, and its time is not over. -/
def Cache.Serves (cache : Cache) (now : Instant) (payload : Json) : Prop :=
  cache.payload = some payload ∧ ∃ written stop, cache.cachedAt = some written ∧
    written.addMinutes? cache.ttlMinutes.toNat = some stop ∧ now.before stop = true

theorem Cache.fresh_eq_some_iff {cache : Cache} {now : Instant} {payload : Json} :
    cache.fresh now = some (some payload) ↔ cache.Serves now payload := by
  unfold Cache.fresh Cache.valid Cache.expiry Cache.Serves
  cases cache.payload with
  | none => simp
  | some held =>
    cases cache.cachedAt with
    | none => simp
    | some written => simp; grind

/-! ## Checks -/

theorem Source.validate_error {source : Source} {query : Option String} {e : DomainError}
    (h : source.validate query = .error e) : ∃ field reason, e = .validation field reason := by
  unfold Source.validate at h
  split at h
  · cases h
    exact ⟨_, _, rfl⟩
  · split at h
    · cases h
    · split at h
      · cases h
      · cases h
        exact ⟨_, _, rfl⟩

/-- The first source with a flaw is reported. -/
theorem Source.validateAll_error {sources : List Source} {query : Option String} {e : DomainError}
    (h : (sources.forM fun source => source.validate query) = .error e) :
    ∃ source ∈ sources, source.validate query = .error e := by
  induction sources with
  | nil => cases h
  | cons source rest ih =>
    change (source.validate query >>= fun _ => rest.forM _) = _ at h
    cases hs : source.validate query with
    | error e' =>
      rw [hs] at h
      cases h
      exact ⟨source, List.mem_cons_self, hs⟩
    | ok _ =>
      rw [hs] at h
      obtain ⟨flawed, hmem, he⟩ := ih h
      exact ⟨flawed, List.mem_cons_of_mem _ hmem, he⟩

/-- What a check of a report says against it names a field. -/
theorem Report.validate_error {report : Report} {e : DomainError}
    (h : report.validate = .error e) : ∃ field reason, e = .validation field reason := by
  unfold Report.validate at h
  split at h
  · cases h
    exact ⟨_, _, rfl⟩
  · split at h
    · cases h
      exact ⟨_, _, rfl⟩
    · cases hs : (report.sources.forM fun source => source.validate report.query.query) with
      | error e' =>
        rw [hs] at h
        cases h
        obtain ⟨source, -, he⟩ := Source.validateAll_error hs
        exact Source.validate_error he
      | ok _ =>
        rw [hs] at h
        change (if _ then _ else _) = _ at h
        split at h
        · cases h
          exact ⟨_, _, rfl⟩
        · cases h

theorem DomainError.message_ne_empty (e : DomainError) : e.message ≠ "" := by
  unfold message
  split <;> simp [String.append_eq_empty_iff, toString]

theorem EngineError.message_ne_empty (e : EngineError) : e.message ≠ "" := by
  unfold message
  split
  · next e => exact e.message_ne_empty
  all_goals simp [String.append_eq_empty_iff]

/-! ## The end of a run -/

namespace Engine

variable {σ : Type}

/-- The last version of an execution, and the repository with it, once its pipeline came to an
end. -/
structure Concludes (ended : Ending EngineError Output) (running final : Execution)
    (r r' : MemoryRepository) : Prop where
  /-- it is a version of the same execution -/
  same : final.id = running.id ∧ final.reportId = running.reportId ∧
    final.trigger = running.trigger ∧ final.createdAt = running.createdAt ∧
    final.startedAt = running.startedAt
  closed : ∃ now millis, final.completedAt = some now ∧ final.durationMs = some millis
  success : ∀ output, ended = .value output →
    final.status = .completed ∧ final.payload = some output.payload ∧
      final.artifacts = output.artifacts ∧ final.error = none
  failure : (∀ output, ended ≠ .value output) →
    final.status = .failed ∧ final.payload = none ∧ final.artifacts = [] ∧
      (∃ message, final.error = some message ∧ message ≠ "") ∧ r' = r.put .execution final
  executions : r'.executions = r.executions.save final
  /-- nothing else changes but the cache of the report after a success -/
  others : r' = r.put .execution final ∨ ∃ output stored written, ended = .value output ∧
    r.reports.get? running.reportId = some stored ∧
    r' = (r.put .execution final).put .report
      { stored with cache := stored.cache.store output.payload written }

section

variable {engine : Engine} {report : Report} {id : ExecutionId} {trigger : Trigger}
  {now begun : Instant} {outside : World σ} {r r' : MemoryRepository} {s : σ} {final : Execution}
  {events : List Event}

/-- A success, after which at most the cache of the report is written. -/
theorem concludes_of_complete {ended : Ending EngineError Output} {output : Output}
    {running : Execution} {written : Instant} (hended : ended = .value output)
    (hrunning : running.error = none)
    (hfinal : running.complete output.payload output.artifacts written = .ok final)
    (hothers : r' = r.put .execution final ∨ ∃ output stored written, ended = .value output ∧
      r.reports.get? running.reportId = some stored ∧
      r' = (r.put .execution final).put .report
        { stored with cache := stored.cache.store output.payload written }) :
    Concludes ended running final r r' := by
  have hexecutions : r'.executions = r.executions.save final := by
    obtain rfl | ⟨_, _, _, -, -, rfl⟩ := hothers
    · rfl
    · rfl
  unfold Execution.complete at hfinal
  split at hfinal
  · cases hfinal
    refine ⟨⟨rfl, rfl, rfl, rfl, rfl⟩, ⟨_, _, rfl, rfl⟩, fun output' he => ?_,
      fun hne => absurd hended (hne _), hexecutions, hothers⟩
    cases hended.symm.trans he
    exact ⟨rfl, rfl, rfl, hrunning⟩
  · cases hfinal

theorem Conducts.concludes
    (h : Conducts engine report (.running id report.id trigger now begun) outside r s final events
      r') :
    Concludes ((engine.pipeline report id).run (MemoryRepository.world outside) (r, s)).1
      (.running id report.id trigger now begun) final r r' := by
  cases h with
  | completed hp _ hf hr =>
    exact concludes_of_complete hp rfl hf (.inr ⟨_, _, _, hp, hr, rfl⟩)
  | orphaned hp _ hf _ => exact concludes_of_complete hp rfl hf (.inl rfl)
  | failed hp _ hf =>
    cases hf
    exact ⟨⟨rfl, rfl, rfl, rfl, rfl⟩, ⟨_, _, rfl, rfl⟩, fun _ he => absurd he (hp _),
      fun _ => ⟨rfl, rfl, rfl, ⟨_, rfl, EngineError.message_ne_empty _⟩, rfl⟩, rfl, .inl rfl⟩

/-- A run saves one version of its execution. -/
theorem Conducts.saves {execution : Execution}
    (h : Conducts engine report execution outside r s final events r') :
    savedExecutions events = [final] := by
  have hwork : ∀ event ∈ (engine.pipeline report execution.id).trace
      (MemoryRepository.world outside) (r, s), event.request.IsWork :=
    (asksOnly_pipeline engine report execution.id).trace (r, s)
  cases h with
  | completed _ hw | orphaned _ hw | failed _ hw =>
    rw [savedExecutions_append, ← hw, savedExecutions_work hwork]
    rfl

end

/-- Up to the run no connector is asked. -/
theorem Starts.idle {id : ReportId} {trigger : Trigger} {outside : World σ}
    {r r' : MemoryRepository} {s : σ} {ending : Ending EngineError Begun} {events : List Event}
    (h : Starts id trigger outside r s ending events r') : Idle events := by
  cases h <;> simp [Idle, Request.IsWork, Request.IsQuery]

/-- The first two versions of an execution. -/
structure Begins (id : ReportId) (trigger : Trigger) (queued running : Execution) : Prop where
  report : queued.reportId = id
  trigger : queued.trigger = trigger
  fresh : queued.status = .queued
  started : ∃ begun, queued.start begun = .ok running

end Engine

/-- A run that ended its execution, its pipeline having ended as given. -/
structure Visit.Concluded (visit : Visit EngineError Execution)
    (ended : Ending EngineError Engine.Output) (running final : Execution) : Prop where
  ending : visit.ending = .value final
  saved : savedExecutions visit.events = [final]
  concludes : Engine.Concludes ended running final visit.before visit.after

/-- A run in the background: whatever happened before it, it ends its execution. -/
def Engine.RunsOn {σ : Type} (engine : Engine) (report : Report) (running : Execution)
    (outside : World σ) : Prop :=
  ∀ r s, ∃ final, ((engine.conduct report running).visit outside r s).Concluded
    ((engine.pipeline report running.id).visit outside r s).ending running final

theorem Engine.runsOn_running {σ : Type} (engine : Engine) (report : Report) (id : ExecutionId)
    (trigger : Trigger) (now begun : Instant) (outside : World σ) :
    engine.RunsOn report (.running id report.id trigger now begun) outside := by
  intro r s
  have hstatus : (Execution.running id report.id trigger now begun).status = .running := rfl
  obtain ⟨final, hfinal, hconducts⟩ := conduct_conducts hstatus
  exact ⟨final, hfinal, hconducts.saves, hconducts.concludes⟩

/-! ## Triggers -/

namespace Visit

variable (visit : Visit EngineError Engine.Triggered)

/-- An error, and nothing was done. -/
structure Refused (e : EngineError) : Prop where
  ending : visit.ending = .error e
  idle : Idle visit.events
  unchanged : visit.after = visit.before

/-- A payload from the cache: one new execution, completed from the start, and nothing else. -/
structure Served (id : ReportId) (payload : Json) (served : Execution) : Prop where
  ending : visit.ending = .value (.finished served)
  report : served.reportId = id
  cached : served.status = .completed ∧ served.trigger = .cached ∧ served.durationMs = some 0 ∧
    served.payload = some payload ∧ served.artifacts = [] ∧ served.error = none
  idle : Idle visit.events
  saved : savedExecutions visit.events = [served]
  after : visit.after = visit.before.put .execution served
  gains : visit.before.Gains visit.after served

/-- A run that was waited for, and whose pipeline ended as given: one new execution, in three
versions. -/
structure Awaited (ended : Ending EngineError Engine.Output) (queued running final : Execution) :
    Prop where
  ending : visit.ending = .value (.finished final)
  saved : savedExecutions visit.events = [queued, running, final]
  concludes : ∃ r, visit.before.Gains r running ∧ r.reports = visit.before.reports ∧
    Engine.Concludes ended running final r visit.after
  gains : visit.before.Gains visit.after final

/-- A run in the background: one new execution, so far in two versions. -/
structure Launched {σ : Type} (engine : Engine) (report : Report) (outside : World σ)
    (queued running : Execution) : Prop where
  ending : visit.ending = .value (.launched running)
  idle : Idle visit.events
  saved : savedExecutions visit.events = [queued, running]
  launched : launchedRuns visit.events = [(report, running)]
  unchanged : visit.after.reports = visit.before.reports
  gains : visit.before.Gains visit.after running
  runsOn : engine.RunsOn report running outside

end Visit

namespace Engine

variable {σ : Type}

/-- A trigger of an engine that waits is a run. -/
theorem trigger_of_await {engine : Engine} (h : engine.config.awaitCompletion = true)
    (id : ReportId) (trigger : Trigger) :
    engine.trigger id trigger = do return .finished (← engine.run id trigger) := by
  unfold Engine.trigger Engine.run
  rw [bind_assoc]
  refine bind_congr fun begun => ?_
  cases begun with
  | served execution => rfl
  | started report execution => exact if_pos h

section

variable {engine : Engine} {id : ReportId} {trigger : Trigger} {outside : World σ}
  {r r' : MemoryRepository} {s s' : σ} {report : Report} {running : Execution}

/-- A trigger that has launched a run does not wait for it. -/
theorem visit_launched
    (h : (start id trigger).run (MemoryRepository.world outside) (r, s)
      = (.value (.started report running), r', s'))
    (hawait : engine.config.awaitCompletion = false) :
    (engine.trigger id trigger).visit outside r s
      = ⟨r, .value (.launched running),
        (start id trigger).trace (MemoryRepository.world outside) (r, s)
          ++ [⟨.launch report running, ()⟩], r'⟩ := by
  unfold Engine.trigger
  rw [Action.visit_bind_value h]
  simp only [hawait]
  rfl

/-- A trigger that waits for a run does all that the run does. -/
theorem visit_awaited
    (h : (start id trigger).run (MemoryRepository.world outside) (r, s)
      = (.value (.started report running), r', s'))
    (hawait : engine.config.awaitCompletion = true) {conducted : Visit EngineError Execution}
    (hconducted : (engine.conduct report running).visit outside r' s' = conducted)
    {final : Execution} (hfinal : conducted.ending = .value final) :
    (engine.trigger id trigger).visit outside r s
      = ⟨r, .value (.finished final),
        (start id trigger).trace (MemoryRepository.world outside) (r, s) ++ conducted.events,
        conducted.after⟩ := by
  subst hconducted
  have hrun : (engine.conduct report running).run (MemoryRepository.world outside) (r', s')
      = (.value final, _, _) := Prod.ext hfinal rfl
  unfold Engine.trigger
  rw [Action.visit_bind_value h]
  simp only [hawait, if_true]
  rw [Action.visit_bind_value hrun]
  simp only [Action.visit_pure, List.append_nil]
  rfl

/-- A run that is waited for ends the execution that was recorded as running. -/
theorem awaited_of_started {queued : Execution}
    (h : (start id trigger).run (MemoryRepository.world outside) (r, s)
      = (.value (.started report running), r', s'))
    (hawait : engine.config.awaitCompletion = true) (hruns : engine.RunsOn report running outside)
    (hsaved : savedExecutions ((start id trigger).trace (MemoryRepository.world outside) (r, s))
      = [queued, running])
    (hgains : r.Gains r' running) (hreports : r'.reports = r.reports) :
    ∃ final, ((engine.trigger id trigger).visit outside r s).Awaited
      ((engine.pipeline report running.id).run (MemoryRepository.world outside) (r', s')).1
      queued running final := by
  obtain ⟨final, hfinal, hlast, hends⟩ := hruns r' s'
  rw [visit_awaited h hawait rfl hfinal]
  refine ⟨final, rfl, ?_, ⟨r', hgains, hreports, hends⟩, ?_⟩
  · show savedExecutions (_ ++ _) = _
    rw [savedExecutions_append, hsaved, hlast]
    rfl
  · exact hgains.later hends.same.1 hends.executions

/-- A run that is not waited for goes on in the background. -/
theorem launched_of_started {queued : Execution}
    (h : (start id trigger).run (MemoryRepository.world outside) (r, s)
      = (.value (.started report running), r', s'))
    (hawait : engine.config.awaitCompletion ≠ true) (hruns : engine.RunsOn report running outside)
    (hidle : Idle ((start id trigger).trace (MemoryRepository.world outside) (r, s)))
    (hsaved : savedExecutions ((start id trigger).trace (MemoryRepository.world outside) (r, s))
      = [queued, running])
    (hnone : launchedRuns ((start id trigger).trace (MemoryRepository.world outside) (r, s)) = [])
    (hgains : r.Gains r' running) (hreports : r'.reports = r.reports) :
    ((engine.trigger id trigger).visit outside r s).Launched engine report outside queued
      running := by
  rw [visit_launched h (Bool.eq_false_iff.mpr hawait)]
  refine ⟨rfl, ?_, ?_, ?_, hreports, hgains, hruns⟩
  · intro event he
    rcases List.mem_append.mp he with he | he
    · exact hidle event he
    · rw [List.mem_singleton.mp he]
      exact fun h => h
  · show savedExecutions (_ ++ _) = _
    rw [savedExecutions_append, hsaved]
    rfl
  · show launchedRuns (_ ++ _) = _
    rw [launchedRuns_append, hnone]
    rfl

end

/--
**What a trigger comes to.** The connectors, the artifacts and the clock may answer anything; only
the end of the report's cache has to lie within the calendar, and a fresh identifier must not be
that of a stored execution. Then:

* a trigger is refused if the report is unknown or not valid;
* otherwise it is served from the cache if the cache may serve a payload;
* otherwise it is run, and its execution is saved as queued, as running, and once more as it ends:
  before the trigger ends, or in the background.
-/
theorem trigger_outcome {engine : Engine} {id : ReportId} {trigger : Trigger}
    {outside : World σ} {r : MemoryRepository} {s : σ}
    (hcal : ∀ report, r.reports.get? id = some report → report.cache.expiry ≠ none)
    (hfresh : ∀ s, r.executions.get? ⟨(outside .freshId s).1⟩ = none) :
    (r.reports.get? id = none →
      ((engine.trigger id trigger).visit outside r s).Refused (.notFound "report" id.display)) ∧
    ∀ report, r.reports.get? id = some report →
      (∀ e, report.validate = .error e →
        ((engine.trigger id trigger).visit outside r s).Refused (.validation e)) ∧
      (report.validate = .ok () →
        (∀ payload, report.cache.Serves (outside .now s).1 payload →
          ∃ served, ((engine.trigger id trigger).visit outside r s).Served id payload served) ∧
        ((∀ payload, ¬ report.cache.Serves (outside .now s).1 payload) →
          ∃ queued running, Begins id trigger queued running ∧
            if engine.config.awaitCompletion then
              ∃ final, ((engine.trigger id trigger).visit outside r s).Awaited
                ((engine.pipeline report running.id).run (MemoryRepository.world outside)
                  ((start id trigger).run (MemoryRepository.world outside) (r, s)).2).1
                queued running final
            else
              ((engine.trigger id trigger).visit outside r s).Launched engine report outside queued
                running)) := by
  have hways := @start_starts _ id trigger outside r s hcal
  generalize hevents : (start id trigger).trace (MemoryRepository.world outside) (r, s) = events
    at hways
  generalize hstart : (start id trigger).run (MemoryRepository.world outside) (r, s) = begun
    at hways ⊢
  obtain ⟨ending, r', s'⟩ := begun
  change Starts id trigger outside r s ending events r' at hways
  have hidle := hways.idle
  -- each way is one case of the statement and contradicts the others
  cases hways with
  | unknown hr =>
    unfold Engine.trigger
    rw [Action.visit_bind_error hstart, hevents]
    exact ⟨fun _ => ⟨rfl, hidle, rfl⟩, fun report h => absurd (hr.symm.trans h) nofun⟩
  | refused hr hv =>
    obtain ⟨field, reason, rfl⟩ := Report.validate_error hv
    unfold Engine.trigger
    rw [Action.visit_bind_error hstart, hevents]
    refine ⟨fun h => absurd (hr.symm.trans h) nofun, fun report h => ?_⟩
    cases hr.symm.trans h
    refine ⟨fun e he => ?_, fun hok => absurd (hv.symm.trans hok) nofun⟩
    cases hv.symm.trans he
    exact ⟨rfl, hidle, rfl⟩
  | @served report payload now fresh hr hv hnow hf hid =>
    subst hnow
    obtain ⟨s₀, rfl⟩ := hid
    obtain rfl : report.id = id := (Table.get?_eq_some_iff.mp hr).2
    have hheld : report.cache.Serves _ payload := Cache.fresh_eq_some_iff.mp hf
    unfold Engine.trigger
    rw [Action.visit_bind_value hstart, hevents]
    simp only [Action.visit_pure, List.append_nil]
    refine ⟨fun h => absurd (hr.symm.trans h) nofun, fun report' h => ?_⟩
    cases hr.symm.trans h
    refine ⟨fun e he => absurd (hv.symm.trans he) nofun, fun _ => ⟨fun payload' hserves => ?_, ?_⟩⟩
    · cases hheld.1.symm.trans hserves.1
      exact ⟨_, rfl, rfl, ⟨rfl, rfl, rfl, rfl, rfl, rfl⟩, hidle, rfl, rfl,
        MemoryRepository.gains_put (hfresh s₀)⟩
    · intro hnone
      exact absurd hheld (hnone payload)
  | @started report now begun fresh hr hv hnow hf hid =>
    subst hnow
    obtain ⟨s₀, rfl⟩ := hid
    obtain rfl : report.id = id := (Table.get?_eq_some_iff.mp hr).2
    refine ⟨fun h => absurd (hr.symm.trans h) nofun, fun report' h => ?_⟩
    cases hr.symm.trans h
    refine ⟨fun e he => absurd (hv.symm.trans he) nofun, fun _ => ⟨fun payload' hserves => ?_, ?_⟩⟩
    · rw [Cache.fresh_eq_some_iff.mpr hserves] at hf
      cases hf
    · intro _
      -- the later versions stand under the identifier of the first, which was not in use
      have hqueued : r.Gains _
          (.queued ⟨(outside .freshId s₀).1⟩ report.id trigger (outside .now s).1) :=
        MemoryRepository.gains_put (hfresh s₀)
      have hgains : r.Gains _
          (.running ⟨(outside .freshId s₀).1⟩ report.id trigger (outside .now s).1 begun) :=
        hqueued.put rfl
      have hbegins : Begins report.id trigger
          (.queued ⟨(outside .freshId s₀).1⟩ report.id trigger (outside .now s).1) _ :=
        ⟨rfl, rfl, rfl, begun, Execution.start_queued _ _ _ _ _⟩
      have hruns := runsOn_running engine report ⟨(outside .freshId s₀).1⟩ trigger
        (outside .now s).1 begun outside
      refine ⟨_, _, hbegins, ?_⟩
      split
      · next hawait =>
        exact awaited_of_started hstart hawait hruns (by rw [hevents]; rfl) hgains rfl
      · next hawait =>
        rw [← hevents] at hidle
        exact launched_of_started hstart hawait hruns hidle (by rw [hevents]; rfl)
          (by rw [hevents]; rfl) hgains rfl

/-- A world in which every source has the same row, everything is written, and time stands still. -/
def stillWorld (row : Record) (now : Instant) : World Unit
  | .call _, _ => (.error (.task "elsewhere"), ())
  | .relational _ _, _ => (.value [row], ())
  | .dataset _, _ => (.value (some [row]), ())
  | .api _, _ => (.value [row], ())
  | .now, _ => (now, ())
  | .freshId, _ => (default, ())
  | .putArtifact name _, _ => (.ok name, ())
  | .notify _ _, _ => (.ok (), ())
  | .launch _ _, _ => ((), ())

/-- A report of one dataset. -/
def loads : Report := { Report.new default "loads" with sources := [.dataset "samples" "load"] }

/-- A repository with this report. -/
def loadsStored : MemoryRepository := MemoryRepository.empty.put .report loads

/-- An engine that waits for its runs. -/
def patient : Engine := ⟨⟨true, true⟩, { EngineConfig.standard with awaitCompletion := true }⟩

/-- The first trigger of the report is run. -/
theorem first_trigger_runs :
    ∃ queued running final, Begins default .manual queued running ∧
      ((patient.trigger default .manual).visit (stillWorld ∅ default) loadsStored ()).Awaited
        ((patient.pipeline loads running.id).run (MemoryRepository.world (stillWorld ∅ default))
          ((start default .manual).run (MemoryRepository.world (stillWorld ∅ default))
            (loadsStored, ())).2).1
        queued running final := by
  have hcal : ∀ report, loadsStored.reports.get? default = some report →
      report.cache.expiry ≠ none := by
    rintro _ ⟨⟩
    nofun
  have hvalid : loads.validate = .ok () := by rfl
  have hempty : ∀ payload, ¬ loads.cache.Serves (stillWorld ∅ default .now ()).1 payload := by
    rintro payload ⟨⟨⟩, -⟩
  obtain ⟨-, hfound⟩ := @trigger_outcome Unit patient default .manual (stillWorld ∅ default)
    loadsStored () hcal fun _ => rfl
  obtain ⟨-, hvisit⟩ := (hfound loads rfl).2 hvalid
  obtain ⟨queued, running, hbegins, hawaited⟩ := hvisit hempty
  have hawait : patient.config.awaitCompletion = true := rfl
  rw [if_pos hawait] at hawaited
  obtain ⟨final, hawaited⟩ := hawaited
  exact ⟨queued, running, final, hbegins, hawaited⟩

end Engine

end Bulletin
