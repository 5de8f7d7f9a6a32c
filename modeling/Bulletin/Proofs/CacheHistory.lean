import Bulletin.Proofs.TriggerOutcomes

/-!
# The cache over a history

A report that nobody edits is triggered again and again, and each trigger is waited for. What its
cache holds is then a function of the past: the payload of the latest run that succeeded, and the
time that this run read last. Runs that failed and answers from the cache leave no trace in it.

Every trigger has a world of its own, so clocks may stand still, jump and go backwards from one
trigger to the next and within a run.

* `Conducted.success` — what a run that goes on to the pipeline leaves in the cache
* `Follows.run` — the stored report after one more trigger
* `History.follows` — the stored report after a history
* `cache_history` — which triggers are run, and what the others are served
-/

namespace Bulletin

/-! ## What a trigger came to -/

/-- The times that were read, in order. -/
def readings (events : List Event) : List Instant :=
  events.filterMap fun
    | ⟨.now, t⟩ => some t
    | _ => none

theorem readings_append (events events' : List Event) :
    readings (events ++ events') = readings events ++ readings events' :=
  List.filterMap_append

namespace Visit

variable (visit : Visit EngineError Execution)

/-- Whether an execution was recorded as running. -/
def ran : Bool := (savedExecutions visit.events).any fun execution => execution.status = .running

/-- The payload of a run that completed, and the last time that it read: it wrote both to the
cache. -/
def success : Option (Json × Instant) :=
  match visit.ending with
  | .value final =>
    if visit.ran && final.status = .completed then do
      return (← final.payload, ← (readings visit.events).getLast?)
    else none
  | _ => none

end Visit

/-- The latest run that succeeded. -/
def latest (past : List (Visit EngineError Execution)) : Option (Json × Instant) :=
  (past.filterMap Visit.success).getLast?

theorem latest_append (past : List (Visit EngineError Execution))
    (visit : Visit EngineError Execution) :
    latest (past ++ [visit]) = visit.success.or (latest past) := by
  unfold latest
  rw [List.filterMap_append, List.getLast?_append]
  cases hs : visit.success with
  | none => simp [hs]
  | some success => simp [hs]

/-! ## The ways of a run -/

/-- A run that is served a payload from the cache: no connector is asked, and no report changes. -/
structure Visit.FromCache (visit : Visit EngineError Execution) (payload : Json) : Prop where
  idle : Idle visit.events
  served : ∃ served, visit.ending = .value served ∧ savedExecutions visit.events = [served] ∧
    served.status = .completed ∧ served.trigger = .cached ∧ served.durationMs = some 0 ∧
    served.payload = some payload
  reports : visit.after.reports = visit.before.reports

/-- A run that is recorded as running and then goes on to the pipeline. -/
def Visit.Conducted {σ : Type} (visit : Visit EngineError Execution) (engine : Engine)
    (report : Report) (outside : World σ) : Prop :=
  ∃ queued running final r s events events', visit.ending = .value final ∧
    visit.events = events ++ events' ∧ savedExecutions events = [queued, running] ∧
    running.status = .running ∧ r.reports = visit.before.reports ∧
    engine.Conducts report running outside r s final events' visit.after

section

variable {σ : Type} {engine : Engine} {id : ReportId} {outside : World σ} {r : MemoryRepository}
  {report : Report}

/-- A run of a valid report is served from the cache if the cache may serve, and goes on to the
pipeline otherwise. -/
theorem Engine.visit_run (engine : Engine) (trigger : Trigger) (outside : World σ) (s : σ)
    (hstored : r.reports.get? id = some report)
    (hvalid : report.validate = .ok ()) (hcal : report.cache.expiry ≠ none) :
    (∃ payload, report.cache.Serves (outside .now s).1 payload ∧
      ((engine.run id trigger).visit outside r s).FromCache payload) ∨
    ((∀ payload, ¬ report.cache.Serves (outside .now s).1 payload) ∧
      ((engine.run id trigger).visit outside r s).Conducted engine report outside) := by
  have hfound : ∀ other, r.reports.get? id = some other → other.cache.expiry ≠ none := by
    intro other hother
    cases hstored.symm.trans hother
    exact hcal
  have hways := @start_starts _ id trigger outside r s hfound
  generalize hevents : (start id trigger).trace (MemoryRepository.world outside) (r, s) = events
    at hways
  generalize hstart : (start id trigger).run (MemoryRepository.world outside) (r, s) = begun
    at hways
  obtain ⟨ending, r₁, s₁⟩ := begun
  change Starts id trigger outside r s ending events r₁ at hways
  have hidle := hways.idle
  unfold Engine.run
  cases hways with
  | unknown hr => exact absurd (hstored.symm.trans hr) nofun
  | refused hr hv =>
    cases hstored.symm.trans hr
    exact absurd (hvalid.symm.trans hv) nofun
  | served hr hv hnow hf hid =>
    cases hstored.symm.trans hr
    subst hnow
    rw [Action.visit_bind_value hstart, hevents]
    simp only [Action.visit_pure, List.append_nil]
    exact .inl ⟨_, Cache.fresh_eq_some_iff.mp hf, hidle, ⟨_, rfl, rfl, rfl, rfl, rfl, rfl⟩, rfl⟩
  | @started report now begun fresh hr hv hnow hf hid =>
    cases hstored.symm.trans hr
    subst hnow
    have hstale : ∀ payload, ¬ report.cache.Serves (outside .now s).1 payload := by
      intro payload hserves
      rw [Cache.fresh_eq_some_iff.mpr hserves] at hf
      cases hf
    have hsaved : savedExecutions ((start id trigger).trace (MemoryRepository.world outside) (r, s))
        = [.queued ⟨fresh⟩ report.id trigger (outside .now s).1,
          .running ⟨fresh⟩ report.id trigger (outside .now s).1 begun] := by
      rw [hevents]
      rfl
    have hreports : ((r.put .execution (.queued ⟨fresh⟩ report.id trigger (outside .now s).1)).put
        .execution (.running ⟨fresh⟩ report.id trigger (outside .now s).1 begun)).reports
        = r.reports := rfl
    have hstatus : (Execution.running ⟨fresh⟩ report.id trigger (outside .now s).1 begun).status
      = .running := rfl
    obtain ⟨final, hfinal, hconducts⟩ := @conduct_conducts _ EngineError engine report _ outside
      _ s₁ hstatus
    rw [Action.visit_bind_value hstart]
    exact .inr ⟨hstale, _, _, final, _, s₁, _, _, hfinal, rfl, hsaved, hstatus, hreports,
      hconducts⟩

namespace Visit

variable {visit : Visit EngineError Execution} {payload : Json}

theorem FromCache.ran (h : visit.FromCache payload) : visit.ran = false := by
  obtain ⟨served, -, hsaved, hstatus, -⟩ := h.served
  unfold Visit.ran
  rw [hsaved]
  simp [hstatus]

theorem Conducted.ran (h : visit.Conducted engine report outside) : visit.ran = true := by
  obtain ⟨queued, running, final, r, s, events, events', -, hevents, hsaved, hstatus, -⟩ := h
  unfold Visit.ran
  rw [hevents, savedExecutions_append, hsaved]
  simp [hstatus]

/-- What a pipeline asks for is asked for in the run. -/
theorem Conducted.pipeline (h : visit.Conducted engine report outside) :
    ∃ execution r s events events', visit.events = events
      ++ ((engine.pipeline report execution).visit outside r s).events ++ events' := by
  obtain ⟨queued, running, final, r, s, events, events', -, hevents, -, -, -, hconducts⟩ := h
  rw [hevents]
  generalize visit.after = after at hconducts
  cases hconducts with
  | completed _ hw | orphaned _ hw | failed _ hw =>
    rw [← hw, ← List.append_assoc]
    exact ⟨running.id, r, s, events, _, rfl⟩

/-- An answer from the cache is no success of its own. -/
theorem FromCache.success (h : visit.FromCache payload) : visit.success = none := by
  obtain ⟨served, hending, -⟩ := h.served
  unfold Visit.success
  rw [hending, h.ran]
  rfl

/-- A run that goes on to the pipeline writes the cache of its report if it succeeds, and else
leaves the reports as they are. -/
theorem Conducted.success (h : visit.Conducted engine report outside)
    (hstored : visit.before.reports.get? report.id = some report) :
    ∃ final, visit.ending = .value final ∧
      (final.status = .failed ∧ visit.success = none ∧
          visit.after.reports = visit.before.reports ∨
        final.status = .completed ∧ ∃ payload written, final.payload = some payload ∧
          visit.success = some (payload, written) ∧ visit.after.reports.get? report.id
            = some { report with cache := report.cache.store payload written }) := by
  have hran := h.ran
  obtain ⟨queued, running, final, r, s, events, events', hending, hevents, -, hstatus, hreports,
    hconducts⟩ := h
  have hsuccess : visit.success = if final.status = .completed then do
      return (← final.payload, ← (readings (events ++ events')).getLast?) else none := by
    unfold Visit.success
    rw [hending, hran, hevents]
    simp
  rw [hsuccess]
  refine ⟨final, hending, ?_⟩
  generalize visit.after = after at hconducts ⊢
  cases hconducts with
  | @completed output now written work final stored hp hw hf hr =>
    rw [hreports, hstored] at hr
    cases hr
    -- nothing is read after the time that goes into the cache
    have hlast : (readings (events ++ (work ++ [⟨.now, now⟩,
        ⟨.call (.save .execution final), .ok ()⟩,
        ⟨.call (.get .report report.id), .ok (some report)⟩, ⟨.now, written⟩,
        ⟨.call (.save .report { report with cache := report.cache.store output.payload written }),
          .ok ()⟩]))).getLast? = some written := by
      rw [readings_append, readings_append, ← List.append_assoc, List.getLast?_append]
      rfl
    have hcompleted : final.status = .completed ∧ final.payload = some output.payload := by
      unfold Execution.complete at hf
      rw [if_pos hstatus] at hf
      cases hf
      exact ⟨rfl, rfl⟩
    refine .inr ⟨hcompleted.1, output.payload, written, hcompleted.2, ?_, ?_⟩
    · rw [if_pos hcompleted.1, hcompleted.2, hlast]
      rfl
    · exact Table.get?_save_self _
  | orphaned hp hw hf hr =>
    rw [hreports, hstored] at hr
    cases hr
  | failed hp hw hf =>
    have hfailed : final.status = .failed := by
      unfold Execution.fail at hf
      rw [hstatus] at hf
      cases hf
      rfl
    refine .inl ⟨hfailed, ?_, hreports⟩
    rw [if_neg]
    rw [hfailed]
    decide

end Visit

end

/-! ## Histories -/

/-- Triggers of a report, each of them waited for, and what they came to; a trigger of an engine
that waits is such a run by itself (`Engine.trigger_of_await`). In between the repository may change
as it likes, as long as the report stays as it is. -/
inductive Engine.History (engine : Engine) (id : ReportId) (σ : Type) (r₀ : MemoryRepository) :
    List (Visit EngineError Execution) → MemoryRepository → Prop
  | start : History engine id σ r₀ [] r₀
  | run {past : List (Visit EngineError Execution)} {r : MemoryRepository}
    (h : History engine id σ r₀ past r) (trigger : Trigger) (outside : World σ) (s : σ) :
    History engine id σ r₀ (past ++ [(engine.run id trigger).visit outside r s])
      ((engine.run id trigger).visit outside r s).after
  | elsewhere {past : List (Visit EngineError Execution)} {r r' : MemoryRepository}
    (h : History engine id σ r₀ past r) (hkeep : r'.reports.get? id = r.reports.get? id) :
    History engine id σ r₀ past r'

/-- The cache after the latest success. -/
def Cache.refreshed (cache : Cache) : Option (Json × Instant) → Cache
  | none => cache
  | some (payload, written) => cache.store payload written

/-- The report as it is stored: its cache is what the latest success wrote, and all else is as it
was. -/
def Follows (report : Report) (past : List (Visit EngineError Execution)) (r : MemoryRepository) :
    Prop :=
  r.reports.get? report.id = some { report with cache := report.cache.refreshed (latest past) }

/-- The end of the latest success lies within the calendar. -/
def InCalendar (ttl : UInt32) (success : Option (Json × Instant)) : Prop :=
  ∀ payload written, success = some (payload, written) → written.addMinutes? ttl.toNat ≠ none

theorem serves_refreshed {ttl : UInt32} {success : Option (Json × Instant)} {now : Instant}
    {payload : Json} :
    ((Cache.ofTtl ttl).refreshed success).Serves now payload ↔
      ∃ written stop, success = some (payload, written) ∧
        written.addMinutes? ttl.toNat = some stop ∧ now.before stop = true := by
  rcases success with _ | ⟨stored, written⟩
  · simp [Cache.Serves, Cache.refreshed, Cache.ofTtl]
  · simp only [Cache.Serves, Cache.refreshed, Cache.store, Cache.ofTtl, Option.some.injEq,
      Prod.mk.injEq]
    constructor
    · rintro ⟨rfl, _, stop, rfl, hstop, hbefore⟩
      exact ⟨written, stop, ⟨rfl, rfl⟩, hstop, hbefore⟩
    · rintro ⟨_, stop, ⟨rfl, rfl⟩, hstop, hbefore⟩
      exact ⟨rfl, written, stop, rfl, hstop, hbefore⟩

theorem expiry_refreshed {ttl : UInt32} {success : Option (Json × Instant)}
    (h : InCalendar ttl success) : ((Cache.ofTtl ttl).refreshed success).expiry ≠ none := by
  rcases success with _ | ⟨stored, written⟩
  · exact nofun
  · have hstop := h stored written rfl
    simpa [Cache.refreshed, Cache.store, Cache.ofTtl, Cache.expiry] using hstop

theorem store_refreshed (cache : Cache) (success : Option (Json × Instant)) (payload : Json)
    (written : Instant) : (cache.refreshed success).store payload written
      = cache.refreshed (some (payload, written)) := by
  rcases success with _ | ⟨_, _⟩
  · rfl
  · rfl

/-- The latest success is one of the past. -/
theorem inCalendar_latest {ttl : UInt32} {past : List (Visit EngineError Execution)}
    (h : ∀ visit ∈ past, InCalendar ttl visit.success) : InCalendar ttl (latest past) := by
  intro payload written hlatest
  obtain ⟨visit, hvisit, hsuccess⟩ := List.mem_filterMap.mp (List.mem_of_getLast? hlatest)
  exact h visit hvisit payload written hsuccess

section

variable {σ : Type} {engine : Engine} {report : Report} {ttl : UInt32}
  {past : List (Visit EngineError Execution)} {r₀ r : MemoryRepository}

/-- A run over a history is served the latest success while its time lasts, and else goes on to the
pipeline. -/
theorem Follows.ways (hvalid : report.validate = .ok ()) (hempty : report.cache = .ofTtl ttl)
    (h : Follows report past r) (hcal : InCalendar ttl (latest past)) (engine : Engine)
    (trigger : Trigger) (outside : World σ) (s : σ) :
    (∃ payload written stop, latest past = some (payload, written) ∧
      written.addMinutes? ttl.toNat = some stop ∧ (outside .now s).1.before stop = true ∧
      ((engine.run report.id trigger).visit outside r s).FromCache payload) ∨
    ((∀ payload written stop, latest past = some (payload, written) →
        written.addMinutes? ttl.toNat = some stop → (outside .now s).1.before stop = false) ∧
      ((engine.run report.id trigger).visit outside r s).Conducted engine
        { report with cache := report.cache.refreshed (latest past) } outside) := by
  have hexpiry : (report.cache.refreshed (latest past)).expiry ≠ none := by
    rw [hempty]
    exact expiry_refreshed hcal
  obtain ⟨payload, hserves, hcached⟩ | ⟨hstale, hconducted⟩ :=
    Engine.visit_run engine trigger outside s h hvalid hexpiry
  · rw [hempty] at hserves
    obtain ⟨written, stop, hlatest, hstop, hbefore⟩ := serves_refreshed.mp hserves
    exact .inl ⟨payload, written, stop, hlatest, hstop, hbefore, hcached⟩
  · refine .inr ⟨fun payload written stop hlatest hstop => ?_, hconducted⟩
    rw [hempty] at hstale
    rw [← Bool.not_eq_true]
    intro hbefore
    exact hstale payload (serves_refreshed.mpr ⟨written, stop, hlatest, hstop, hbefore⟩)

/-- One more run takes the cache one success further, or leaves it as it is. -/
theorem Follows.run (hvalid : report.validate = .ok ()) (hempty : report.cache = .ofTtl ttl)
    (h : Follows report past r) (hcal : InCalendar ttl (latest past)) (engine : Engine)
    (trigger : Trigger) (outside : World σ) (s : σ) :
    Follows report (past ++ [(engine.run report.id trigger).visit outside r s])
        ((engine.run report.id trigger).visit outside r s).after ∧
      (((engine.run report.id trigger).visit outside r s).success = none →
        ((engine.run report.id trigger).visit outside r s).after.reports = r.reports) := by
  unfold Follows
  rw [latest_append]
  obtain ⟨payload, written, stop, -, -, -, hcached⟩ | ⟨-, hconducted⟩ :=
    h.ways hvalid hempty hcal engine trigger outside s
  · rw [hcached.success, hcached.reports]
    exact ⟨h, fun _ => rfl⟩
  · obtain ⟨final, -, ⟨-, hsuccess, hreports⟩ | ⟨-, payload, written, -, hsuccess, hstored⟩⟩ :=
      hconducted.success h
    · rw [hsuccess, hreports]
      exact ⟨h, fun _ => rfl⟩
    · rw [hsuccess, Option.some_or, ← store_refreshed]
      exact ⟨hstored, nofun⟩

/-- After a history the cache holds what the latest success wrote. -/
theorem Engine.History.follows (hvalid : report.validate = .ok ())
    (hempty : report.cache = .ofTtl ttl) (hstored : r₀.reports.get? report.id = some report)
    (h : engine.History report.id σ r₀ past r)
    (hcal : ∀ visit ∈ past, InCalendar ttl visit.success) : Follows report past r := by
  -- the successes of a part of the past lie within the calendar too
  induction h with
  | start => exact hstored
  | run h trigger outside s ih =>
    have hpast := ih fun visit hvisit => hcal visit (List.mem_append_left _ hvisit)
    have hlatest := inCalendar_latest fun visit hvisit => hcal visit (List.mem_append_left _ hvisit)
    exact (hpast.run hvalid hempty hlatest engine trigger outside s).1
  | elsewhere h hkeep ih => exact hkeep.trans (ih hcal)

/-- How a trigger begins depends on the stored report only, and on the world. -/
theorem start_ending_congr {τ : Type} {id : ReportId} {r r' : MemoryRepository}
    (h : r'.reports.get? id = r.reports.get? id) (trigger : Trigger) (outside : World τ) (s : τ) :
    ((Engine.start id trigger).visit outside r' s).ending
      = ((Engine.start id trigger).visit outside r s).ending := by
  unfold Action.visit Engine.start
  rw [MemoryRepository.run_call (r'.answer_get_report id),
    MemoryRepository.run_call (r.answer_get_report id), h]
  -- the repositories differ only in what is saved to them from here on
  cases r.reports.get? id with
  | none => rfl
  | some report =>
    cases hv : report.validate with
    | error e =>
      simp only [hv]
      rfl
    | ok _ =>
      simp only [hv, Action.run_ofExcept_mapError_ok]
      rw [MemoryRepository.run_now, MemoryRepository.run_now]
      rcases report.cache.fresh (outside .now s).1 with _ | _ | payload
      · rfl
      · rfl
      · rfl

/--
**What the cache serves.** A valid report whose cache is empty is triggered any number of times,
each trigger is waited for, and nobody edits the report. Clocks and connectors may do anything, as
long as the ends of the cache lie within the calendar. Then of the next trigger:

* it goes on to the pipeline exactly if no run has succeeded, or if the time of the latest success
  is over;
* otherwise it is served the payload of the latest success, and no connector is asked;
* if it goes on to the pipeline, it fails, or else it completes and its payload and the last time
  that it read are what the cache then holds;
* if it is no success, every later trigger begins as if it had not been.
-/
theorem cache_history (hvalid : report.validate = .ok ()) (hempty : report.cache = .ofTtl ttl)
    (hstored : r₀.reports.get? report.id = some report)
    (hhistory : engine.History report.id σ r₀ past r)
    (hcal : ∀ visit ∈ past, InCalendar ttl visit.success) {trigger : Trigger} {outside : World σ}
    {s : σ} {next : Visit EngineError Execution}
    (hnext : (engine.run report.id trigger).visit outside r s = next) :
    (next.ran = true ↔ ∀ payload written stop, latest past = some (payload, written) →
      written.addMinutes? ttl.toNat = some stop → (outside .now s).1.before stop = false) ∧
    (next.ran = true → ∃ execution r s events events',
      next.events = events ++ ((engine.pipeline report execution).visit outside r s).events
        ++ events') ∧
    (next.ran = false → ∃ payload written, latest past = some (payload, written) ∧
      next.FromCache payload) ∧
    (next.ran = true → ∃ final, next.ending = .value final ∧
      (final.status = .failed ∧ next.success = none ∨
        final.status = .completed ∧ ∃ payload written, final.payload = some payload ∧
          next.success = some (payload, written) ∧ next.after.reports.get? report.id
            = some { report with cache := report.cache.store payload written })) ∧
    (next.success = none → ∀ later (elsewhere : World σ) s,
      ((Engine.start report.id later).visit elsewhere next.after s).ending
        = ((Engine.start report.id later).visit elsewhere r s).ending) := by
  have hfollows := hhistory.follows hvalid hempty hstored hcal
  have hlatest := inCalendar_latest hcal
  have hrun := hfollows.run hvalid hempty hlatest engine trigger outside s
  have hways := hfollows.ways hvalid hempty hlatest engine trigger outside s
  rw [hnext] at hrun hways
  have hlater : next.success = none → ∀ later (elsewhere : World σ) s,
      ((Engine.start report.id later).visit elsewhere next.after s).ending
        = ((Engine.start report.id later).visit elsewhere r s).ending := by
    intro hnone later elsewhere s
    exact start_ending_congr (by rw [hrun.2 hnone]) later elsewhere s
  obtain ⟨payload, written, stop, hsome, hstop, hbefore, hcached⟩ | ⟨hover, hconducted⟩ := hways
  · have hran : next.ran = false := hcached.ran
    have hnot : next.ran ≠ true := Bool.eq_false_iff.mp hran
    refine ⟨⟨fun h => absurd h hnot, fun hover => ?_⟩, fun h => absurd h hnot,
      fun _ => ⟨payload, written, hsome, hcached⟩, fun h => absurd h hnot, hlater⟩
    rw [hover payload written stop hsome hstop] at hbefore
    cases hbefore
  · have hran : next.ran = true := hconducted.ran
    have hnot : next.ran ≠ false := Bool.ne_false_iff.mpr hran
    refine ⟨⟨fun _ => hover, fun _ => hran⟩, fun _ => hconducted.pipeline,
      fun h => absurd h hnot, fun _ => ?_, hlater⟩
    have hbefore : next.before = r := hnext ▸ rfl
    rw [← hbefore] at hfollows
    obtain ⟨final, hending, ⟨hfailed, hsuccess, -⟩ | ⟨hcompleted, payload, written, hpayload,
      hsuccess, hcache⟩⟩ := hconducted.success hfollows
    · exact ⟨final, hending, .inl ⟨hfailed, hsuccess⟩⟩
    · rw [store_refreshed] at hcache
      exact ⟨final, hending, .inr ⟨hcompleted, payload, written, hpayload, hsuccess, hcache⟩⟩

end

/-- A first trigger of a report. -/
def firstVisit : Visit EngineError Execution :=
  (Engine.patient.run Engine.loads.id .manual).visit (Engine.stillWorld ∅ default)
    Engine.loadsStored ()

/-- A second trigger at the same time is served what the first one wrote. -/
theorem second_trigger_served :
    ∃ payload written, latest [firstVisit] = some (payload, written) ∧
      ((Engine.patient.run Engine.loads.id .api).visit (Engine.stillWorld ∅ default)
        firstVisit.after ()).FromCache payload := by
  have hvalid : Engine.loads.validate = .ok () := by rfl
  have hstored : Engine.loadsStored.reports.get? Engine.loads.id = some Engine.loads := rfl
  have hhistory : Engine.patient.History Engine.loads.id Unit Engine.loadsStored [firstVisit]
      firstVisit.after := .run .start .manual (Engine.stillWorld ∅ default) ()
  obtain ⟨payload, hsuccess⟩ : ∃ payload, firstVisit.success = some (payload, default) := ⟨_, rfl⟩
  have hlatest : latest [firstVisit] = some (payload, default) := by
    unfold latest
    rw [List.filterMap_cons_some hsuccess]
    rfl
  have hstop : (default : Instant).addMinutes? (60 : UInt32).toNat
    = some ⟨3600, 0, by decide, by decide⟩ := by decide +kernel
  have hcal : ∀ visit ∈ [firstVisit], InCalendar 60 visit.success := by
    intro visit hvisit
    rw [List.mem_singleton.mp hvisit, hsuccess]
    rintro _ _ ⟨⟩ hnone
    exact absurd (hstop.symm.trans hnone) nofun
  obtain ⟨hran, -, hserved, -⟩ := @cache_history _ _ _ 60 _ _ _ hvalid rfl hstored hhistory hcal
    .api (Engine.stillWorld ∅ default) () _ rfl
  refine hserved ?_
  rw [← Bool.not_eq_true, hran]
  intro hover
  have hpassed := hover payload default _ hlatest hstop
  exact absurd hpassed (by decide)

end Bulletin
