import Bulletin.Engine.Schedule
import Bulletin.Proofs.Listings
import Bulletin.Proofs.TriggerOutcomes

/-!
# A tick over the schedules

A tick of an engine that waits for its runs goes through the reports that were due when it listed
them. Each of them is looked at again, stamped and triggered. A trigger writes no report but its
own, and of that one only the cache, so the reports that are still to come stay as they were
listed, and the second look finds what the first one found.

* `Report.due_eq_some_true_iff` — when a report is due
* `Engine.trigger_stamped` — what the trigger of a stamped report comes to
* `Engine.visit_tick` — all that a tick does
-/

namespace Bulletin

/-! ## Due reports -/

namespace Report

/-- A report has to run by itself at an instant: its schedule is switched on and has an interval,
and if the report has a stamp, the interval since then is over. -/
def DueAt (report : Report) (t : Instant) : Prop :=
  ∃ schedule, report.schedule = some schedule ∧ schedule.enabled = true ∧
    schedule.intervalMinutes ≠ 0 ∧ ∀ last, report.lastScheduledAt = some last →
      ∃ next, last.addMinutes? schedule.intervalMinutes.toNat = some next ∧ t.before next = false

/-- The end of the cache and the end of the interval lie within the calendar. -/
structure InCalendar (report : Report) : Prop where
  cache : report.cache.expiry ≠ none
  schedule : ∀ t, report.due t ≠ none

/-- The report with a new stamp. -/
def stamped (report : Report) (t : Instant) : Report := { report with lastScheduledAt := some t }

variable {report : Report} {t : Instant}

theorem due_eq_some_true_iff : report.due t = some true ↔ report.DueAt t := by
  unfold due DueAt Schedule.active
  cases hs : report.schedule with
  | none => simp
  | some schedule =>
    by_cases hactive : schedule.enabled = true ∧ schedule.intervalMinutes ≠ 0
    · cases hl : report.lastScheduledAt with
      | none => simp [hactive]
      | some last => simp [hactive]
    · rw [not_and] at hactive
      simp only [Option.some.injEq, exists_eq_left', Bool.and_eq_true, bne_iff_ne]
      rw [if_neg fun h => hactive h.1 h.2]
      simp only [Option.some.injEq, Bool.false_eq_true, false_iff]
      exact fun h => hactive h.1 h.2.1

instance (report : Report) (t : Instant) : Decidable (report.DueAt t) :=
  decidable_of_iff _ due_eq_some_true_iff

theorem due_eq_some_false (hcal : report.InCalendar) (h : ¬ report.DueAt t) :
    report.due t = some false := by
  rw [← due_eq_some_true_iff] at h
  have hsome := hcal.schedule t
  match hd : report.due t with
  | none => exact absurd hd hsome
  | some true => exact absurd hd h
  | some false => rfl

end Report

namespace MemoryRepository

/-- The reports that are due, in order of name and identifier. -/
def dueReports (r : MemoryRepository) (t : Instant) : List Report :=
  (EntityKind.report.listing () r.reports.entities).filter fun report => report.DueAt t

variable {r : MemoryRepository} {report : Report} {t : Instant}

theorem get?_of_mem_listing (h : report ∈ EntityKind.report.listing () r.reports.entities) :
    r.reports.get? report.id = some report :=
  Table.get?_eq_some_iff.mpr ⟨(EntityKind.mem_listing.mp h).1, rfl⟩

theorem mem_dueReports :
    report ∈ r.dueReports t ↔ r.reports.get? report.id = some report ∧ report.DueAt t := by
  unfold dueReports
  rw [List.mem_filter, EntityKind.mem_listing, Table.get?_eq_some_iff, decide_eq_true_iff]
  exact and_congr_left fun _ => ⟨fun h => ⟨h.1, rfl⟩, fun h => ⟨h.1, rfl⟩⟩

/-- Every report is listed once. -/
theorem nodup_reports (r : MemoryRepository) :
    ((EntityKind.report.listing () r.reports.entities).map Report.id).Nodup := by
  have hperm : (EntityKind.report.listing () r.reports.entities).Perm
      (r.reports.entities.filter (EntityKind.report.inScope ())) := List.mergeSort_perm _ _
  exact (hperm.map Report.id).nodup_iff.mpr
    (r.reports.distinct.sublist (List.filter_sublist.map _))

/-- The due reports are sorted by name and identifier, and none of them occurs twice. -/
theorem pairwise_dueReports (r : MemoryRepository) (t : Instant) :
    (r.dueReports t).Pairwise fun a b => EntityKind.report.order a b = .lt := by
  refine List.Pairwise.filter _ ?_
  have hsorted := EntityKind.pairwise_listing () r.reports.entities
  have hdistinct := List.pairwise_map.mp (nodup_reports r)
  refine (hsorted.and hdistinct).imp fun {a b} ⟨hle, hne⟩ => ?_
  cases ho : EntityKind.report.order a b with
  | lt => rfl
  | eq => exact absurd (EntityKind.eq_id_of_order_eq ho) hne
  | gt =>
    rw [ho] at hle
    exact absurd hle (by decide)

end MemoryRepository

/-! ## Triggers of stamped reports -/

/-- Only the cache of one report is written. -/
structure MemoryRepository.Refreshes (r r' : MemoryRepository) (report : Report) : Prop where
  cache : ∃ cache, r'.reports.get? report.id = some { report with cache }
  others : ∀ id, id ≠ report.id → r'.reports.get? id = r.reports.get? id

theorem MemoryRepository.refreshes_of_reports {r r' : MemoryRepository} {report : Report}
    (h : r'.reports = r.reports) (hr : r.reports.get? report.id = some report) :
    r.Refreshes r' report :=
  ⟨⟨report.cache, h ▸ hr⟩, fun _ _ => h ▸ rfl⟩

/-- What a trigger that is waited for comes to: an execution of a valid report, a refusal of any
other one. -/
structure Visit.Concerns (visit : Visit EngineError Engine.Triggered) (report : Report) : Prop where
  valid : report.validate = .ok () →
    ∃ execution, visit.ending = .value (.finished execution) ∧ execution.reportId = report.id
  invalid : ∀ e, report.validate = .error e → visit.Refused (.validation e)
  refreshes : visit.before.Refreshes visit.after report

theorem Visit.Concerns.ending_ne_crash {visit : Visit EngineError Engine.Triggered}
    {report : Report} (h : visit.Concerns report) (c : Crash) : visit.ending ≠ .crash c := by
  intro hcrash
  cases hv : report.validate with
  | ok _ =>
    obtain ⟨_, hending, -⟩ := h.valid hv
    exact absurd (hcrash.symm.trans hending) nofun
  | error e => exact absurd (hcrash.symm.trans (h.invalid e hv).ending) nofun

namespace Engine

variable {σ : Type} {engine : Engine} {outside : World σ} {r : MemoryRepository} {s : σ}
  {report : Report} {t : Instant}

theorem Conducts.refreshes {execution : Execution} {r r' : MemoryRepository} {final : Execution}
    {events : List Event} (h : engine.Conducts report execution outside r s final events r')
    (hr : r.reports.get? report.id = some report) : r.Refreshes r' report := by
  cases h with
  | @completed output now written work final stored _ _ _ hstored =>
    cases hr.symm.trans hstored
    refine ⟨⟨_, Table.get?_save_self _⟩, fun id hid => ?_⟩
    exact (Table.get?_save _ id).trans (if_neg (Ne.symm hid))
  | orphaned | failed => exact MemoryRepository.refreshes_of_reports rfl hr

theorem Conducts.reportId {execution : Execution} {r r' : MemoryRepository} {final : Execution}
    {events : List Event} (h : engine.Conducts report execution outside r s final events r') :
    final.reportId = execution.reportId := by
  have hcomplete : ∀ {payload artifacts now},
      execution.complete payload artifacts now = .ok final →
        final.reportId = execution.reportId := by
    intro payload artifacts now hf
    unfold Execution.complete at hf
    split at hf <;> cases hf
    rfl
  cases h with
  | completed _ _ hf | orphaned _ _ hf => exact hcomplete hf
  | failed _ _ hf =>
    unfold Execution.fail at hf
    split at hf <;> cases hf
    rfl

/-- A trigger that is waited for concerns its report only. -/
theorem visit_trigger_concerns (hawait : engine.config.awaitCompletion = true)
    (hr : r.reports.get? report.id = some report) (hcal : report.cache.expiry ≠ none)
    (trigger : Trigger) (outside : World σ) (s : σ) :
    ((engine.trigger report.id trigger).visit outside r s).Concerns report := by
  have hfound : ∀ other, r.reports.get? report.id = some other → other.cache.expiry ≠ none := by
    intro other hother
    cases hr.symm.trans hother
    exact hcal
  have hways := @start_starts _ report.id trigger outside r s hfound
  generalize hevents : (start report.id trigger).trace (MemoryRepository.world outside) (r, s)
    = events at hways
  generalize hstart : (start report.id trigger).run (MemoryRepository.world outside) (r, s)
    = begun at hways
  obtain ⟨ending, r', s'⟩ := begun
  change Starts report.id trigger outside r s ending events r' at hways
  have hidle := hways.idle
  cases hways with
  | unknown hnone => exact absurd (hr.symm.trans hnone) nofun
  | refused hstored hv =>
    cases hr.symm.trans hstored
    obtain ⟨field, reason, rfl⟩ := Report.validate_error hv
    unfold Engine.trigger
    rw [Action.visit_bind_error hstart, hevents]
    refine ⟨fun hok => absurd (hv.symm.trans hok) nofun, fun e he => ?_,
      MemoryRepository.refreshes_of_reports rfl hr⟩
    cases hv.symm.trans he
    exact ⟨rfl, hidle, rfl⟩
  | served hstored hv =>
    cases hr.symm.trans hstored
    unfold Engine.trigger
    rw [Action.visit_bind_value hstart]
    exact ⟨fun _ => ⟨_, rfl, rfl⟩, fun e he => absurd (hv.symm.trans he) nofun,
      MemoryRepository.refreshes_of_reports rfl hr⟩
  | started hstored hv =>
    cases hr.symm.trans hstored
    obtain ⟨final, hfinal, hconducts⟩ := @conduct_conducts _ EngineError engine report
      (.running _ report.id trigger _ _) outside _ s' rfl
    rw [visit_awaited hstart hawait rfl hfinal]
    obtain ⟨hcache, hothers⟩ := hconducts.refreshes hr
    exact ⟨fun _ => ⟨final, rfl, hconducts.reportId⟩,
      fun e he => absurd (hv.symm.trans he) nofun, hcache, hothers⟩

end Engine

/-! ## Passes -/

/-- What a tick did for one report that was due: the report as it stood when its turn came, and the
trigger after it was stamped. -/
structure Pass where
  report : Report
  visit : Visit EngineError Engine.Triggered

namespace Pass

variable (pass : Pass)

/-- A look at the report, its stamp, and the trigger. -/
def events (t : Instant) : List Event :=
  ⟨.call (.get .report pass.report.id), .ok (some pass.report)⟩ ::
    ⟨.call (.save .report (pass.report.stamped t)), .ok ()⟩ :: pass.visit.events

/-- The execution that the trigger gave. -/
def execution? : Option ExecutionId :=
  match pass.visit.ending with
  | .value triggered => some triggered.execution.id
  | _ => none

/-- The trigger is one of the engine, in the world of the tick, and finds the report with its
stamp. -/
structure Made {σ : Type} (engine : Engine) (outside : World σ) (t : Instant) : Prop where
  triggered : ∃ s, pass.visit
    = (engine.trigger pass.report.id .scheduled).visit outside pass.visit.before s
  found : pass.visit.before.reports.get? pass.report.id = some (pass.report.stamped t)
  concerns : pass.visit.Concerns (pass.report.stamped t)

end Pass

namespace Engine

variable {σ : Type} {engine : Engine} {outside : World σ} {r : MemoryRepository} {s : σ}
  {report : Report} {t : Instant}

/-- A report that is still due is stamped. -/
theorem stampDue_of_due (hr : r.reports.get? report.id = some report) (hdue : report.DueAt t)
    (outside : World σ) (s : σ) :
    (stampDue report.id t).run (MemoryRepository.world outside) (r, s)
        = (.value true, r.put .report (report.stamped t), s) ∧
      (stampDue report.id t).trace (MemoryRepository.world outside) (r, s)
        = [⟨.call (.get .report report.id), .ok (some report)⟩,
          ⟨.call (.save .report (report.stamped t)), .ok ()⟩] := by
  have hget : r.answer (.get .report report.id) = (.ok (some report), r) := by
    rw [r.answer_get_report, hr]
  unfold stampDue
  rw [MemoryRepository.run_tryCall hget, MemoryRepository.trace_tryCall hget]
  simp only [Report.due_eq_some_true_iff.mpr hdue]
  exact ⟨rfl, rfl⟩

theorem tickReport_of_not_due (h : report.due t = some false) (engine : Engine)
    (outside : World σ) (s : σ) :
    (engine.tickReport t report).run (MemoryRepository.world outside) (r, s) = (.value none, r, s) ∧
      (engine.tickReport t report).trace (MemoryRepository.world outside) (r, s) = [] := by
  unfold tickReport
  rw [h]
  exact ⟨rfl, rfl⟩

/-- What a tick makes of the end of a trigger: a failure is passed over. -/
def scheduledEnding : Ending EngineError Triggered → Ending EngineError (Option ExecutionId)
  | .value triggered => .value (some triggered.execution.id)
  | .error _ => .value none
  | .crash c => .crash c

/-- A report that is due is stamped and then triggered. -/
theorem tickReport_triggers (hr : r.reports.get? report.id = some report) (hdue : report.DueAt t)
    (engine : Engine) (outside : World σ) (s : σ) {ending : Ending EngineError Triggered}
    {after : MemoryRepository × σ}
    (hrun : (engine.trigger report.id .scheduled).run (MemoryRepository.world outside)
      (r.put .report (report.stamped t), s) = (ending, after)) :
    (engine.tickReport t report).run (MemoryRepository.world outside) (r, s)
        = (scheduledEnding ending, after) ∧
      (engine.tickReport t report).trace (MemoryRepository.world outside) (r, s)
        = [⟨.call (.get .report report.id), .ok (some report)⟩,
            ⟨.call (.save .report (report.stamped t)), .ok ()⟩] ++
          (engine.trigger report.id .scheduled).trace (MemoryRepository.world outside)
            (r.put .report (report.stamped t), s) := by
  obtain ⟨hstamp, hevents⟩ := stampDue_of_due hr hdue outside s
  unfold tickReport
  rw [Report.due_eq_some_true_iff.mpr hdue]
  show (stampDue report.id t >>= _).run _ _ = _ ∧ (stampDue report.id t >>= _).trace _ _ = _
  rw [Action.run_bind, Action.trace_bind, hstamp, hevents]
  simp only [if_true]
  rw [Action.run_result_bind, Action.trace_result_bind, hrun]
  -- what is done with the end of the trigger asks for nothing
  refine ⟨?_, congrArg _ ?_⟩ <;> cases ending
  · rfl
  · rfl
  · rfl
  · exact List.append_nil _
  · exact List.append_nil _
  · exact List.append_nil _

/-- A report that is due has its pass. -/
theorem tickReport_of_due (hawait : engine.config.awaitCompletion = true)
    (hr : r.reports.get? report.id = some report) (hcal : report.InCalendar)
    (hdue : report.DueAt t) (outside : World σ) (s : σ) :
    ∃ pass : Pass, ∃ s', pass.report = report ∧ pass.Made engine outside t ∧
      pass.visit.before = r.put .report (report.stamped t) ∧
      (engine.tickReport t report).run (MemoryRepository.world outside) (r, s)
        = (.value pass.execution?, pass.visit.after, s') ∧
      (engine.tickReport t report).trace (MemoryRepository.world outside) (r, s)
        = pass.events t := by
  have hstored : (r.put .report (report.stamped t)).reports.get? (report.stamped t).id
      = some (report.stamped t) := Table.get?_save_self _
  have hconcerns := visit_trigger_concerns (s := s) hawait hstored hcal.cache .scheduled outside
  have hcrash : ∀ c, ((engine.trigger report.id .scheduled).run (MemoryRepository.world outside)
      (r.put .report (report.stamped t), s)).1 ≠ .crash c := hconcerns.ending_ne_crash
  rcases hrun : (engine.trigger report.id .scheduled).run (MemoryRepository.world outside)
    (r.put .report (report.stamped t), s) with ⟨ending, r', s'⟩
  obtain ⟨htick, htrace⟩ := tickReport_triggers hr hdue engine outside s hrun
  rw [hrun] at hcrash
  refine ⟨⟨report, (engine.trigger report.id .scheduled).visit outside
    (r.put .report (report.stamped t)) s⟩, s', rfl, ⟨⟨s, rfl⟩, hstored, hconcerns⟩, rfl,
    htick.trans ?_, htrace⟩
  unfold Pass.execution? Action.visit
  rw [hrun]
  cases ending with
  | value triggered => rfl
  | error e => rfl
  | crash c => exact absurd rfl (hcrash c)

/-- All passes over a list of reports. -/
structure Passes (engine : Engine) (outside : World σ) (t : Instant) (listed : List Report)
    (r r' : MemoryRepository) (passes : List Pass) : Prop where
  due : passes.map Pass.report = listed.filter fun report => report.DueAt t
  made : ∀ pass ∈ passes, pass.Made engine outside t
  stamped : ∀ report ∈ listed.filter fun report => report.DueAt t, ∃ cache,
    r'.reports.get? report.id = some { report.stamped t with cache }
  others : ∀ id, (∀ report ∈ listed.filter fun report => report.DueAt t, report.id ≠ id) →
    r'.reports.get? id = r.reports.get? id

section

variable {rest : List Report} {r₁ r' : MemoryRepository} {pass : Pass} {passes : List Pass}

theorem Passes.nil (engine : Engine) (outside : World σ) (t : Instant) (r : MemoryRepository) :
    engine.Passes outside t [] r r [] :=
  ⟨rfl, fun _ h => absurd h List.not_mem_nil, fun _ h => absurd h List.not_mem_nil, fun _ _ => rfl⟩

/-- A report that is not due has no pass. -/
theorem Passes.skip (hdue : ¬ report.DueAt t) (h : engine.Passes outside t rest r r' passes) :
    engine.Passes outside t (report :: rest) r r' passes := by
  have hfilter : (report :: rest).filter (fun report => report.DueAt t)
      = rest.filter fun report => report.DueAt t :=
    List.filter_cons_of_neg (by simpa using hdue)
  exact ⟨hfilter ▸ h.due, h.made, hfilter ▸ h.stamped, hfilter ▸ h.others⟩

/-- The pass of a due report, and the passes of reports other than this one. -/
theorem Passes.cons (hreport : pass.report = report) (hmade : pass.Made engine outside t)
    (hbefore : pass.visit.before = r.put .report (report.stamped t)) (hdue : report.DueAt t)
    (hne : ∀ other ∈ rest, other.id ≠ report.id)
    (h : engine.Passes outside t rest pass.visit.after r' passes) :
    engine.Passes outside t (report :: rest) r r' (pass :: passes) := by
  subst hreport
  have hfilter : (pass.report :: rest).filter (fun report => report.DueAt t)
      = pass.report :: rest.filter fun report => report.DueAt t :=
    List.filter_cons_of_pos (by simpa using hdue)
  obtain ⟨⟨cache, hcache⟩, hothers⟩ := hmade.concerns.refreshes
  refine ⟨?_, ?_, ?_, ?_⟩
  · rw [hfilter, List.map_cons, h.due]
  · intro other hother
    rcases List.mem_cons.mp hother with rfl | hother
    · exact hmade
    · exact h.made other hother
  · rw [hfilter]
    intro other hother
    rcases List.mem_cons.mp hother with rfl | hother
    · refine ⟨cache, (h.others _ fun other hother => ?_).trans hcache⟩
      exact hne other (List.mem_filter.mp hother).1
    · exact h.stamped other hother
  · rw [hfilter]
    intro id hid
    have hown := hid _ List.mem_cons_self
    rw [h.others id fun other hother => hid other (List.mem_cons_of_mem _ hother),
      hothers id (Ne.symm hown), hbefore]
    exact (Table.get?_save _ id).trans (if_neg hown)

end

theorem tickReports_passes (hawait : engine.config.awaitCompletion = true) {listed : List Report}
    (hdistinct : (listed.map Report.id).Nodup)
    (hr : ∀ report ∈ listed, r.reports.get? report.id = some report)
    (hcal : ∀ report ∈ listed, report.InCalendar) (t : Instant) (outside : World σ) (s : σ) :
    ∃ passes r' s',
      (engine.tickReports t listed).run (MemoryRepository.world outside) (r, s)
          = (.value (passes.filterMap Pass.execution?), r', s') ∧
        (engine.tickReports t listed).trace (MemoryRepository.world outside) (r, s)
          = passes.flatMap (Pass.events · t) ∧
        engine.Passes outside t listed r r' passes := by
  induction listed generalizing r s with
  | nil => exact ⟨[], r, s, rfl, rfl, .nil engine outside t r⟩
  | cons report rest ih =>
    rw [List.map_cons, List.nodup_cons] at hdistinct
    have hne : ∀ other ∈ rest, other.id ≠ report.id := fun other hother he =>
      hdistinct.1 (he ▸ List.mem_map_of_mem hother)
    have hrest : ∀ other ∈ rest, other.InCalendar := fun other hother =>
      hcal other (List.mem_cons_of_mem _ hother)
    have hstored := hr report List.mem_cons_self
    unfold tickReports
    rw [Action.run_bind, Action.trace_bind]
    by_cases hdue : report.DueAt t
    · obtain ⟨pass, s₁, hreport, hmade, hbefore, hrun, htrace⟩ :=
        tickReport_of_due hawait hstored (hcal report List.mem_cons_self) hdue outside s
      -- the trigger leaves the reports that are still to come
      have hlater : ∀ other ∈ rest,
          pass.visit.after.reports.get? other.id = some other := by
        intro other hother
        have hother' := hmade.concerns.refreshes.others other.id
          (by rw [hreport]; exact hne other hother)
        rw [hother', hbefore]
        exact (Table.get?_save _ _).trans ((if_neg (Ne.symm (hne other hother))).trans
          (hr other (List.mem_cons_of_mem _ hother)))
      obtain ⟨passes, r', s', hruns, htraces, hpasses⟩ := ih hdistinct.2 hlater hrest s₁
      refine ⟨pass :: passes, r', s', ?_, ?_, .cons hreport hmade hbefore hdue hne hpasses⟩
      · rw [hrun]
        simp only
        rw [Action.run_bind, hruns]
        cases he : pass.execution? with
        | none => rw [List.filterMap_cons_none he]; rfl
        | some id => rw [List.filterMap_cons_some he]; rfl
      · rw [hrun, htrace]
        simp only
        rw [Action.trace_bind, htraces, hruns]
        exact congrArg _ (List.append_nil _)
    · obtain ⟨hrun, htrace⟩ := tickReport_of_not_due (r := r)
        (Report.due_eq_some_false (hcal report List.mem_cons_self) hdue) engine outside s
      obtain ⟨passes, r', s', hruns, htraces, hpasses⟩ := ih hdistinct.2
        (fun other hother => hr other (List.mem_cons_of_mem _ hother)) hrest s
      refine ⟨passes, r', s', ?_, ?_, hpasses.skip hdue⟩
      · rw [hrun]
        simp only
        rw [Action.run_bind, hruns]
        rfl
      · rw [hrun, htrace]
        simp only
        rw [Action.trace_bind, htraces, hruns]
        exact List.append_nil _

end Engine

/-! ## Ticks -/

/-- All that a tick did at an instant, in a world beside the repository. -/
structure Visit.Ticked {σ : Type} (visit : Visit EngineError (List ExecutionId)) (engine : Engine)
    (outside : World σ) (t : Instant) (passes : List Pass) : Prop where
  /-- each due report has one pass, in the order of the listing -/
  due : passes.map Pass.report = visit.before.dueReports t
  /-- the instant is read first, then the reports, and all else belongs to the passes -/
  events : visit.events = ⟨.now, t⟩ :: ⟨.call (.list .report ()),
    .ok (EntityKind.report.listing () visit.before.reports.entities)⟩ ::
      passes.flatMap (Pass.events · t)
  /-- it gives the executions of the passes -/
  ending : visit.ending = .value (passes.filterMap Pass.execution?)
  made : ∀ pass ∈ passes, pass.Made engine outside t
  /-- a due report is stored with its stamp, and changed in nothing else but the cache -/
  stamped : ∀ report ∈ visit.before.dueReports t, ∃ cache,
    visit.after.reports.get? report.id = some { report.stamped t with cache }
  /-- any other report is as it was -/
  others : ∀ id, (∀ report ∈ visit.before.dueReports t, report.id ≠ id) →
    visit.after.reports.get? id = visit.before.reports.get? id

/-- The dates of all reports lie within the calendar. -/
def MemoryRepository.InCalendar (r : MemoryRepository) : Prop :=
  ∀ report ∈ r.reports.entities, report.InCalendar

theorem Engine.visit_tick {σ : Type} {engine : Engine} {r : MemoryRepository}
    (hawait : engine.config.awaitCompletion = true) (hcal : r.InCalendar) (outside : World σ)
    (s : σ) :
    ∃ passes, (engine.tick.visit outside r s).Ticked engine outside (outside .now s).1 passes := by
  have hlist : r.answer (.list .report ())
      = (.ok (EntityKind.report.listing () r.reports.entities), r) := rfl
  have hcalendar : ∀ report ∈ EntityKind.report.listing () r.reports.entities,
      report.InCalendar := fun report hreport => hcal report (EntityKind.mem_listing.mp hreport).1
  obtain ⟨passes, r', s', hrun, htrace, hpasses⟩ := tickReports_passes hawait r.nodup_reports
    (fun report => MemoryRepository.get?_of_mem_listing) hcalendar (outside .now s).1 outside
    (outside .now s).2
  have hticked : engine.tick.visit outside r s
      = ⟨r, .value (passes.filterMap Pass.execution?), ⟨.now, (outside .now s).1⟩ ::
        ⟨.call (.list .report ()), .ok (EntityKind.report.listing () r.reports.entities)⟩ ::
          passes.flatMap (Pass.events · (outside .now s).1), r'⟩ := by
    unfold Action.visit Engine.tick
    rw [MemoryRepository.run_now, MemoryRepository.trace_now, MemoryRepository.run_call hlist,
      MemoryRepository.trace_call hlist, hrun, htrace]
  rw [hticked]
  exact ⟨passes, hpasses.due, rfl, rfl, hpasses.made, hpasses.stamped, hpasses.others⟩

end Bulletin
