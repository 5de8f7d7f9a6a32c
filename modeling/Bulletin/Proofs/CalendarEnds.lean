import Bulletin.Proofs.RefreshesAmongWriters
import Bulletin.Proofs.Schedules

/-!
# The end of the calendar

The calendar ends. A cache that was written, or a report that was stamped, so late that its minutes
do not fit before that end has no next time. Whoever asks for this time breaks down, and nothing
else about a stored definition makes a trigger, a refresh of a widget or a tick break down.

* `Instant.addMinutes?_eq_none_iff` — minutes that do not fit
* `Cache.fresh_eq_none_iff`, `Report.due_eq_none_iff` — caches and schedules without a next time
* `Engine.trigger_ends`, `Engine.refreshWidget_crashes_iff`, `Engine.tick_ends` — who asks for it
* `calendar_ends` — all of it
-/

namespace Bulletin

/-! ## Minutes -/

theorem Instant.ofParts?_eq_none_iff {second : Int} {nano : Nat} (h : nano < 2000000000) :
    ofParts? second nano = none ↔ ¬ (-8334601228800 ≤ second ∧ second < 8210266876800) := by
  unfold ofParts?
  split
  · next hin => exact iff_of_false (Option.some_ne_none _) (not_not_intro hin.1)
  · next hout => exact iff_of_true rfl fun hin => hout ⟨hin, h⟩

/-- Minutes to come do not fit into the calendar if they lead to its end. -/
theorem Instant.addMinutes?_eq_none_iff {t : Instant} {minutes : Nat} :
    t.addMinutes? minutes = none ↔ 8210266876800 ≤ t.second + 60 * minutes := by
  have hnanos : (minutes : Int) * 60000000000 = minutes * 60 * 1000000000 := by omega
  have hforward : ¬ (1000000000 ≤ t.nano ∧ (minutes : Int) * 60 < 0) := by omega
  obtain ⟨hlow, hhigh⟩ := t.inRange
  have hnano := t.nano_lt
  unfold addMinutes? add?
  rw [hnanos, Int.mul_tdiv_cancel _ (by decide), Int.mul_tmod_left]
  simp only [if_neg hforward, Int.add_zero]
  split
  · -- no minutes at all: the instant stays in its leap second
    rw [ofParts?_eq_none_iff (by omega)]
    omega
  · rw [Int.fdiv_eq_ediv_of_nonneg _ (by decide), Int.fmod_eq_emod_of_nonneg _ (by decide),
      ofParts?_eq_none_iff (by omega)]
    split <;> omega

/-! ## Caches and schedules -/

/-- The cache was written too late for its time to live. -/
def Cache.EndsBeyondCalendar (cache : Cache) : Prop :=
  ∃ written, cache.cachedAt = some written ∧
    8210266876800 ≤ written.second + 60 * cache.ttlMinutes.toNat

/-- The cache holds a payload, and the end of its time is beyond the calendar. -/
def Cache.NeverEnds (cache : Cache) : Prop := cache.payload ≠ none ∧ cache.EndsBeyondCalendar

/-- The schedule is active, and the report was stamped too late for its interval. -/
def Report.NextBeyondCalendar (report : Report) : Prop :=
  ∃ schedule last, report.schedule = some schedule ∧ schedule.active = true ∧
    report.lastScheduledAt = some last ∧
    8210266876800 ≤ last.second + 60 * schedule.intervalMinutes.toNat

section

variable {cache : Cache} {report : Report} {now : Instant}

theorem Cache.expiry_eq_none_iff : cache.expiry = none ↔ cache.EndsBeyondCalendar := by
  unfold expiry EndsBeyondCalendar
  cases cache.cachedAt with
  | none => simp
  | some written =>
    rw [Option.map_eq_none_iff, Instant.addMinutes?_eq_none_iff]
    simp

theorem Cache.valid_eq_none_iff : cache.valid now = none ↔ cache.NeverEnds := by
  unfold valid NeverEnds
  rw [← expiry_eq_none_iff]
  cases cache.payload with
  | none => simp
  | some payload => simp

theorem Cache.fresh_eq_none_iff : cache.fresh now = none ↔ cache.NeverEnds := by
  unfold fresh
  rw [Option.map_eq_none_iff, valid_eq_none_iff]

/-- A cache that could be asked ends. -/
theorem Cache.not_neverEnds {found : Option Json} (h : cache.fresh now = some found) :
    ¬ cache.NeverEnds :=
  fun hnever => nomatch h.symm.trans (fresh_eq_none_iff.mpr hnever)

theorem Report.due_eq_none_iff : report.due now = none ↔ report.NextBeyondCalendar := by
  unfold due NextBeyondCalendar
  cases report.schedule with
  | none => simp
  | some schedule =>
    by_cases hactive : schedule.active = true
    · cases report.lastScheduledAt with
      | none => simp [hactive]
      | some last =>
        simp only [hactive, if_true, Option.map_eq_none_iff, Instant.addMinutes?_eq_none_iff]
        simp [hactive]
    · simp [hactive]

end

/-! ## Triggers -/

namespace Engine

variable {σ : Type} {engine : Engine} {id : ReportId} {cause : Trigger} {outside : World σ}
  {r r' : MemoryRepository} {s : σ} {report : Report} {t : Instant}

/-- A valid report whose cache never ends. -/
def Snags (r : MemoryRepository) (id : ReportId) : Prop :=
  ∃ report, r.reports.get? id = some report ∧ report.validate = .ok () ∧ report.cache.NeverEnds

/-- What a trigger that did not break down has come to by the time of its run. -/
structure Starts.Comes (id : ReportId) (r r' : MemoryRepository)
    (ending : Ending EngineError Begun) : Prop where
  noCrash : ∀ c, ending ≠ .crash c
  noSnag : ¬ Snags r id
  reports : r'.reports = r.reports
  started : ∀ report execution, ending = .value (.started report execution) →
    r.reports.get? id = some report ∧ execution.status = .running

theorem Starts.comes {ending : Ending EngineError Begun} {events : List Event}
    (h : Starts id cause outside r s ending events r') : Starts.Comes id r r' ending := by
  have hno {report : Report} (hstored : r.reports.get? id = some report)
      (hpast : ¬ (report.validate = .ok () ∧ report.cache.NeverEnds)) : ¬ Snags r id := by
    rintro ⟨other, hother, hsnags⟩
    cases hstored.symm.trans hother
    exact hpast hsnags
  cases h with
  | unknown hnone =>
    refine ⟨nofun, ?_, rfl, fun _ _ h => nomatch h⟩
    rintro ⟨report, hstored, -⟩
    exact nomatch hnone.symm.trans hstored
  | refused hstored hv =>
    refine ⟨nofun, hno hstored fun h => ?_, rfl, fun _ _ h => nomatch h⟩
    exact nomatch hv.symm.trans h.1
  | served hstored _ _ hfresh =>
    exact ⟨nofun, hno hstored fun h => Cache.not_neverEnds hfresh h.2, rfl,
      fun _ _ h => nomatch h⟩
  | started hstored _ _ hfresh =>
    refine ⟨nofun, hno hstored fun h => Cache.not_neverEnds hfresh h.2, rfl, ?_⟩
    rintro _ _ ⟨⟩
    exact ⟨hstored, rfl⟩

/-- A run comes to an end of its execution, and writes no report but its own. -/
theorem conduct_ends {execution : Execution} (hstatus : execution.status = .running)
    (hstored : r.reports.get? report.id = some report) (engine : Engine) (outside : World σ)
    (s : σ) :
    ∃ final r' s', (engine.conduct report execution : Action EngineError Execution).run
        (MemoryRepository.world outside) (r, s) = (.value final, r', s') ∧
      ∀ other, other ≠ report.id → r'.reports.get? other = r.reports.get? other := by
  obtain ⟨final, hfinal, hconducts⟩ :=
    @conduct_conducts σ EngineError engine report execution outside r s hstatus
  exact ⟨final, _, _, Prod.ext hfinal rfl, (hconducts.refreshes hstored).others⟩

/-- What a trigger comes to: it breaks down on a cache that never ends, or else it does not break
down, and writes no other report. -/
theorem trigger_ends (engine : Engine) (id : ReportId) (cause : Trigger) (outside : World σ)
    (r : MemoryRepository) (s : σ) :
    ∃ ending r' s', (engine.trigger id cause).run (MemoryRepository.world outside) (r, s)
        = (ending, r', s') ∧
      ((∃ c, ending = .crash c) ↔ Snags r id) ∧
      ∀ other, other ≠ id → r'.reports.get? other = r.reports.get? other := by
  -- an end that is no crash goes with a report that does not snag
  have calm {ending : Ending EngineError Triggered} (hending : ∀ c, ending ≠ .crash c)
      (hno : ¬ Snags r id) : (∃ c, ending = .crash c) ↔ Snags r id :=
    iff_of_false (fun ⟨c, hc⟩ => hending c hc) hno
  unfold trigger
  rw [Action.run_bind]
  have hways := start_starts_or_crashes id cause outside r s
  generalize (start id cause).trace (MemoryRepository.world outside) (r, s) = events at hways
  generalize (start id cause).run (MemoryRepository.world outside) (r, s) = begun at hways ⊢
  obtain ⟨ending, r₁, s₁⟩ := begun
  rcases hways with hstarts | ⟨report, c, s₂, hstored, hvalid, hfresh, hrun⟩
  · have hcomes : Starts.Comes id r r₁ ending := hstarts.comes
    have hothers : ∀ other, other ≠ id → r₁.reports.get? other = r.reports.get? other :=
      fun other _ => by rw [hcomes.reports]
    cases ending with
    | error e => exact ⟨_, r₁, s₁, rfl, calm nofun hcomes.noSnag, hothers⟩
    | crash c => exact absurd rfl (hcomes.noCrash c)
    | value begun =>
      cases begun with
      | served execution => exact ⟨_, r₁, s₁, rfl, calm nofun hcomes.noSnag, hothers⟩
      | started report execution =>
        obtain ⟨hstored, hstatus⟩ := hcomes.started report execution rfl
        obtain rfl : report.id = id := (Table.get?_eq_some_iff.mp hstored).2
        simp only
        split
        · obtain ⟨final, r₂, s₂, hrun, hkept⟩ :=
            conduct_ends hstatus (hcomes.reports ▸ hstored) engine outside s₁
          rw [Action.run_bind, hrun]
          exact ⟨_, r₂, s₂, rfl, calm nofun hcomes.noSnag, fun other hother =>
            (hkept other hother).trans (hothers other hother)⟩
        · exact ⟨_, r₁, _, rfl, calm nofun hcomes.noSnag, hothers⟩
  · cases hrun
    exact ⟨_, r, _, rfl,
      iff_of_true ⟨c, rfl⟩ ⟨report, hstored, hvalid, Cache.fresh_eq_none_iff.mp hfresh⟩,
      fun _ _ => rfl⟩

/-! ## Ticks -/

/-- A listed report breaks down a tick: it has no next time, or it is due and valid and its cache
never ends. -/
def Stops (report : Report) (t : Instant) : Prop :=
  report.NextBeyondCalendar ∨
    report.DueAt t ∧ report.validate = .ok () ∧ report.cache.NeverEnds

/-- A report that was stamped just now stops a tick if its trigger breaks down. -/
theorem snags_stamped_iff (hdue : report.DueAt t) :
    Snags (r.put .report (report.stamped t)) report.id ↔ Stops report t := by
  have hget : (r.put .report (report.stamped t)).reports.get? (report.stamped t).id
      = some (report.stamped t) := Table.get?_save_self _
  have hnext : ¬ report.NextBeyondCalendar := fun hnext =>
    nomatch (Report.due_eq_some_true_iff.mpr hdue).symm.trans (Report.due_eq_none_iff.mpr hnext)
  constructor
  · rintro ⟨other, hother, hvalid, hnever⟩
    cases hget.symm.trans hother
    exact .inr ⟨hdue, hvalid, hnever⟩
  · rintro (h | ⟨-, hvalid, hnever⟩)
    · exact absurd h hnext
    · exact ⟨_, hget, hvalid, hnever⟩

theorem tickReport_ends_of_due (hstored : r.reports.get? report.id = some report)
    (hdue : report.DueAt t) (engine : Engine) (outside : World σ) (s : σ) :
    ∃ ending r' s', (engine.tickReport t report).run (MemoryRepository.world outside) (r, s)
        = (ending, r', s') ∧
      ((∃ c, ending = .crash c) ↔ Stops report t) ∧ (∀ e, ending ≠ .error e) ∧
      ∀ other, other ≠ report.id → r'.reports.get? other = r.reports.get? other := by
  obtain ⟨ending, r', s', hrun, hcrash, hothers⟩ := trigger_ends engine report.id .scheduled
    outside (r.put .report (report.stamped t)) s
  rw [snags_stamped_iff hdue] at hcrash
  have hput : ∀ other, other ≠ report.id →
      (r.put .report (report.stamped t)).reports.get? other = r.reports.get? other :=
    fun other hother => (Table.get?_save _ other).trans (if_neg (Ne.symm hother))
  refine ⟨scheduledEnding ending, r', s',
    (tickReport_triggers hstored hdue engine outside s hrun).1, ?_, ?_, fun other hother => (hothers other hother).trans (hput other hother)⟩
  · rw [← hcrash]
    cases ending <;> simp [scheduledEnding]
  · cases ending <;> simp [scheduledEnding]

theorem tickReport_ends (hstored : r.reports.get? report.id = some report) (engine : Engine)
    (t : Instant) (outside : World σ) (s : σ) :
    ∃ ending r' s', (engine.tickReport t report).run (MemoryRepository.world outside) (r, s)
        = (ending, r', s') ∧
      ((∃ c, ending = .crash c) ↔ Stops report t) ∧ (∀ e, ending ≠ .error e) ∧
      ∀ other, other ≠ report.id → r'.reports.get? other = r.reports.get? other := by
  cases hdue : report.due t with
  | none =>
    obtain ⟨c, hrun⟩ : ∃ c, (engine.tickReport t report).run (MemoryRepository.world outside) (r, s)
        = (.crash c, r, s) := by
      unfold tickReport
      rw [hdue]
      exact ⟨_, rfl⟩
    exact ⟨.crash c, r, s, hrun, iff_of_true ⟨c, rfl⟩ (.inl (Report.due_eq_none_iff.mp hdue)),
      nofun, fun _ _ => rfl⟩
  | some due =>
    cases due with
    | false =>
      refine ⟨_, r, s, (tickReport_of_not_due hdue engine outside s).1,
        iff_of_false nofun ?_, nofun, fun _ _ => rfl⟩
      rintro (hnext | ⟨hdueAt, -⟩)
      · exact nomatch hdue.symm.trans (Report.due_eq_none_iff.mpr hnext)
      · exact nomatch hdue.symm.trans (Report.due_eq_some_true_iff.mpr hdueAt)
    | true =>
      exact tickReport_ends_of_due hstored (Report.due_eq_some_true_iff.mp hdue) engine outside s

/-- A tick over some reports breaks down if one of them does it; otherwise it comes to its end. -/
theorem tickReports_ends {listed : List Report} (hdistinct : (listed.map Report.id).Nodup)
    (hstored : ∀ report ∈ listed, r.reports.get? report.id = some report) (engine : Engine)
    (t : Instant) (outside : World σ) (s : σ) :
    ∃ ending r' s', (engine.tickReports t listed).run (MemoryRepository.world outside) (r, s)
        = (ending, r', s') ∧
      ((∃ c, ending = .crash c) ↔ ∃ report ∈ listed, Stops report t) ∧ ∀ e, ending ≠ .error e := by
  induction listed generalizing r s with
  | nil => exact ⟨.value [], r, s, rfl, by simp, nofun⟩
  | cons report rest ih =>
    obtain ⟨hfirst, hdistinct⟩ := List.nodup_cons.mp hdistinct
    obtain ⟨hreport, hrest⟩ := List.forall_mem_cons.mp hstored
    obtain ⟨ending, r₁, s₁, hrun, hcrash, hnoError, hkept⟩ :=
      tickReport_ends hreport engine t outside s
    have hsplit : (∃ other ∈ report :: rest, Stops other t) ↔
        Stops report t ∨ ∃ other ∈ rest, Stops other t := by
      simp only [List.mem_cons, exists_eq_or_imp]
    rw [hsplit, tickReports, Action.run_bind, hrun]
    cases ending with
    | error e => exact absurd rfl (hnoError e)
    | crash c =>
      exact ⟨.crash c, r₁, s₁, rfl, iff_of_true ⟨c, rfl⟩ (.inl (hcrash.mp ⟨c, rfl⟩)), nofun⟩
    | value execution =>
      -- the reports that are still to come stay as they were listed
      have hlater : ∀ other ∈ rest, r₁.reports.get? other.id = some other := fun other hother =>
        (hkept other.id fun he => hfirst (he ▸ List.mem_map_of_mem hother)).trans
          (hrest other hother)
      have hno : ¬ Stops report t := fun h => nomatch hcrash.mpr h
      obtain ⟨ending, r₂, s₂, hruns, hcrashes, hnoErrors⟩ := ih hdistinct hlater s₁
      rw [or_iff_right hno, ← hcrashes]
      simp only
      rw [Action.run_bind, hruns]
      cases ending with
      | error e => exact absurd rfl (hnoErrors e)
      | crash c => exact ⟨.crash c, r₂, s₂, rfl, Iff.rfl, nofun⟩
      | value executions =>
        exact ⟨.value _, r₂, s₂, rfl, iff_of_false nofun nofun, nofun⟩

theorem tick_ends (engine : Engine) (outside : World σ) (r : MemoryRepository) (s : σ) :
    ((∃ c, (engine.tick.visit outside r s).ending = .crash c) ↔
        ∃ report ∈ r.reports.entities, Stops report (outside .now s).1) ∧
      ∀ e, (engine.tick.visit outside r s).ending ≠ .error e := by
  have hlist : r.answer (.list .report ())
      = (.ok (EntityKind.report.listing () r.reports.entities), r) := rfl
  obtain ⟨ending, r', s', hrun, hcrash, hnoError⟩ := tickReports_ends r.nodup_reports
    (fun report => MemoryRepository.get?_of_mem_listing) engine (outside .now s).1 outside
    (outside .now s).2
  have hending : (engine.tick.visit outside r s).ending = ending := by
    unfold Action.visit tick
    rw [MemoryRepository.run_now, MemoryRepository.run_call hlist, hrun]
  have hmem (report : Report) : report ∈ EntityKind.report.listing () r.reports.entities ↔
      report ∈ r.reports.entities := by
    rw [EntityKind.mem_listing]
    exact and_iff_left rfl
  rw [hending]
  simpa only [hmem] using And.intro hcrash hnoError

/-! ## Widgets -/

/-- A chart is not built anew if and only if a connector breaks down. -/
theorem rebuild_crashes_iff {id : WidgetId} {widget : Widget} {events : List Event}
    {ending : Ending EngineError WidgetView} (h : (engine.rebuild id widget).Yields events ending) :
    (∃ c, ending = .crash c) ↔ ∃ event ∈ events, event.Crashes := by
  obtain ⟨queried, rest, built, rfl, hchart, hrest⟩ := Action.yields_andThen.mp h
  obtain ⟨fetched, hquery, rfl⟩ := widgetChart_yields hchart
  have hcrash := yields_execute_crash hquery
  cases fetched with
  | error e =>
    obtain ⟨rfl, rfl⟩ := Action.yields_stop.mp hrest
    rw [List.append_nil, ← hcrash]
    refine iff_of_false ?_ ?_ <;> rintro ⟨c, ⟨⟩⟩
  | crash c =>
    obtain ⟨rfl, rfl⟩ := Action.yields_stop.mp hrest
    rw [List.append_nil, ← hcrash]
    exact iff_of_true ⟨c, rfl⟩ ⟨c, rfl⟩
  | value rows =>
    -- once there are rows, the rest looks at the clock and calls the repository
    have hqueried : ¬ ∃ event ∈ queried, event.Crashes := by
      rw [← hcrash]
      rintro ⟨c, ⟨⟩⟩
    have calm {last : List Event} (hending : ∀ c, ending ≠ .crash c)
        (hlast : ¬ ∃ event ∈ last, event.Crashes) :
        (∃ c, ending = .crash c) ↔ ∃ event ∈ queried ++ last, event.Crashes := by
      refine iff_of_false (fun ⟨c, hc⟩ => hending c hc) ?_
      rintro ⟨event, hmem, hevent⟩
      rcases List.mem_append.mp hmem with hmem | hmem
      · exact hqueried ⟨event, hmem, hevent⟩
      · exact hlast ⟨event, hmem, hevent⟩
    obtain ⟨again, rest, rfl, hread⟩ | ⟨e, rfl, rfl⟩ := Action.yields_call_bind.mp hrest
    · obtain ⟨written, rest, rfl, hwritten⟩ := Action.yields_request_bind.mp hread
      obtain ⟨_, rest, rfl, hsaved⟩ | ⟨e, rfl, rfl⟩ := Action.yields_call_bind.mp hwritten
      · obtain ⟨rfl, rfl⟩ := Action.yields_stop.mp hsaved
        exact calm (by rintro c ⟨⟩) (by simp [Event.Crashes])
      · exact calm (by rintro c ⟨⟩) (by simp [Event.Crashes])
    · exact calm (by rintro c ⟨⟩) (by simp [Event.Crashes])

/-- A refresh that found a widget, or none, breaks down on a cache that never ends, or when a
connector does. -/
theorem refreshWidget_crashes_of_yields {id : WidgetId} {found : Option Widget}
    {rest : List Event} {ending : Ending EngineError WidgetView}
    (h : (engine.refreshWidget id).Yields (⟨.call (.get .widget id), .ok found⟩ :: rest) ending) :
    (∃ c, ending = .crash c) ↔
      (∃ widget, found = some widget ∧ widget.validate = .ok () ∧ widget.cache.NeverEnds) ∨
      ∃ event ∈ rest, event.Crashes := by
  unfold refreshWidget at h
  obtain ⟨answer, _, heq, hrest⟩ | ⟨e, heq, -⟩ := Action.yields_call_bind.mp h
  · cases heq
    cases found with
    | none =>
      obtain ⟨rfl, rfl⟩ := Action.yields_stop.mp hrest
      simp
    | some widget =>
      cases hv : widget.validate with
      | error e =>
        simp only [hv] at hrest
        obtain ⟨rfl, rfl⟩ := Action.yields_stop.mp hrest
        simp [hv]
      | ok _ =>
        simp only [hv] at hrest
        obtain ⟨now, rest, rfl, hnow⟩ := Action.yields_request_bind.mp hrest
        rcases hfresh : widget.cache.fresh now with _ | _ | chart
        · rw [hfresh] at hnow
          obtain ⟨rfl, rfl⟩ := Action.yields_stop.mp hnow
          exact iff_of_true ⟨_, rfl⟩ (.inl ⟨widget, rfl, hv, Cache.fresh_eq_none_iff.mp hfresh⟩)
        · rw [hfresh] at hnow
          rw [rebuild_crashes_iff hnow]
          simp [Event.Crashes, Cache.not_neverEnds hfresh]
        · rw [hfresh] at hnow
          obtain ⟨rfl, rfl⟩ := Action.yields_stop.mp hnow
          simp [Event.Crashes, Cache.not_neverEnds hfresh]
  · cases heq

theorem refreshWidget_crashes_iff (engine : Engine) (id : WidgetId) (outside : World σ)
    (r : MemoryRepository) (s : σ) :
    (∃ c, ((engine.refreshWidget id).visit outside r s).ending = .crash c) ↔
      (∃ widget, r.widgets.get? id = some widget ∧ widget.validate = .ok () ∧
        widget.cache.NeverEnds) ∨
      ∃ event ∈ ((engine.refreshWidget id).visit outside r s).events, event.Crashes := by
  have hget : r.answer (.get .widget id) = (.ok (r.widgets.get? id), r) := rfl
  have hyields := Action.yields_trace (MemoryRepository.world outside) (engine.refreshWidget id)
    (r, s)
  have hevents : ∃ rest, (engine.refreshWidget id).trace (MemoryRepository.world outside) (r, s)
      = ⟨.call (.get .widget id), .ok (r.widgets.get? id)⟩ :: rest := by
    unfold refreshWidget
    rw [MemoryRepository.trace_call hget]
    exact ⟨_, rfl⟩
  obtain ⟨rest, hevents⟩ := hevents
  unfold Action.visit
  rw [hevents] at hyields ⊢
  rw [refreshWidget_crashes_of_yields hyields]
  simp [Event.Crashes]

end Engine

/-- **The end of the calendar.** The end of a cache, whether it is valid, what it serves, and
whether a report is due can always be told, unless the minutes lead beyond the calendar. A trigger
and a tick break down for this reason only, a refresh of a widget for this reason or because a
connector does; and each of them does break down on every stored definition of this kind that it
comes to. -/
theorem calendar_ends {σ : Type} (engine : Engine) (outside : World σ) (r : MemoryRepository)
    (s : σ) :
    (∀ cache : Cache, ∀ now, (cache.expiry = none ↔ cache.EndsBeyondCalendar) ∧
      (cache.valid now = none ↔ cache.NeverEnds) ∧ (cache.fresh now = none ↔ cache.NeverEnds)) ∧
    (∀ report : Report, ∀ now, report.due now = none ↔ report.NextBeyondCalendar) ∧
    (∀ id cause, (∃ c, ((engine.trigger id cause).visit outside r s).ending = .crash c) ↔
      ∃ report, r.reports.get? id = some report ∧ report.validate = .ok () ∧
        report.cache.NeverEnds) ∧
    (∀ id, (∃ c, ((engine.refreshWidget id).visit outside r s).ending = .crash c) ↔
      (∃ widget, r.widgets.get? id = some widget ∧ widget.validate = .ok () ∧
        widget.cache.NeverEnds) ∨
      ∃ event ∈ ((engine.refreshWidget id).visit outside r s).events, event.Crashes) ∧
    ((∃ c, (engine.tick.visit outside r s).ending = .crash c) ↔
      ∃ report ∈ r.reports.entities, report.NextBeyondCalendar ∨
        report.DueAt (outside .now s).1 ∧ report.validate = .ok () ∧ report.cache.NeverEnds) := by
  refine ⟨fun cache now => ⟨Cache.expiry_eq_none_iff, Cache.valid_eq_none_iff,
    Cache.fresh_eq_none_iff⟩, fun report now => Report.due_eq_none_iff, fun id cause => ?_,
    fun id => Engine.refreshWidget_crashes_iff engine id outside r s,
    (Engine.tick_ends engine outside r s).1⟩
  obtain ⟨ending, r', s', hrun, hcrash, -⟩ := Engine.trigger_ends engine id cause outside r s
  have hending : ((engine.trigger id cause).visit outside r s).ending = ending :=
    congrArg Prod.fst hrun
  rw [hending]
  exact hcrash

/-- A report that was stamped a minute before the calendar ends. -/
def lastMinuteReport : Report :=
  { everyHour with id := ⟨.ofNat 1⟩, lastScheduledAt := Instant.ofParts? 8210266876740 0 }

/-- A repository with this report and one that is due. -/
def lastMinuteStored : MemoryRepository := everyHourStored.put .report lastMinuteReport

/-- It keeps a tick from triggering anything, the report that is due and valid included. -/
theorem lastMinute_tick_crashes :
    lastMinuteReport.due default = none ∧ everyHour.DueAt default ∧ everyHour.validate = .ok () ∧
      everyHour ∈ lastMinuteStored.reports.entities ∧
      ∃ c, (Engine.patient.tick.visit (Engine.stillWorld ∅ default) lastMinuteStored ()).ending
        = .crash c := by
  have hnext : lastMinuteReport.NextBeyondCalendar :=
    ⟨⟨60, true⟩, ⟨8210266876740, 0, by decide, by decide⟩, rfl, rfl, rfl, by decide⟩
  have hdue : everyHour.DueAt default := ⟨⟨60, true⟩, rfl, rfl, by decide, fun _ h => nomatch h⟩
  have hentities : lastMinuteStored.reports.entities = [everyHour, lastMinuteReport] := by rfl
  refine ⟨Report.due_eq_none_iff.mpr hnext, hdue, by rfl, ?_, ?_⟩
  · rw [hentities]
    exact List.mem_cons_self
  · refine (Engine.tick_ends _ _ _ _).1.mpr ⟨lastMinuteReport, ?_, .inl hnext⟩
    rw [hentities]
    exact List.mem_cons_of_mem _ List.mem_cons_self

end Bulletin
