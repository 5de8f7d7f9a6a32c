import Bulletin.Proofs.SchedulePasses

/-!
# Schedules over time

An engine that waits for its runs ticks again and again, and the reports are edited by nobody else.
Then the stamp of a report is the time of the last tick that triggered it, so that the time between
two triggers is at least its interval, whatever the connectors answered and however often the
report failed.

* `Engine.Ticks.noted` — what the stamps say of the past
* `ticks_of_history` — what every tick did
-/

namespace Bulletin

/-! ## Time -/

theorem Instant.not_before_trans {a b c : Instant} (hab : a.before b = false)
    (hbc : b.before c = false) : a.before c = false := by
  rw [before_eq_false_iff] at hab hbc ⊢
  exact Std.TransCmp.isGE_trans hab hbc

/-- The interval of the report's schedule has passed from one instant to another. -/
def Report.Waited (report : Report) (start stop : Instant) : Prop :=
  ∃ schedule next, report.schedule = some schedule ∧
    start.addMinutes? schedule.intervalMinutes.toNat = some next ∧ stop.before next = false

/-! ## Histories -/

/-- A tick of a history: the time that it read first, and what it did. -/
structure Tick where
  time : Instant
  visit : Visit EngineError (List ExecutionId)

/-- The reports that were due when the tick listed them. -/
def Tick.due (tick : Tick) : List Report := tick.visit.before.dueReports tick.time

/-- Ticks of an engine, one after the other, each in a world of its own. In between anything may
happen to the repository, as long as the reports stay as they are. -/
inductive Engine.Ticks (engine : Engine) (σ : Type) : List Tick → MemoryRepository → Prop
  | start (r : MemoryRepository) : Ticks engine σ [] r
  | tick {past : List Tick} {r : MemoryRepository} (h : Ticks engine σ past r) (outside : World σ)
    (s : σ) :
    Ticks engine σ (past ++ [⟨(outside .now s).1, engine.tick.visit outside r s⟩])
      (engine.tick.visit outside r s).after
  | elsewhere {past : List Tick} {r r' : MemoryRepository} (h : Ticks engine σ past r)
    (hreports : r'.reports = r.reports) : Ticks engine σ past r'

/-- A report that was due at a tick is stored with the stamp of that tick, or of a later one that
came after the interval. -/
structure Tick.Noted (tick : Tick) (past : List Tick) (r : MemoryRepository) (report : Report)
    (last : Instant) (cache : Cache) : Prop where
  stored : r.reports.get? report.id = some { report.stamped last with cache }
  waited : last = tick.time ∨ report.Waited tick.time last
  stamp : ∃ other ∈ past, other.time = last

section

variable {σ : Type} {engine : Engine} {past : List Tick} {r r' : MemoryRepository} {tick : Tick}
  {report : Report} {last t : Instant} {cache : Cache}

/-- A report that is due again has waited for its interval since every tick that it was due at. -/
theorem Tick.Noted.waited_of_due (h : tick.Noted past r report last cache)
    (hlater : ∀ other ∈ past, t.before other.time = false)
    (hdue : Report.DueAt { report.stamped last with cache } t) : report.Waited tick.time t := by
  rcases h.waited with rfl | ⟨schedule, next, hschedule, hnext, hpassed⟩
  · obtain ⟨schedule, hschedule, -, -, hover⟩ := hdue
    obtain ⟨next, hnext, hpassed⟩ := hover _ rfl
    exact ⟨schedule, next, hschedule, hnext, hpassed⟩
  · obtain ⟨other, hother, rfl⟩ := h.stamp
    exact ⟨schedule, next, hschedule, hnext, Instant.not_before_trans (hlater other hother) hpassed⟩

/-- One more tick keeps what is noted. -/
theorem Tick.Noted.next (h : tick.Noted past r report last cache) {outside : World σ}
    {visit : Visit EngineError (List ExecutionId)} {passes : List Pass} (hbefore : visit.before = r)
    (hticked : visit.Ticked engine outside t passes)
    (hlater : ∀ other ∈ past, t.before other.time = false) :
    ∃ last cache, tick.Noted (past ++ [⟨t, visit⟩]) visit.after report last cache := by
  subst hbefore
  by_cases hdue : Report.DueAt { report.stamped last with cache } t
  · obtain ⟨cache', hstored⟩ := hticked.stamped _ (MemoryRepository.mem_dueReports.mpr
      ⟨h.stored, hdue⟩)
    exact ⟨t, cache', hstored, .inr (h.waited_of_due hlater hdue), ⟨t, visit⟩, by simp, rfl⟩
  · obtain ⟨other, hother, htime⟩ := h.stamp
    refine ⟨last, cache, ?_, h.waited, other, List.mem_append_left _ hother, htime⟩
    rw [hticked.others report.id, h.stored]
    -- under its identifier there is only the report that is not due
    intro found hfound hid
    obtain ⟨hget, hfound⟩ := MemoryRepository.mem_dueReports.mp hfound
    rw [hid, h.stored] at hget
    cases hget
    exact hdue hfound

/-- What the stored reports say of the ticks so far. -/
theorem Engine.Ticks.noted (hawait : engine.config.awaitCompletion = true)
    (h : engine.Ticks σ past r) (hcal : ∀ tick ∈ past, tick.visit.before.InCalendar)
    (htime : past.Pairwise fun earlier later => later.time.before earlier.time = false) :
    ∀ tick ∈ past, ∀ report ∈ tick.due, ∃ last cache, tick.Noted past r report last cache := by
  induction h with
  | start => exact fun _ h => absurd h List.not_mem_nil
  | @tick past r h outside s ih =>
    rw [List.pairwise_append] at htime
    obtain ⟨htime, -, hlater⟩ := htime
    have hlater : ∀ other ∈ past, (outside .now s).1.before other.time = false :=
      fun other hother => hlater other hother _ (List.mem_singleton.mpr rfl)
    obtain ⟨passes, hticked⟩ := visit_tick hawait
      (hcal _ (List.mem_append_right _ (List.mem_singleton.mpr rfl))) outside s
    intro tick htick report hreport
    rcases List.mem_append.mp htick with htick | htick
    · obtain ⟨last, cache, hnoted⟩ := ih (fun tick ht => hcal tick (List.mem_append_left _ ht))
        htime tick htick report hreport
      exact hnoted.next rfl hticked hlater
    · rw [List.mem_singleton.mp htick] at hreport ⊢
      obtain ⟨cache, hstored⟩ := hticked.stamped report hreport
      exact ⟨_, cache, hstored, .inl rfl, _, List.mem_append_right _ (List.mem_singleton.mpr rfl),
        rfl⟩
  | elsewhere h hreports ih =>
    intro tick htick report hreport
    obtain ⟨last, cache, hnoted⟩ := ih hcal htime tick htick report hreport
    exact ⟨last, cache, hreports ▸ hnoted.stored, hnoted.waited, hnoted.stamp⟩

end

/-- A report that was due at two ticks: nothing but its cache and its stamp has changed, and its
interval has passed in between. -/
def Tick.Spaced (earlier later : Tick) : Prop :=
  ∀ report ∈ earlier.due, ∀ report' ∈ later.due, report'.id = report.id →
    (∃ last cache, report' = { report.stamped last with cache }) ∧
      report.Waited earlier.time later.time

/-- What a tick of a history did. -/
def Tick.Accounted (tick : Tick) (engine : Engine) (σ : Type) : Prop :=
  (∃ (outside : World σ) (passes : List Pass),
    tick.visit.Ticked engine outside tick.time passes) ∧
  tick.due.Pairwise fun a b => EntityKind.report.order a b = .lt

/--
**Schedules.** An engine that waits for its runs ticks any number of times, at times that do not go
back. Nobody else edits the reports, the connectors may do anything, and all dates lie within the
calendar. Then:

* every tick stamps and triggers the reports that are due, each of them once, in order of name and
  identifier, and no others; it ends with the executions of these triggers in the same order. A
  report that is not valid is stamped, its trigger is refused, and the tick goes on;
* between two ticks that trigger one report its interval has passed.
-/
theorem ticks_of_history {engine : Engine} (hawait : engine.config.awaitCompletion = true)
    {σ : Type} {past : List Tick} {r : MemoryRepository} (h : engine.Ticks σ past r)
    (hcal : ∀ tick ∈ past, tick.visit.before.InCalendar)
    (htime : past.Pairwise fun earlier later => later.time.before earlier.time = false) :
    (∀ tick ∈ past, tick.Accounted engine σ) ∧ past.Pairwise Tick.Spaced := by
  induction h with
  | start => exact ⟨fun _ h => absurd h List.not_mem_nil, List.Pairwise.nil⟩
  | @tick past r h outside s ih =>
    rw [List.pairwise_append] at htime
    obtain ⟨htime, -, hlater⟩ := htime
    have hcalPast : ∀ tick ∈ past, tick.visit.before.InCalendar :=
      fun tick ht => hcal tick (List.mem_append_left _ ht)
    have hlater : ∀ other ∈ past, (outside .now s).1.before other.time = false :=
      fun other hother => hlater other hother _ (List.mem_singleton.mpr rfl)
    obtain ⟨haccounted, hspaced⟩ := ih hcalPast htime
    refine ⟨fun tick htick => ?_, List.pairwise_append.mpr
      ⟨hspaced, List.pairwise_singleton _ _, fun earlier hearlier later hlast => ?_⟩⟩
    · rcases List.mem_append.mp htick with htick | htick
      · exact haccounted tick htick
      · rw [List.mem_singleton.mp htick]
        exact ⟨⟨outside, Engine.visit_tick hawait
          (hcal _ (List.mem_append_right _ (List.mem_singleton.mpr rfl))) outside s⟩,
          MemoryRepository.pairwise_dueReports _ _⟩
    · rw [List.mem_singleton.mp hlast]
      intro report hreport report' hreport' hid
      obtain ⟨last, cache, hnoted⟩ := h.noted hawait hcalPast htime earlier hearlier report hreport
      obtain ⟨hget, hdue⟩ := MemoryRepository.mem_dueReports.mp hreport'
      have hsame : report' = { report.stamped last with cache } := by
        rw [hid] at hget
        exact Option.some.inj (hget.symm.trans hnoted.stored)
      exact ⟨⟨last, cache, hsame⟩, hnoted.waited_of_due hlater (hsame ▸ hdue)⟩
  | elsewhere h hreports ih => exact ih hcal htime

/-- A report of one dataset that runs every hour. -/
def everyHour : Report := { Engine.loads with schedule := some ⟨60, true⟩ }

/-- A repository with this report. -/
def everyHourStored : MemoryRepository := MemoryRepository.empty.put .report everyHour

/-- An hour after the first tick. -/
def oneHour : Instant := (Instant.ofParts? 3600 0).getD default

/-- The report was never triggered before. -/
def firstTick : Tick :=
  ⟨default, Engine.patient.tick.visit (Engine.stillWorld ∅ default) everyHourStored ()⟩

/-- An hour later it is due again. -/
def secondTick : Tick :=
  ⟨oneHour, Engine.patient.tick.visit (Engine.stillWorld ∅ oneHour) firstTick.visit.after ()⟩

/-- The first tick stores its time and a payload with the report. -/
theorem firstTick_reports : ∃ payload, firstTick.visit.after.reports.entities
    = [{ everyHour.stamped default with cache := everyHour.cache.store payload default }] := by
  have hlist : everyHourStored.answer (.list .report ()) = (.ok [everyHour], everyHourStored) :=
    Prod.ext (congrArg Except.ok (List.mergeSort_singleton everyHour)) rfl
  unfold firstTick Action.visit Engine.tick
  rw [MemoryRepository.run_now, MemoryRepository.run_call hlist]
  exact ⟨_, rfl⟩

/-- Two ticks that both trigger the report. -/
theorem ticks_every_hour :
    (∀ tick ∈ [firstTick, secondTick], tick.Accounted Engine.patient Unit) ∧
      [firstTick, secondTick].Pairwise Tick.Spaced ∧
      ∃ report ∈ secondTick.due, report.id = everyHour.id := by
  have hhistory : Engine.patient.Ticks Unit [firstTick, secondTick] secondTick.visit.after :=
    .tick (.tick (.start everyHourStored) (Engine.stillWorld ∅ default) ())
      (Engine.stillWorld ∅ oneHour) ()
  obtain ⟨payload, hreports⟩ := firstTick_reports
  generalize hagain : { everyHour.stamped default with
    cache := everyHour.cache.store payload default } = again at hreports
  have hhour : (default : Instant).addMinutes? (60 : UInt32).toNat = some oneHour := by
    decide +kernel
  have hcal : ∀ tick ∈ [firstTick, secondTick], tick.visit.before.InCalendar := by
    intro tick htick report hreport
    rcases List.mem_cons.mp htick with rfl | htick
    · rw [List.mem_singleton.mp (show report ∈ [everyHour] from hreport)]
      exact ⟨nofun, fun _ => nofun⟩
    · rw [List.mem_singleton.mp htick] at hreport
      change report ∈ firstTick.visit.after.reports.entities at hreport
      rw [hreports] at hreport
      rw [List.mem_singleton.mp hreport, ← hagain]
      -- the cache and the interval end at the same time
      refine ⟨?_, fun t => ?_⟩
      · show Option.map some ((default : Instant).addMinutes? (60 : UInt32).toNat) ≠ none
        rw [hhour]
        nofun
      · show Option.map (fun next => !t.before next)
          ((default : Instant).addMinutes? (60 : UInt32).toNat) ≠ none
        rw [hhour]
        nofun
  have htime : [firstTick, secondTick].Pairwise
      fun earlier later => later.time.before earlier.time = false :=
    List.pairwise_pair.mpr (by decide)
  obtain ⟨haccounted, hspaced⟩ := ticks_of_history rfl hhistory hcal htime
  refine ⟨haccounted, hspaced, again, MemoryRepository.mem_dueReports.mpr ⟨?_, ?_⟩, ?_⟩
  · refine Table.get?_eq_some_iff.mpr ⟨?_, rfl⟩
    show again ∈ firstTick.visit.after.reports.entities
    rw [hreports]
    exact List.mem_singleton.mpr rfl
  · subst hagain
    refine ⟨⟨60, true⟩, rfl, rfl, by decide, ?_⟩
    rintro _ ⟨⟩
    exact ⟨oneHour, hhour, by decide⟩
  · rw [← hagain]
    rfl

end Bulletin
