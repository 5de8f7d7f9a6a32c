import Bulletin.Proofs.AmongWriters
import Bulletin.Proofs.EngineRoom
import Bulletin.Proofs.CacheHistory

/-!
# Runs among other writers

While a report is run, others may write whatever they like, the report included. The run has a copy
of the report from its beginning, and nothing of it is ever saved: what goes to the cache goes to
the report as it is read again, and what does not go there is left to the others.

* `Engine.Carries.parts` — all that a trigger and its run ask for
* `run_among_writers` — what the run leaves behind
-/

namespace Bulletin

/-! ## The events of a run -/

/-- All that a trigger asks for until its run is over: the trigger alone in an engine that waits for
its runs, otherwise the trigger and the run that it has left to the background. Whoever triggers may
also wait. -/
inductive Engine.Carries (engine : Engine) (id : ReportId) (cause : Trigger) : List Event → Prop
  | awaited {events : List Event} {ending : Ending EngineError Engine.Triggered}
    (hawait : engine.config.awaitCompletion = true)
    (h : (engine.trigger id cause).Yields events ending) : Carries engine id cause events
  | waited {events : List Event} {ending : Ending EngineError Execution}
    (h : (engine.run id cause).Yields events ending) : Carries engine id cause events
  | background {first second : List Event} {ending : Ending EngineError Engine.Triggered}
    {report : Report} {execution : Execution} {ending' : Ending EngineError EngineResult}
    (hawait : engine.config.awaitCompletion = false)
    (h : (engine.trigger id cause).Yields first ending)
    (hlaunch : (report, execution) ∈ launchedRuns first)
    (hrun : (engine.background report execution).Yields second ending') :
    Carries engine id cause (first ++ second)

/-- The executions that were recorded as running. -/
def begunExecutions (events : List Event) : List Execution :=
  events.filterMap fun
    | ⟨.call (.save .execution execution), .ok _⟩ =>
      if execution.status = .running then some execution else none
    | _ => none

/-- The report and the execution of a run that has been started. -/
def Engine.Begun.started? : Ending EngineError Engine.Begun → Option (Report × Execution)
  | .value (.started report execution) => some (report, execution)
  | _ => none

/-- How the start of a run is answered. -/
def startEvents (report : Report) (id : ReportId) (cause : Trigger) (now begun : Instant)
    (fresh : Uuid) : List Event :=
  [⟨.call (.get .report id), .ok (some report)⟩, ⟨.now, now⟩, ⟨.freshId, fresh⟩,
    ⟨.call (.save .execution (.queued ⟨fresh⟩ report.id cause now)), .ok ()⟩, ⟨.now, begun⟩,
    ⟨.call (.save .execution (.running ⟨fresh⟩ report.id cause now begun)), .ok ()⟩]

/-- A start that has come to its end has recorded a running execution, or none. -/
theorem start_yields {id : ReportId} {cause : Trigger} {events : List Event}
    {ending : Ending EngineError Engine.Begun} (h : (Engine.start id cause).Yields events ending) :
    (∃ report now begun fresh, events = startEvents report id cause now begun fresh ∧
      ending = .value (.started report (.running ⟨fresh⟩ report.id cause now begun))) ∨
    begunExecutions events = [] ∧ launchedRuns events = [] ∧
      Engine.Begun.started? ending = none := by
  unfold Engine.start at h
  obtain ⟨found, rest, rfl, hfound⟩ | ⟨e, rfl, rfl⟩ := Action.yields_call_bind.mp h
  · cases found with
    | none =>
      obtain ⟨rfl, rfl⟩ := Action.yields_stop.mp hfound
      exact .inr ⟨rfl, rfl, rfl⟩
    | some report =>
      cases hv : report.validate with
      | error e =>
        simp only [hv] at hfound
        obtain ⟨rfl, rfl⟩ := Action.yields_stop.mp hfound
        exact .inr ⟨rfl, rfl, rfl⟩
      | ok _ =>
        simp only [hv] at hfound
        obtain ⟨now, rest, rfl, hnow⟩ := Action.yields_request_bind.mp hfound
        cases hf : report.cache.fresh now with
        | none =>
          rw [hf] at hnow
          obtain ⟨rfl, rfl⟩ := Action.yields_stop.mp hnow
          exact .inr ⟨rfl, rfl, rfl⟩
        | some served =>
          rw [hf] at hnow
          cases served with
          | some payload =>
            obtain ⟨fresh, rest, rfl, hfresh⟩ := Action.yields_request_bind.mp hnow
            obtain ⟨_, rest, rfl, hserved⟩ | ⟨e, rfl, rfl⟩ := Action.yields_call_bind.mp hfresh
            · obtain ⟨rfl, rfl⟩ := Action.yields_stop.mp hserved
              exact .inr ⟨rfl, rfl, rfl⟩
            · exact .inr ⟨rfl, rfl, rfl⟩
          | none =>
            obtain ⟨fresh, rest, rfl, hfresh⟩ := Action.yields_request_bind.mp hnow
            obtain ⟨_, rest, rfl, hqueued⟩ | ⟨e, rfl, rfl⟩ := Action.yields_call_bind.mp hfresh
            · obtain ⟨begun, rest, rfl, hbegun⟩ := Action.yields_request_bind.mp hqueued
              rw [Execution.start_queued] at hbegun
              obtain ⟨_, rest, rfl, hrunning⟩ | ⟨e, rfl, rfl⟩ := Action.yields_call_bind.mp hbegun
              · obtain ⟨rfl, rfl⟩ := Action.yields_stop.mp hrunning
                exact .inl ⟨report, now, begun, fresh, rfl, rfl⟩
              · exact .inr ⟨rfl, rfl, rfl⟩
            · exact .inr ⟨rfl, rfl, rfl⟩
  · exact .inr ⟨rfl, rfl, rfl⟩

/-- What is done for the cache when a run is over: nothing after a failure. After a success the
report is read again, and is saved if it is there. -/
inductive CacheEvents (id : ReportId) : Option Json → List Event → Prop
  | none : CacheEvents id none []
  | unseen {payload : Json} {answer : Call.Answer (.get .report id)}
    (h : ∀ stored, answer ≠ .ok (some stored)) :
    CacheEvents id (some payload) [⟨.call (.get .report id), answer⟩]
  | seen {payload : Json} (stored : Report) (written : Instant)
    (saved : Call.Answer (.save .report
      { stored with cache := stored.cache.store payload written })) :
    CacheEvents id (some payload) [⟨.call (.get .report id), .ok (some stored)⟩, ⟨.now, written⟩,
      ⟨.call (.save .report { stored with cache := stored.cache.store payload written }), saved⟩]

section

variable {ε : Type} {engine : Engine} {report : Report} {execution : Execution}

theorem refreshCache_yields {id : ReportId} {payload : Json} {events : List Event}
    {ending : Ending ε Unit}
    (h : (Engine.refreshCache id payload : Action ε Unit).Yields events ending) :
    CacheEvents id (some payload) events ∧ ending = .value () := by
  unfold Engine.refreshCache at h
  obtain ⟨answer, rest, rfl, hread⟩ := Action.yields_request_bind.mp h
  rcases answer with e | _ | stored
  · obtain ⟨rfl, rfl⟩ := Action.yields_stop.mp hread
    exact ⟨.unseen (by rintro _ ⟨⟩), rfl⟩
  · obtain ⟨rfl, rfl⟩ := Action.yields_stop.mp hread
    exact ⟨.unseen (by rintro _ ⟨⟩), rfl⟩
  · obtain ⟨written, rest, rfl, hnow⟩ := Action.yields_request_bind.mp hread
    obtain ⟨saved, rest, rfl, hsaved⟩ := Action.yields_request_bind.mp hnow
    obtain ⟨rfl, rfl⟩ := Action.yields_stop.mp hsaved
    exact ⟨.seen stored written saved, rfl⟩

/-- A run that has come to its end has recorded its execution once, and then seen to the cache. -/
theorem conduct_yields {events : List Event} {ending : Ending ε Execution}
    (h : (engine.conduct report execution : Action ε Execution).Yields events ending) :
    ∃ work ended now final payload saved tail,
      events = work ++ ⟨.now, now⟩ :: ⟨.call (.save .execution final), saved⟩ :: tail ∧
        (∀ event ∈ work, event.request.IsWork) ∧
        Engine.settle execution ended now = (final, payload) ∧
        CacheEvents report.id payload tail ∧ ending = .value final := by
  unfold Engine.conduct at h
  obtain ⟨work, rest, ended, rfl, hwork, hrest⟩ := Action.yields_ending_bind.mp h
  obtain ⟨now, rest, rfl, hnow⟩ := Action.yields_request_bind.mp hrest
  rcases hsettle : Engine.settle execution ended now with ⟨final, payload⟩
  rw [hsettle] at hnow
  obtain ⟨saved, tail, rfl, hsaved⟩ := Action.yields_request_bind.mp hnow
  refine ⟨work, ended, now, final, payload, saved, tail, rfl,
    hwork.forall_mem (asksOnly_pipeline engine report execution.id), hsettle, ?_⟩
  cases payload with
  | none =>
    obtain ⟨rfl, rfl⟩ := Action.yields_stop.mp hsaved
    exact ⟨.none, rfl⟩
  | some payload =>
    obtain ⟨first, second, middle, rfl, hcache, hlast⟩ := Action.yields_andThen.mp hsaved
    obtain ⟨hevents, rfl⟩ := refreshCache_yields hcache
    obtain ⟨rfl, rfl⟩ := Action.yields_stop.mp hlast
    rw [List.append_nil]
    exact ⟨hevents, rfl⟩

/-- What a run comes to goes into its execution; a payload goes to the cache after a success
only. -/
theorem settle_recorded {id : ExecutionId} {reportId : ReportId} {cause : Trigger}
    {created begun now : Instant} {ended : Ending EngineError Engine.Output} {final : Execution}
    {payload : Option Json}
    (h : Engine.settle (.running id reportId cause created begun) ended now = (final, payload)) :
    final.id = id ∧ (final.status = .completed ∧ payload ≠ none ∧ final.payload = payload ∨
      final.status = .failed ∧ payload = none) := by
  cases ended with
  | value output =>
    cases h
    exact ⟨rfl, .inl ⟨rfl, nofun, rfl⟩⟩
  | error e =>
    cases h
    exact ⟨rfl, .inr ⟨rfl, rfl⟩⟩
  | crash c =>
    cases h
    exact ⟨rfl, .inr ⟨rfl, rfl⟩⟩

theorem begunExecutions_append (events events' : List Event) :
    begunExecutions (events ++ events') = begunExecutions events ++ begunExecutions events' :=
  List.filterMap_append

/-- Events without calls record no execution. -/
theorem begunExecutions_of_no_call {events : List Event}
    (h : ∀ event ∈ events, ∀ c, event.request ≠ .call c) : begunExecutions events = [] := by
  refine List.filterMap_eq_nil_iff.mpr fun event he => ?_
  have hevent := h event he
  obtain ⟨request, answer⟩ := event
  cases request with
  | call c => exact absurd rfl (hevent c)
  | now | freshId | relational | dataset | api | putArtifact | notify | launch => rfl

theorem CacheEvents.begunExecutions {id : ReportId} {payload : Option Json} {tail : List Event}
    (h : CacheEvents id payload tail) : begunExecutions tail = [] := by
  cases h <;> rfl

/-- The parts of a run: its start, its work, the record of its end, and the cache. -/
inductive RunParts (id : ReportId) (cause : Trigger) : Execution → List Event → Prop
  | mk {report : Report} {now begun ended : Instant} {fresh : Uuid} {final : Execution}
    {payload : Option Json} {saved : Call.Answer (.save .execution final)}
    {work tail : List Event}
    (hwork : ∀ event ∈ work, ∀ c, event.request ≠ .call c)
    (hid : final.id = ⟨fresh⟩)
    (hsettled : final.status = .completed ∧ payload ≠ none ∧ final.payload = payload ∨
      final.status = .failed ∧ payload = none)
    (hcache : CacheEvents report.id payload tail) :
    RunParts id cause (.running ⟨fresh⟩ report.id cause now begun)
      (startEvents report id cause now begun fresh
        ++ (work ++ ⟨.now, ended⟩ :: ⟨.call (.save .execution final), saved⟩ :: tail))

/-- A start, something that is no call, and a run. -/
theorem started_parts {id : ReportId} {cause : Trigger} {first middle second : List Event}
    {running : Execution} {ending : Ending ε Execution}
    (hstart : (Engine.start id cause).Yields first (.value (.started report execution)))
    (hmiddle : ∀ event ∈ middle, ∀ c, event.request ≠ .call c)
    (hrun : (engine.conduct report execution : Action ε Execution).Yields second ending)
    (hran : running ∈ begunExecutions (first ++ (middle ++ second))) :
    RunParts id cause running (first ++ (middle ++ second)) := by
  obtain ⟨report', now, begun, fresh, rfl, hsame⟩ | ⟨-, -, hnone⟩ := start_yields hstart
  · cases hsame
    obtain ⟨work, ended, now', final, payload, saved, tail, rfl, hwork, hsettle, hcache, -⟩ :=
      conduct_yields hrun
    obtain ⟨hid, hsettled⟩ := settle_recorded hsettle
    have hquiet : ∀ event ∈ middle ++ work, ∀ c, event.request ≠ .call c := by
      intro event he
      rcases List.mem_append.mp he with he | he
      · exact hmiddle event he
      · intro c hc
        exact not_isWork_call c (hc ▸ hwork event he)
    have hfinal : final.status ≠ .running := by
      rcases hsettled with ⟨hstatus, -⟩ | ⟨hstatus, -⟩
      · rw [hstatus]
        nofun
      · rw [hstatus]
        nofun
    have hlast : begunExecutions (⟨.now, now'⟩ :: ⟨.call (.save .execution final), saved⟩ :: tail)
        = [] := by
      refine (begunExecutions_append [⟨.now, now'⟩, ⟨.call (.save .execution final), saved⟩]
        tail).trans ?_
      rw [hcache.begunExecutions]
      cases saved <;> simp [begunExecutions, hfinal]
    rw [← List.append_assoc middle, begunExecutions_append, begunExecutions_append,
      begunExecutions_of_no_call hquiet, hlast, List.append_nil, List.append_nil] at hran
    have hrunning : running = .running ⟨fresh⟩ report.id cause now begun :=
      List.mem_singleton.mp hran
    subst hrunning
    rw [← List.append_assoc middle]
    exact .mk hquiet hid hsettled hcache
  · cases hnone

/-- What goes on after a start goes on with a running execution, unless none was recorded. -/
theorem start_bind_yields {α : Type} {id : ReportId} {cause : Trigger} {events : List Event}
    {ending : Ending EngineError α} {f : Engine.Begun → Action EngineError α}
    (hserved : ∀ served, ∃ e, f (.served served) = .stop e)
    (h : (Engine.start id cause >>= f).Yields events ending) :
    (∃ first second report execution, events = first ++ second ∧
        (Engine.start id cause).Yields first (.value (.started report execution)) ∧
        (f (.started report execution)).Yields second ending) ∨
      begunExecutions events = [] ∧ launchedRuns events = [] := by
  obtain ⟨first, second, begun, rfl, hstart, hrest⟩ := Action.yields_andThen.mp h
  obtain ⟨report, now, started, fresh, rfl, rfl⟩ | ⟨hbegun, hlaunched, hnone⟩ := start_yields hstart
  · exact .inl ⟨_, second, _, _, rfl, hstart, hrest⟩
  · have hsecond : second = [] := by
      cases begun with
      | value begun =>
        cases begun with
        | served served =>
          obtain ⟨e, he⟩ := hserved served
          change (f (.served served)).Yields second ending at hrest
          rw [he] at hrest
          exact (Action.yields_stop.mp hrest).1
        | started => cases hnone
      | error | crash => exact (Action.yields_stop.mp hrest).1
    rw [hsecond, List.append_nil]
    exact .inr ⟨hbegun, hlaunched⟩

/-- The parts of a run that was started, whoever carries it out. -/
theorem Engine.Carries.parts {id : ReportId} {cause : Trigger} {events : List Event}
    {running : Execution} (h : engine.Carries id cause events)
    (hran : running ∈ begunExecutions events) : RunParts id cause running events := by
  cases h with
  | awaited hawait h =>
    obtain ⟨first, second, report, execution, rfl, hstart, hrest⟩ | ⟨hnone, -⟩ :=
      start_bind_yields (fun _ => ⟨_, rfl⟩) h
    · simp only [hawait, if_true] at hrest
      obtain ⟨second, last, ending, rfl, hrun, hlast⟩ := Action.yields_andThen.mp hrest
      obtain ⟨_, _, _, _, _, _, _, -, -, -, -, rfl⟩ := conduct_yields hrun
      obtain ⟨rfl, rfl⟩ := Action.yields_stop.mp hlast
      rw [List.append_nil] at hran ⊢
      exact @started_parts _ _ _ _ _ _ _ [] _ _ _ hstart (by rintro _ ⟨⟩) hrun hran
    · rw [hnone] at hran
      cases hran
  | waited h =>
    obtain ⟨first, second, report, execution, rfl, hstart, hrun⟩ | ⟨hnone, -⟩ :=
      start_bind_yields (fun _ => ⟨_, rfl⟩) h
    · exact @started_parts _ _ _ _ _ _ _ [] _ _ _ hstart (by rintro _ ⟨⟩) hrun hran
    · rw [hnone] at hran
      cases hran
  | background hawait h hlaunch hrun =>
    obtain ⟨first, last, report, execution, rfl, hstart, hrest⟩ | ⟨-, hnone⟩ :=
      start_bind_yields (fun _ => ⟨_, rfl⟩) h
    · simp only [hawait] at hrest
      obtain ⟨_, last, rfl, hlast⟩ := Action.yields_request_bind.mp hrest
      obtain ⟨rfl, rfl⟩ := Action.yields_stop.mp hlast
      obtain ⟨_, _, _, _, rfl, -⟩ | ⟨-, -, hnone⟩ := start_yields hstart
      · cases List.mem_singleton.mp hlaunch
        obtain ⟨second, last, ending, rfl, hconduct, hlast⟩ := Action.yields_andThen.mp hrun
        obtain ⟨_, _, _, _, _, _, _, -, -, -, -, rfl⟩ := conduct_yields hconduct
        obtain ⟨rfl, rfl⟩ := Action.yields_stop.mp hlast
        rw [List.append_nil, List.append_assoc] at hran ⊢
        exact started_parts hstart (by simp) hconduct hran
      · cases hnone
    · rw [hnone] at hlaunch
      cases hlaunch

end

/-! ## What a run leaves behind -/

/-- Nobody else calls once the action has read a report for the second time. -/
def AloneAfterRereading (id : ReportId) (entries : List LogEntry) : Prop :=
  ∀ before answer after,
    entries = before ++ .own ⟨.call (.get .report id), answer⟩ :: after →
    (∃ earlier, ⟨.call (.get .report id), earlier⟩ ∈ ownEvents before) → otherCalls after = []

section

open MemoryRepository (savedVersions afterCalls_append)

variable {engine : Engine} {r r' : MemoryRepository} {id : ReportId} {cause : Trigger}
  {running : Execution} {entries : List LogEntry}

theorem records_of_no_call {execution : ExecutionId} {event : Event}
    (h : ∀ c, event.request ≠ .call c) : event.Records execution := by
  obtain ⟨request, answer⟩ := event
  cases request with
  | call c => exact absurd rfl (h c)
  | now | freshId | relational | dataset | api | putArtifact | notify | launch => trivial

/-- A start saves its execution twice. -/
theorem records_startEvents {report : Report} {now begun : Instant} {fresh : Uuid} :
    ∀ event ∈ startEvents report id cause now begun fresh, event.Records ⟨fresh⟩ := by
  simp [startEvents, Event.Records, Execution.queued, Execution.running]

/-- Up to the end of its work a run has saved its execution, and nothing else. -/
theorem recorded_then {report : Report} {now begun ended : Instant} {fresh : Uuid}
    {final : Execution} {saved : Call.Answer (.save .execution final)} {work tail : List Event}
    (hown : ownEvents entries = startEvents report id cause now begun fresh
      ++ (work ++ ⟨.now, ended⟩ :: ⟨.call (.save .execution final), saved⟩ :: tail))
    (hwork : ∀ event ∈ work, ∀ c, event.request ≠ .call c) (hid : final.id = ⟨fresh⟩)
    (hamid : r.Amid entries r') (hothers : ∀ c ∈ otherCalls entries, c.Spares ⟨fresh⟩) :
    ∃ before after, ∃ m : MemoryRepository, entries = before ++ after ∧ ownEvents after = tail ∧
      ⟨.call (.get .report id), .ok (some report)⟩ ∈ ownEvents before ∧ report.id = id ∧
      m.Amid after r' ∧ m.AgreeApart ⟨fresh⟩ (r.afterCalls (otherCalls before)) ∧
      m.executions.get? ⟨fresh⟩ = some final ∧ m.reports.get? id ≠ none := by
  rw [← List.singleton_append, ← List.append_assoc work, ← List.append_assoc] at hown
  obtain ⟨before, after, m, rfl, hbefore, hafter, hm, -, hrest⟩ := hamid.split hown
  have hread : ownEvents before = [] ++ ⟨.call (.get .report id), .ok (some report)⟩
      :: ((startEvents report id cause now begun fresh).tail ++ (work ++ [⟨.now, ended⟩])) :=
    hbefore
  have hstored : ∃ stored, m.reports.get? id = some stored ∧ report.id = id := by
    obtain ⟨_, _, m₀, -, -, -, -, hanswer, hrest₀⟩ := hm.split hread
    have hfound : m₀.reports.get? id = some report := Except.ok.inj hanswer
    have hkept : m.reports.get? id ≠ none := hrest₀.keeps_report (by
      show m₀.reports.get? id ≠ none
      rw [hfound]
      nofun)
    obtain ⟨stored, hstored⟩ := Option.ne_none_iff_exists'.mp hkept
    exact ⟨stored, hstored, (Table.get?_eq_some_iff.mp hfound).2⟩
  obtain ⟨stored, hstored, hreport⟩ := hstored
  have hrecords : ∀ event ∈ ownEvents before, event.Records ⟨fresh⟩ := by
    rw [hbefore]
    intro event he
    rcases List.mem_append.mp he with he | he
    · exact records_startEvents event he
    · rcases List.mem_append.mp he with he | he
      · exact records_of_no_call (hwork event he)
      · rw [List.mem_singleton.mp he]
        trivial
  have hagree := hm.agreeApart hrecords
    (fun c hc => hothers c (by
      rw [otherCalls_append]
      exact List.mem_append_left _ hc)) (.refl ⟨fresh⟩ r)
  refine ⟨before ++ [.own ⟨.call (.save .execution final), saved⟩], after, _, by simp, hafter,
    ?_, hreport, hrest, ?_, ?_, ?_⟩
  · rw [ownEvents_append, hread]
    simp
  · rw [otherCalls_append]
    show MemoryRepository.AgreeApart _ _ (r.afterCalls (otherCalls before ++ []))
    rw [List.append_nil]
    exact @MemoryRepository.AgreeApart.record _ _ _ hagree _ saved hid
  · exact (m.executions.get?_save final _).trans (if_pos hid)
  · show m.reports.get? id ≠ none
    rw [hstored]
    nofun

theorem getLast?_readings_append {events events' : List Event} {t : Instant}
    (h : (readings events').getLast? = some t) :
    (readings (events ++ events')).getLast? = some t := by
  rw [readings_append, List.getLast?_append, h]
  rfl

/-- After its work a run reads its report again, and saves it with another cache. -/
theorem cache_written {execution : ExecutionId} {q : MemoryRepository} {stored updated : Report}
    {written : Instant} {saved : Call.Answer (.save .report updated)}
    (hown : ownEvents entries = [⟨.call (.get .report id), .ok (some stored)⟩, ⟨.now, written⟩,
      ⟨.call (.save .report updated), saved⟩])
    (hamid : r.Amid entries r') (hothers : ∀ c ∈ otherCalls entries, c.Spares execution)
    (hagree : r.AgreeApart execution q)
    (halone : ∀ before answer after,
      entries = before ++ .own ⟨.call (.get .report id), answer⟩ :: after → otherCalls after = []) :
    ∃ m : MemoryRepository, m.AgreeApart execution (q.afterCalls (otherCalls entries)) ∧
      m.executions.get? execution = r.executions.get? execution ∧
      m.reports.get? id = some stored ∧ r' = m.put .report updated := by
  rw [← List.nil_append (_ :: _)] at hown
  obtain ⟨before, after, m, rfl, hbefore, hafter, hm, hanswer, hrest⟩ := hamid.split hown
  have hquiet := halone before _ after rfl
  rw [eq_map_own hquiet, hafter] at hrest
  have hspare : ∀ c ∈ otherCalls before, c.Spares execution := fun c hc => hothers c (by
    rw [otherCalls_append]
    exact List.mem_append_left _ hc)
  have htheirs : otherCalls (before ++ .own ⟨.call (.get .report id), .ok (some stored)⟩ :: after)
      = otherCalls before := by
    rw [otherCalls_append, otherCalls_own, hquiet, List.append_nil]
  rw [htheirs]
  refine ⟨m, hm.agreeApart (by simp [hbefore]) hspare hagree,
    hm.keeps_execution (by simp [hbefore]) hspare, Except.ok.inj hanswer, ?_⟩
  cases hrest with
  | aside _ hrest =>
    obtain ⟨-, hrest⟩ := MemoryRepository.amid_call.mp hrest
    cases hrest
    rfl

/-- **Runs among other writers.** A run that was recorded as running comes to an execution that is
stored when everything is over. If it has completed, then the report stands as the others have saved
it last, with the payload of the run and the time that was read last in its cache; if it has failed,
then it stands as the others have saved it last. All else but the execution of the run is as if
there had been no run. -/
theorem run_among_writers (hcarries : engine.Carries id cause (ownEvents entries))
    (hran : running ∈ begunExecutions (ownEvents entries)) (hamid : r.Amid entries r')
    (hothers : ∀ c ∈ otherCalls entries, c.Spares running.id)
    (halone : AloneAfterRereading id entries) :
    ∃ final stored, r'.executions.get? running.id = some final ∧
      (savedVersions id (otherCalls entries)).getLast?.or (r.reports.get? id) = some stored ∧
      (final.status = .completed ∧ (∃ payload written, final.payload = some payload ∧
          (readings (ownEvents entries)).getLast? = some written ∧
          r'.reports = (r.afterCalls (otherCalls entries)).reports.save { stored with cache :=
            { stored.cache with payload := some payload, cachedAt := some written } }) ∨
        final.status = .failed ∧ r'.reports.get? id = some stored ∧
          r'.reports = (r.afterCalls (otherCalls entries)).reports) ∧
      (∀ kind, kind ≠ .report → kind ≠ .execution →
        r'.get kind = (r.afterCalls (otherCalls entries)).get kind) ∧
      ∀ other, other ≠ running.id →
        r'.executions.get? other = (r.afterCalls (otherCalls entries)).executions.get? other := by
  have hparts := hcarries.parts hran
  generalize hown : ownEvents entries = events at hparts
  cases hparts with
  | @mk report now begun ended fresh final payload saved work tail hwork hid hsettled hcache =>
  change ∀ c ∈ otherCalls entries, c.Spares ⟨fresh⟩ at hothers
  obtain ⟨before, after, m, rfl, hafter, hread, hreport, hrest, hagree, hfinal, hstored⟩ :=
    recorded_then hown hwork hid hamid hothers
  rw [hreport] at hcache
  have hspare : ∀ c ∈ otherCalls after, c.Spares ⟨fresh⟩ := fun c hc => hothers c (by
    rw [otherCalls_append]
    exact List.mem_append_right _ hc)
  rw [← MemoryRepository.reports_afterCalls]
  cases hcache with
  | none =>
    have hstatus : final.status = .failed := by simpa using hsettled
    have hkept := hrest.keeps_execution (by simp [hafter]) hspare
    have hagree := hrest.agreeApart (by simp [hafter]) hspare hagree
    rw [← afterCalls_append, ← otherCalls_append] at hagree
    have hreports : r'.reports = (r.afterCalls (otherCalls (before ++ after))).reports :=
      hagree.tables .report nofun
    obtain ⟨stored, hfound⟩ := Option.ne_none_iff_exists'.mp (hrest.keeps_report hstored)
    rw [← hreports]
    exact ⟨final, stored, hkept.trans hfinal, hfound, .inr ⟨hstatus, hfound, rfl⟩,
      fun kind _ hkind => hagree.tables kind hkind, hagree.executions⟩
  | unseen h =>
    rw [← List.nil_append [_]] at hafter
    obtain ⟨_, _, m', -, -, -, hm', hanswer, -⟩ := hrest.split hafter
    obtain ⟨stored, hfound⟩ := Option.ne_none_iff_exists'.mp (hm'.keeps_report hstored)
    exact absurd (hanswer.symm.trans (congrArg Except.ok hfound)) (h stored)
  | @seen payload stored written saved' =>
    have hstatus : final.status = .completed ∧ final.payload = some payload := by
      simpa using hsettled
    obtain ⟨m', hagree, hkept, hfound, rfl⟩ := cache_written hafter hrest hspare hagree
      fun first answer last h => halone (before ++ first) answer last (by simp [h]) ⟨_, by
        rw [ownEvents_append]
        exact List.mem_append_left _ hread⟩
    rw [← afterCalls_append, ← otherCalls_append] at hagree
    have hreports : m'.reports = (r.afterCalls (otherCalls (before ++ after))).reports :=
      hagree.tables .report nofun
    rw [← hreports]
    exact ⟨final, stored, hkept.trans hfinal, hfound, .inl ⟨hstatus.1, payload, written, hstatus.2,
      getLast?_readings_append (getLast?_readings_append rfl), rfl⟩, fun kind hreport hkind =>
        (m'.get_put_of_ne _ hreport).trans (hagree.tables kind hkind), hagree.executions⟩

/-- The report of one dataset under another name, with another time to live. -/
def renamed : Report := { Engine.loads with name := "renamed", cache := .ofTtl 5 }

/-- What its run comes to. -/
def loadsOutput : Engine.Output :=
  ⟨Engine.payload [∅] (Chart.buildAll Engine.patient.config.chartCap [∅] []), []⟩

/-- A minute after everything else. -/
def aMinuteLater : Instant := (Instant.ofParts? 60 0).getD default

def loadsQueued : Execution := .queued default default .manual default

def loadsRunning : Execution := .running default default .manual default default

def loadsFinal : Execution := (Engine.settle loadsRunning (.value loadsOutput) default).1

/-- The report as it is renamed, with the payload in its cache. -/
def renamedCached : Report :=
  { renamed with cache := { renamed.cache with
    payload := some loadsOutput.payload, cachedAt := some aMinuteLater } }

/-- The report is renamed when its rows have been read. -/
def renamedMeanwhile : List LogEntry :=
  (startEvents Engine.loads default .manual default default default).map .own
    ++ [.own ⟨.dataset "load", .value (some [∅])⟩, .other (.save .report renamed),
      .own ⟨.now, default⟩, .own ⟨.call (.save .execution loadsFinal), .ok ()⟩,
      .own ⟨.call (.get .report default), .ok (some renamed)⟩, .own ⟨.now, aMinuteLater⟩,
      .own ⟨.call (.save .report renamedCached), .ok ()⟩]

/-- The repository when everything is over. -/
def renamedAfterwards : MemoryRepository :=
  ((((Engine.loadsStored.put .execution loadsQueued).put .execution loadsRunning).put
    .report renamed).put .execution loadsFinal).put .report renamedCached

theorem renamedMeanwhile_carries :
    Engine.patient.Carries default .manual (ownEvents renamedMeanwhile) := by
  refine @Engine.Carries.awaited _ _ _ _ (.value (.finished loadsFinal)) rfl ?_
  unfold Engine.trigger
  iterate 12 refine .ask ?_
  exact .stop

theorem renamedMeanwhile_amid : Engine.loadsStored.Amid renamedMeanwhile renamedAfterwards := by
  refine .call rfl (.aside ?_ (.aside ?_ (.call rfl (.aside ?_ (.call rfl (.aside ?_
    (.other (.save .report renamed) (.aside ?_ (.call rfl (.call rfl (.aside ?_
      (.call rfl .nil))))))))))))
  all_goals exact fun _ => Request.noConfusion

theorem renamedMeanwhile_alone : AloneAfterRereading default renamedMeanwhile := by
  rintro before answer after h ⟨earlier, hread⟩
  simp only [renamedMeanwhile, startEvents, List.map_cons, List.map_nil, List.cons_append,
    List.nil_append, List.cons_eq_append_iff, List.cons.injEq, LogEntry.own.injEq, reduceCtorEq,
    Event.mk.injEq, Request.call.injEq, false_and, and_false, false_or] at h
  -- the first read has no other before it, and nothing is left after the second
  obtain ⟨rfl, -⟩ | ⟨_, -, _, -, _, -, _, -, _, -, _, -, _, -, _, -, _, -, _, -, h⟩ := h
  · cases hread
  · obtain ⟨-, -, rfl⟩ | ⟨_, -, _, -, _, -, h⟩ := h
    · rfl
    · exact absurd h (by simp)

/-- A report that is renamed while it is run. -/
theorem run_among_writers_of_renaming :
    Engine.patient.Carries default .manual (ownEvents renamedMeanwhile) ∧
      loadsRunning ∈ begunExecutions (ownEvents renamedMeanwhile) ∧
      Engine.loadsStored.Amid renamedMeanwhile renamedAfterwards ∧
      (∀ c ∈ otherCalls renamedMeanwhile, c.Spares loadsRunning.id) ∧
      AloneAfterRereading default renamedMeanwhile ∧
      ∃ payload, renamedAfterwards.reports.get? default
        = some { renamed with cache := { renamed.cache with
            payload := some payload, cachedAt := some aMinuteLater } } := by
  have hran : loadsRunning ∈ begunExecutions (ownEvents renamedMeanwhile) :=
    List.mem_singleton.mpr rfl
  have hspare : ∀ c ∈ otherCalls renamedMeanwhile, c.Spares loadsRunning.id := by
    intro c hc
    rw [List.mem_singleton.mp hc]
    trivial
  refine ⟨renamedMeanwhile_carries, hran, renamedMeanwhile_amid, hspare, renamedMeanwhile_alone, ?_⟩
  obtain ⟨final, stored, hfinal, hstored,
    ⟨-, payload, written, -, hwritten, hreports⟩ | ⟨hfailed, -⟩, -⟩ :=
      run_among_writers renamedMeanwhile_carries hran renamedMeanwhile_amid hspare
        renamedMeanwhile_alone
  · cases hstored
    cases hwritten
    refine ⟨payload, ?_⟩
    rw [hreports, Table.get?_save]
    rfl
  · cases hfinal
    cases hfailed

end

end Bulletin
