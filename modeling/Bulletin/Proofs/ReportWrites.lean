import Mathlib.Data.List.Infix
import Bulletin.Proofs.EngineRoom
import Bulletin.Proofs.ReportRuns
import Bulletin.Proofs.StoredReports
import Bulletin.Proofs.TriggerOutcomes

/-!
# Two writers of one report

The engine writes a stored report in two ways: a tick stamps it, and a run that has succeeded writes
its cache. Both read the whole report and save the whole report later, changed in their own part.
Neither looks at what was saved in between, so the part of the other may go back to what it was when
the report was read.

* `kept_write_iff` — which writing keeps both parts as their last writers left them
* `stale_stamp_saved` — a trigger, a tick, and an order of their requests in which a cache is lost
* `report_parts_kept_iff` — every run
-/

namespace Bulletin

/-! ## Writes -/

/-- What the engine changes in a report. -/
inductive ReportWrite where
  | stamp (now : Instant)
  | cache (payload : Json) (now : Instant)

/-- The changed report. -/
def ReportWrite.apply : ReportWrite → Report → Report
  | .stamp now, report => { report with lastScheduledAt := some now }
  | .cache payload now, report => { report with cache := report.cache.store payload now }

@[simp] theorem ReportWrite.apply_id (write : ReportWrite) (report : Report) :
    (write.apply report).id = report.id := by
  cases write <;> rfl

/-- A turn in which a report is saved that was read before and changed since: a stamp right after
the reading, a cache after one look at the clock. -/
inductive Turn.Writes : Turn → (read : Report) → ReportWrite → Prop
  | stamp {id : ReportId} {read : Report} {now : Instant} {past : List Event}
      {answer : Call.Answer (.save .report (ReportWrite.apply (.stamp now) read))} :
      Writes ⟨⟨.call (.get .report id), .ok (some read)⟩ :: past,
        ⟨.call (.save .report (ReportWrite.apply (.stamp now) read)), answer⟩⟩ read (.stamp now)
  | cache {id : ReportId} {read : Report} {payload : Json} {now : Instant} {past : List Event}
      {answer : Call.Answer (.save .report (ReportWrite.apply (.cache payload now) read))} :
      Writes ⟨⟨.now, now⟩ :: ⟨.call (.get .report id), .ok (some read)⟩ :: past,
        ⟨.call (.save .report (ReportWrite.apply (.cache payload now) read)), answer⟩⟩ read
        (.cache payload now)

/-- Reports are saved in these two ways only. -/
def reportProtocol : Protocol
  | past, .call (.save .report report) =>
    ∀ answer, ∃ read write, Turn.Writes ⟨past, ⟨.call (.save .report report), answer⟩⟩ read write
  | _, _ => True

/-- What was changed had been shown. -/
theorem Turn.Writes.shown {turn : Turn} {read : Report} {write : ReportWrite}
    (h : turn.Writes read write) :
    ∃ id, ⟨.call (.get .report id), .ok (some read)⟩ ∈ turn.past := by
  cases h with
  | @stamp id => exact ⟨id, List.mem_cons_self⟩
  | @cache id => exact ⟨id, List.mem_cons_of_mem _ List.mem_cons_self⟩

theorem writes_or_other {turn : Turn} (h : reportProtocol turn.past turn.event.request) :
    (∃ read write, turn.Writes read write) ∨
      ∀ report, turn.event.request ≠ .call (.save .report report) := by
  obtain ⟨past, request, answer⟩ := turn
  by_cases hsave : ∃ report, request = .call (.save .report report)
  · obtain ⟨report, rfl⟩ := hsave
    exact .inl (h answer)
  · exact .inr fun report he => hsave ⟨report, he⟩

/-! ## The engine -/

theorem reportProtocol_of_isWork (past : List Event) (request : Request) (h : request.IsWork) :
    reportProtocol past request := by
  cases request with
  | call c => exact absurd h (not_isWork_call c)
  | relational | dataset | api | now | freshId | putArtifact | notify | launch => trivial

theorem writes_refreshCache {ε : Type} (id : ReportId) (payload : Json) (past : List Event) :
    (Engine.refreshCache id payload : Action ε Unit).Obeys reportProtocol (fun _ _ => True)
      past := by
  refine Action.obeys_request_bind.mpr ⟨trivial, ?_⟩
  rintro (_ | _ | report)
  · trivial
  · trivial
  · refine Action.obeys_request_bind.mpr ⟨trivial, fun now => ?_⟩
    exact ⟨fun answer => ⟨report, .cache payload now, .cache⟩, fun _ => trivial⟩

theorem writes_conduct {ε : Type} (engine : Engine) (report : Report) (execution : Execution)
    (past : List Event) :
    (engine.conduct report execution : Action ε Execution).Obeys reportProtocol (fun _ _ => True)
      past := by
  have hpipeline := (asksOnly_pipeline engine report execution.id).obeys
    reportProtocol_of_isWork past
  have hending : ((engine.pipeline report execution.id).ending :
      Action ε (Ending EngineError Engine.Output)).Obeys reportProtocol (fun _ _ => True) past :=
    Action.obeys_andThen.mpr (hpipeline.imp fun _ _ _ => trivial)
  refine hending.bind fun past ending => ?_
  refine Action.obeys_request_bind.mpr ⟨trivial, fun now => ?_⟩
  obtain ⟨final, payload⟩ := Engine.settle execution ending now
  refine Action.obeys_request_bind.mpr ⟨trivial, fun saved => ?_⟩
  cases payload with
  | some payload => exact (writes_refreshCache _ _ _).bind fun _ _ => trivial
  | none => trivial

theorem writes_start (id : ReportId) (cause : Trigger) (past : List Event) :
    (Engine.start id cause).Obeys reportProtocol (fun _ _ => True) past := by
  refine Action.obeys_call_bind.mpr ⟨trivial, ?_, fun _ => trivial⟩
  rintro (_ | report)
  · trivial
  refine Action.obeys_ofExcept_bind.mpr ⟨fun _ _ => ?_, fun _ _ => trivial⟩
  refine Action.obeys_request_bind.mpr ⟨trivial, fun now => ?_⟩
  cases report.cache.fresh now with
  | none => trivial
  | some payload =>
    cases payload with
    | some payload =>
      refine Action.obeys_request_bind.mpr ⟨trivial, fun fresh => ?_⟩
      exact Action.obeys_call_bind.mpr ⟨trivial, fun _ => trivial, fun _ => trivial⟩
    | none =>
      refine Action.obeys_request_bind.mpr ⟨trivial, fun fresh => ?_⟩
      refine Action.obeys_call_bind.mpr ⟨trivial, fun _ => ?_, fun _ => trivial⟩
      refine Action.obeys_request_bind.mpr ⟨trivial, fun begun => ?_⟩
      refine Action.obeys_ofExcept_bind.mpr ⟨fun _ _ => ?_, fun _ _ => trivial⟩
      exact Action.obeys_call_bind.mpr ⟨trivial, fun _ => trivial, fun _ => trivial⟩

theorem writes_stampDue (id : ReportId) (now : Instant) (past : List Event) :
    (Engine.stampDue id now).Obeys reportProtocol (fun _ _ => True) past := by
  refine Action.obeys_request_bind.mpr ⟨trivial, ?_⟩
  rintro (_ | _ | report)
  · trivial
  · trivial
  · dsimp only
    cases report.due now with
    | none => trivial
    | some due =>
      cases due with
      | false => trivial
      | true =>
        refine Action.obeys_request_bind.mpr ⟨fun answer => ⟨report, .stamp now, .stamp⟩, ?_⟩
        rintro (_ | _) <;> trivial

theorem writes_engine (engine : Engine) :
    engine.Respects reportProtocol fun _ _ _ => True where
  now _ := trivial
  list _ := trivial
  start id cause past := (writes_start id cause past).imp fun _ _ _ _ _ _ => trivial
  conduct report execution past _ := writes_conduct engine report execution past
  launch _ _ _ _ := trivial
  stampDue := writes_stampDue

theorem writes_call (engine : Engine) {call : EngineCall} (h : call.ofEngine = true) :
    (call.action engine).Obeys reportProtocol (fun _ _ => True) [] :=
  (writes_engine engine).call fun report he => by
    rw [he] at h
    cases h

theorem writes_background (engine : Engine) (report : Report) (execution : Execution) :
    (engine.background report execution).Obeys reportProtocol (fun _ _ => True) [] :=
  (writes_engine engine).background trivial

/-! ## Versions -/

/-- A stored report, with the versions that the last writer of either part has saved. -/
structure ReportVersions where
  current : Report
  stamped : Report
  cached : Report

namespace ReportVersions

/-- The versions after one more was saved. -/
def save (v : ReportVersions) (report : Report) : ReportWrite → ReportVersions
  | .stamp _ => { v with current := report, stamped := report }
  | .cache _ _ => { v with current := report, cached := report }

@[simp] theorem save_current (v : ReportVersions) (report : Report) (write : ReportWrite) :
    (v.save report write).current = report := by
  cases write <;> rfl

/-- The versions after a turn. A report that is saved after a look at the clock has a new cache, any
other one a new stamp. -/
def next (id : ReportId) (v : ReportVersions) : Turn → ReportVersions
  | ⟨⟨.now, _⟩ :: _, ⟨.call (.save .report report), _⟩⟩ =>
    if report.id = id then { v with current := report, cached := report } else v
  | ⟨_, ⟨.call (.save .report report), _⟩⟩ =>
    if report.id = id then { v with current := report, stamped := report } else v
  | _ => v

/-- The versions after some turns. -/
def after (id : ReportId) (report : Report) (turns : List Turn) : ReportVersions :=
  turns.foldl (next id) ⟨report, report, report⟩

/-- The stored report has the stamp that was saved last and the cache that was saved last. -/
structure Kept (v : ReportVersions) : Prop where
  stamp : v.current.lastScheduledAt = v.stamped.lastScheduledAt
  payload : v.current.cache.payload = v.cached.cache.payload
  cachedAt : v.current.cache.cachedAt = v.cached.cache.cachedAt

instance (v : ReportVersions) : Decidable v.Kept :=
  decidable_of_iff (v.current.lastScheduledAt = v.stamped.lastScheduledAt ∧
      v.current.cache.payload = v.cached.cache.payload ∧
      v.current.cache.cachedAt = v.cached.cache.cachedAt)
    ⟨fun ⟨hs, hp, hc⟩ => ⟨hs, hp, hc⟩, fun h => ⟨h.stamp, h.payload, h.cachedAt⟩⟩

end ReportVersions

/-- The version that was read has the part that a write leaves alone as it is stored now. -/
def ReportWrite.UpToDate (read current : Report) : ReportWrite → Prop
  | .stamp _ => read.cache.payload = current.cache.payload ∧
      read.cache.cachedAt = current.cache.cachedAt
  | .cache _ _ => read.lastScheduledAt = current.lastScheduledAt

namespace ReportVersions

variable {id : ReportId} {v : ReportVersions} {turn : Turn} {read : Report} {write : ReportWrite}

theorem after_snoc (report : Report) (turns : List Turn) (turn : Turn) :
    after id report (turns ++ [turn]) = (after id report turns).next id turn := by
  unfold after
  rw [List.foldl_append]
  rfl

theorem next_of_writes (h : turn.Writes read write) (hid : read.id = id) :
    v.next id turn = v.save (write.apply read) write := by
  cases h <;> exact if_pos hid

theorem next_of_other_id (h : turn.Writes read write) (hid : read.id ≠ id) :
    v.next id turn = v := by
  cases h <;> exact if_neg hid

theorem next_of_other {past : List Event} {event : Event}
    (h : ∀ report, event.request ≠ .call (.save .report report)) :
    v.next id ⟨past, event⟩ = v := by
  unfold next
  split
  · next heq => exact absurd (congrArg (fun t => t.event.request) heq) (h _)
  · next heq => exact absurd (congrArg (fun t => t.event.request) heq) (h _)
  · rfl

/-- **One write.** Both parts stay as their last writers left them exactly if the part that is left
alone was read as it is stored now. -/
theorem kept_write_iff (hv : v.Kept) :
    (v.save (write.apply read) write).Kept ↔ write.UpToDate read v.current := by
  obtain ⟨hstamp, hpayload, hcachedAt⟩ := hv
  cases write with
  | stamp now =>
    constructor
    · rintro ⟨-, hp, hc⟩
      exact ⟨hp.trans hpayload.symm, hc.trans hcachedAt.symm⟩
    · rintro ⟨hp, hc⟩
      exact ⟨rfl, hp.trans hpayload, hc.trans hcachedAt⟩
  | cache payload now =>
    constructor
    · rintro ⟨hs, -, -⟩
      exact hs.trans hstamp.symm
    · intro hs
      exact ⟨hs.trans hstamp, rfl, rfl⟩

/-- Both parts are kept all along exactly if every write finds the other part as it was read. -/
theorem forall_kept_iff {report : Report} {turns : List Turn}
    (hturns : ∀ turn ∈ turns, reportProtocol turn.past turn.event.request) :
    (∀ before rest, turns = before ++ rest → (after id report before).Kept) ↔
      ∀ before turn rest, turns = before ++ turn :: rest → ∀ read write,
        turn.Writes read write → read.id = id →
          write.UpToDate read (after id report before).current := by
  constructor
  · intro h before turn rest hsplit read write hw hid
    have hkept := h (before ++ [turn]) rest (by rw [hsplit, List.append_assoc]; rfl)
    rw [after_snoc, next_of_writes hw hid] at hkept
    exact (kept_write_iff (h before _ hsplit)).mp hkept
  · intro h before
    induction before using List.reverseRecOn with
    | nil => exact fun _ _ => ⟨rfl, rfl, rfl⟩
    | append_singleton before turn ih =>
      intro rest hsplit
      rw [List.append_assoc, List.singleton_append] at hsplit
      have hkept := ih _ hsplit
      rw [after_snoc]
      rcases writes_or_other (hturns turn (by simp [hsplit])) with ⟨read, write, hw⟩ | hother
      · by_cases hid : read.id = id
        · rw [next_of_writes hw hid]
          exact (kept_write_iff hkept).mpr (h before turn rest hsplit read write hw hid)
        · rw [next_of_other_id hw hid]
          exact hkept
      · rw [next_of_other hother]
        exact hkept

theorem kept_of_inits {report : Report} {turns before rest : List Turn}
    (h : ∀ part ∈ turns.inits, (after id report part).Kept) (hsplit : turns = before ++ rest) :
    (after id report before).Kept :=
  h before ((List.mem_inits before turns).mpr ⟨rest, hsplit.symm⟩)

end ReportVersions

/-! ## Runs -/

section

variable {engine : Engine} {c c' : Scene EngineRoom EngineError EngineResult} {turn : Turn}
  {id : ReportId} {v : ReportVersions}

/-- Whatever report is saved in a turn can be read again from a repository. -/
def Turn.Retained (r : Repository) (turn : Turn) : Prop :=
  ∀ report, turn.event.request = .call (.save .report report) → r.Retains report

/-- A turn leaves the current version in its place, and the others in theirs. -/
theorem report?_of_takes (h : Takes (engineSetting engine) c turn c')
    (hrule : reportProtocol turn.past turn.event.request)
    (hretained : turn.Retained c.state.repository) (hplace : c.state.repository.ReportsInPlace)
    (hstored : c.state.repository.report? id = .ok (some v.current)) :
    c'.state.repository.report? id = .ok (some (v.next id turn).current) ∧
      c'.state.repository.ReportsInPlace ∧
      ∀ report, c'.state.repository.Retains report ↔ c.state.repository.Retains report := by
  have hanswers := answers_of_takes h
  obtain ⟨past, request, answer⟩ := turn
  -- all requests but the saving of a report leave the reports alone
  have hquiet : (∀ report, request ≠ .call (.save .report report)) →
      (∀ id, c'.state.repository.report? id = c.state.repository.report? id) →
      (∀ report, c'.state.repository.Retains report ↔ c.state.repository.Retains report) →
      c'.state.repository.report? id
          = .ok (some (v.next id ⟨past, ⟨request, answer⟩⟩).current) ∧
        c'.state.repository.ReportsInPlace ∧
        ∀ report, c'.state.repository.Retains report ↔ c.state.repository.Retains report := by
    intro hother hsame hretains
    rw [ReportVersions.next_of_other hother, hsame]
    exact ⟨hstored, fun id report h => hplace id report (hsame id ▸ h), hretains⟩
  cases request with
  | call call =>
    have hrepository := hanswers.repository_of_call
    have hretains := fun report => hrepository ▸ Repository.retains_answer call report
    by_cases hsave : ∃ report, call = .save .report report
    · obtain ⟨report, rfl⟩ := hsave
      have hfound := Repository.report?_save (hretained report rfl)
      rw [← hrepository] at hfound
      obtain ⟨read, write, hw⟩ := hrule answer
      obtain rfl : report = write.apply read := by cases hw <;> rfl
      refine ⟨?_, fun other found h => ?_, hretains⟩
      · rw [hfound, ReportWrite.apply_id]
        by_cases hid : read.id = id
        · rw [if_pos hid, ReportVersions.next_of_writes hw hid, ReportVersions.save_current]
        · rw [if_neg hid, ReportVersions.next_of_other_id hw hid, hstored]
      · rw [hfound] at h
        split at h
        · next hid =>
          cases h
          exact hid
        · exact hplace other found h
    · have hother : ∀ report, call ≠ .save .report report := fun report he => hsave ⟨report, he⟩
      refine hquiet (fun report he => hother report (Request.call.inj he)) (fun id => ?_) hretains
      rw [hrepository]
      exact Repository.report?_of_other hother id
  | relational | dataset | api | now | freshId | putArtifact | notify | launch =>
    have hrepository := hanswers.repository_of_other fun _ => nofun
    exact hquiet (fun _ => nofun) (fun _ => by rw [hrepository]) fun _ => by rw [hrepository]

/-- The current version is the one stored. -/
theorem stored_after_turns {calls : List EngineCall} {room : EngineRoom} {turns : List Turn}
    {report : Report} (hcalls : ∀ call ∈ calls, call.ofEngine = true)
    (hplace : room.repository.ReportsInPlace)
    (hturns : Turns (engineSetting engine) (engineScene engine calls room) turns c)
    (hretained : ∀ turn ∈ turns, turn.Retained room.repository)
    (hstored : room.repository.report? id = .ok (some report)) :
    c.state.repository.report? id
        = .ok (some (ReportVersions.after id report turns).current) ∧
      c.state.repository.ReportsInPlace ∧
      ∀ report, c.state.repository.Retains report ↔ room.repository.Retains report := by
  induction hturns with
  | start => exact ⟨hstored, hplace, fun _ => Iff.rfl⟩
  | @take turns c₁ c₂ turn hturns htake ih =>
    obtain ⟨hbefore, hlast⟩ := List.forall_mem_append.mp hretained
    obtain ⟨hstored₁, hplace₁, hretains₁⟩ := ih hbefore
    have hrule := htake.allowed (hturns.obeys (engineSetting_obeys (writes_background engine))
      (engineScene_obeys fun call hcall => writes_call engine (hcalls call hcall)))
    have hretained₁ : turn.Retained c₁.state.repository := fun report he =>
      (hretains₁ report).mpr (hlast turn (List.mem_singleton.mpr rfl) report he)
    obtain ⟨hstored₂, hplace₂, hretains₂⟩ :=
      report?_of_takes htake hrule hretained₁ hplace₁ hstored₁
    rw [ReportVersions.after_snoc]
    exact ⟨hstored₂, hplace₂, fun report => (hretains₂ report).trans (hretains₁ report)⟩
  | fork _ hs ih =>
    rw [room_of_fork hs]
    exact ih hretained

end

/-! ## A lost cache -/

/-- A report that is due. -/
def hourly : Report := { Engine.loads with schedule := some ⟨60, true⟩ }

/-- A room with this report. -/
def hourlyRoom : EngineRoom :=
  ⟨.memory (MemoryRepository.empty.put .report hourly), .empty, []⟩

/-- The room after a tick has stamped the report. -/
def stampedRoom : EngineRoom :=
  ⟨.memory (MemoryRepository.empty.put .report { hourly with lastScheduledAt := some default }),
    .empty, []⟩

/-- A world in which its dataset has one row. -/
def hourlyWorld : World EngineRoom
  | .call (.list .report ()), s => (.ok [hourly], s)
  | request, s => EngineRoom.still (some [∅]) default request s

/-- A trigger of the report may run without an interruption. -/
theorem trigger_admitted :
    (engineSetting Engine.patient).Admits (EngineRoom.still (some [∅]) default)
      (EngineCall.action Engine.patient (.trigger hourly.id .manual)) hourlyRoom :=
  ⟨⟨rfl, rfl, rfl⟩, rfl, rfl, rfl, ⟨List.not_mem_nil, rfl⟩, rfl, ⟨rfl, rfl, rfl⟩, rfl, rfl, rfl,
    ⟨rfl, rfl, rfl⟩, rfl, rfl, rfl, rfl, rfl, ⟨rfl, rfl, rfl⟩, rfl, ⟨rfl, rfl, rfl⟩, rfl, rfl, rfl,
    ⟨rfl, rfl, rfl⟩, rfl, trivial⟩

/-- A tick has read a report; then a trigger runs it and writes its cache; then the tick saves the
stamped report that it has read, and its own run fails, as the dataset is gone. -/
theorem stale_stamp_saved :
    ∃ turns c, Turns (engineSetting Engine.patient)
        (engineScene Engine.patient [.tick, .trigger hourly.id .manual] hourlyRoom) turns c ∧
      (∀ t ∈ c.threads, ∃ ending, t.rest = .stop ending) ∧
      ¬ (ReportVersions.after hourly.id hourly turns).Kept := by
  let S := engineSetting Engine.patient
  let scene := engineScene Engine.patient [.tick, .trigger hourly.id .manual] hourlyRoom
  have hlisting : EntityKind.report.listing () [hourly] = [hourly] := List.mergeSort_singleton _
  -- the tick reads the report
  have hadmits : S.AdmitsPlay hourlyWorld [0, 0, 0] scene :=
    ⟨rfl, rfl, ⟨Prod.ext (congrArg Except.ok hlisting) rfl, rfl, rfl⟩, rfl, ⟨rfl, rfl, rfl⟩, rfl,
      trivial⟩
  have hread := (Joint.play hadmits).turns
  have hran := hread.trans (Turns.alone trigger_admitted [⟨_, _⟩] [] [])
  have hdone := hran.trans (@Turns.alone _ _ _ S (EngineRoom.still none default) _ _ ?_ []
    [⟨_, _⟩] _)
  · refine ⟨_, _, hdone, ?_, fun hkept => ?_⟩
    · intro t ht
      simp only [List.nil_append, List.mem_cons, List.not_mem_nil, or_false] at ht
      rcases ht with rfl | rfl <;> exact ⟨_, rfl⟩
    · -- no payload is stored, and one was written
      exact absurd hkept.payload (by decide +kernel)
  · exact ⟨⟨rfl, rfl, rfl⟩, rfl, ⟨rfl, rfl, rfl⟩, rfl, rfl, rfl, ⟨by decide, rfl⟩, rfl,
      ⟨rfl, rfl, rfl⟩, rfl, rfl, rfl, ⟨rfl, rfl, rfl⟩, rfl, rfl, rfl, rfl, rfl, ⟨rfl, rfl, rfl⟩,
      rfl, trivial⟩

/--
**Two writers of one report.** Any number of triggers, runs and ticks of an engine are under way
over a repository of either make, in which a report is stored, and what they save can be read again.
Then after every run:

* the stored version is the one that was saved last;
* a version that is saved was stored at some earlier moment, when it was read, and differs from what
  it was then in its stamp or in its cache;
* the stored report had at all times the stamp that was saved last and the cache that was saved
  last, exactly if every saving of one of the two parts found the other one as it had been read.
-/
theorem report_parts_kept_iff {engine : Engine} {calls : List EngineCall} {room : EngineRoom}
    {turns : List Turn} {c : Scene EngineRoom EngineError EngineResult} {id : ReportId}
    {report : Report} (hcalls : ∀ call ∈ calls, call.ofEngine = true)
    (hplace : room.repository.ReportsInPlace)
    (hturns : Turns (engineSetting engine) (engineScene engine calls room) turns c)
    (hretained : ∀ turn ∈ turns, turn.Retained room.repository)
    (hstored : room.repository.report? id = .ok (some report)) :
    c.state.repository.report? id
        = .ok (some (ReportVersions.after id report turns).current) ∧
      (∀ before turn rest, turns = before ++ turn :: rest → ∀ saved,
        turn.event.request = .call (.save .report saved) → saved.id = id →
          ∃ read write earlier between, turn.Writes read write ∧ saved = write.apply read ∧
            before = earlier ++ between ∧
            read = (ReportVersions.after id report earlier).current) ∧
      ((∀ before rest, turns = before ++ rest → (ReportVersions.after id report before).Kept) ↔
        ∀ before turn rest, turns = before ++ turn :: rest → ∀ read write,
          turn.Writes read write → read.id = id →
            write.UpToDate read (ReportVersions.after id report before).current) := by
  have hobeys : ∀ {turns' c'},
      Turns (engineSetting engine) (engineScene engine calls room) turns' c' →
        c'.Obeys reportProtocol := fun h =>
    h.obeys (engineSetting_obeys (writes_background engine))
      (engineScene_obeys fun call hcall => writes_call engine (hcalls call hcall))
  refine ⟨(stored_after_turns hcalls hplace hturns hretained hstored).1, ?_, ?_⟩
  · rintro before turn rest rfl saved hsaved hid
    obtain ⟨c₁, c₂, hbefore, htake, -⟩ := hturns.split
    obtain ⟨hretained₁, -⟩ := List.forall_mem_append.mp hretained
    have hrule := htake.allowed (hobeys hbefore)
    obtain ⟨past, request, answer⟩ := turn
    obtain rfl : request = .call (.save .report saved) := hsaved
    obtain ⟨read, write, hw⟩ := hrule answer
    obtain rfl : saved = write.apply read := by cases hw <;> rfl
    -- the version was shown to the action in an earlier turn
    obtain ⟨id', hshown⟩ := hw.shown
    obtain ⟨t, ht, hpast⟩ := htake.asker
    obtain ⟨reading, hmem, hevent⟩ := hbefore.mem_of_past ht (hpast ▸ hshown)
    obtain ⟨earlier, between, rfl⟩ := List.append_of_mem hmem
    obtain ⟨d₁, d₂, hearlier, hreads, -⟩ := hbefore.split
    have hanswers := answers_of_takes hreads
    rw [hevent] at hanswers
    have hfound : d₁.state.repository.report? id' = .ok (some read) :=
      congrArg Prod.fst hanswers.1
    obtain ⟨hcurrent, hplace₁, -⟩ := stored_after_turns hcalls hplace hearlier
      (fun turn hturn => hretained₁ turn (List.mem_append_left _ hturn)) hstored
    obtain rfl : id' = id :=
      (hplace₁ id' read hfound).symm.trans ((write.apply_id read).symm.trans hid)
    obtain rfl : (ReportVersions.after id' report earlier).current = read :=
      Option.some.inj (Except.ok.inj (hcurrent.symm.trans hfound))
    exact ⟨_, write, earlier, reading :: between, hw, rfl, rfl, rfl⟩
  · refine ReportVersions.forall_kept_iff fun turn hturn => ?_
    obtain ⟨before, rest, rfl⟩ := List.append_of_mem hturn
    obtain ⟨c₁, c₂, hbefore, htake, -⟩ := hturns.split
    exact htake.allowed (hobeys hbefore)

/-- A trigger and a tick of one report, each between requests of the other. The tick reads the
report and saves its stamp; then the run of the trigger reads it, so that both parts are kept; and
then the tick begins a run of its own, which finds the cache. -/
theorem tick_during_trigger :
    ∃ turns c stored, Turns (engineSetting Engine.patient)
        (engineScene Engine.patient [.trigger hourly.id .manual, .tick] hourlyRoom) turns c ∧
      (∀ t ∈ c.threads, ∃ ending, t.rest = .stop ending) ∧
      c.state.repository.report? hourly.id = .ok (some stored) ∧
      stored.lastScheduledAt = some default ∧ stored.cache.payload.isSome = true ∧
      ∀ before turn rest, turns = before ++ turn :: rest → ∀ read write,
        turn.Writes read write → read.id = hourly.id →
          write.UpToDate read (ReportVersions.after hourly.id hourly before).current := by
  let S := engineSetting Engine.patient
  let scene := engineScene Engine.patient [.trigger hourly.id .manual, .tick] hourlyRoom
  have hstored : hourlyRoom.repository.report? hourly.id = .ok (some hourly) := rfl
  have hlisting : EntityKind.report.listing () [hourly] = [hourly] := List.mergeSort_singleton _
  -- the trigger has read the report once; the tick reads it too, and saves its stamp
  have hadmits : S.AdmitsPlay hourlyWorld [0, 1, 1, 1, 1] scene :=
    ⟨⟨rfl, rfl, rfl⟩, rfl, rfl, rfl, ⟨Prod.ext (congrArg Except.ok hlisting) rfl, rfl, rfl⟩, rfl,
      ⟨rfl, rfl, rfl⟩, rfl, ⟨rfl, rfl, rfl⟩, rfl, trivial⟩
  have hstamped := (Joint.play hadmits).turns
  have hran := hstamped.trans (@Turns.alone _ _ _ S (EngineRoom.still (some [∅]) default) _
    stampedRoom ?_ [] [⟨_, _⟩] [_])
  · have hdone := hran.trans (@Turns.alone _ _ _ S (EngineRoom.still (some [∅]) default) _ _
      ?_ [⟨_, _⟩] [] _)
    · obtain ⟨hcurrent, -, hkept⟩ := report_parts_kept_iff (by decide)
        (Repository.reportsInPlace_memory _) hdone (fun _ _ _ _ => trivial) hstored
      refine ⟨_, _, _, hdone, ?_, hcurrent, ?_, ?_, hkept.mp fun before rest hsplit => ?_⟩
      · intro t ht
        simp only [List.mem_append, List.mem_singleton] at ht
        rcases ht with rfl | rfl <;> exact ⟨_, rfl⟩
      · decide +kernel
      · decide +kernel
      · refine ReportVersions.kept_of_inits ?_ hsplit
        decide +kernel
    · exact ⟨⟨rfl, rfl, rfl⟩, rfl, rfl, rfl, ⟨by decide, rfl⟩, rfl, ⟨rfl, rfl, rfl⟩, rfl, trivial⟩
  · exact ⟨rfl, rfl, ⟨List.not_mem_nil, rfl⟩, rfl, ⟨rfl, rfl, rfl⟩, rfl, rfl, rfl,
      ⟨rfl, rfl, rfl⟩, rfl, rfl, rfl, rfl, rfl, ⟨rfl, rfl, rfl⟩, rfl, ⟨rfl, rfl, rfl⟩, rfl, rfl,
      rfl, ⟨rfl, rfl, rfl⟩, rfl, trivial⟩

end Bulletin
