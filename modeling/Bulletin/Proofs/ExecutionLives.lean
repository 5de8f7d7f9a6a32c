import Bulletin.Proofs.Lifecycles
import Bulletin.Report.Execution
import Mathlib.Logic.Basic

/-!
# The life of an execution

An execution is queued, or was answered from the cache, and is then asked for any steps in any
order. Its state moves along `ExecutionStatus.Leads`, a refused step changes nothing, and in every
state the record holds what belongs to this state and nothing else.

The duration is counted between two readings of the clock. It is zero if the clock went back,
except at a leap second (`Instant.Slips`).

* `Instant.elapses_elapsedMillis` — the duration between two readings
* `Step.apply_eq` — all that a step does
* `Consistent.record` — an accepted step keeps a record consistent
* `execution_life`
-/

namespace Bulletin

/-! ## Durations -/

namespace Instant

variable (start stop : Instant)

/-- The clock went back from the first second of a day into a leap second at the end of the day
before, and stands there further into its second, by a millisecond at least. The leap second counts
as part of the second before it, which makes this a step forward. -/
def Slips : Prop :=
  start.secondOfDay = 0 ∧ stop.second + 1 = start.second ∧ 1000000000 ≤ stop.nano ∧
    start.nano % 1000000000 + 1001000000 ≤ stop.nano

/-- A number of milliseconds is the duration from one instant to another. -/
structure Elapses (ms : Nat) : Prop where
  /-- it is the time between them in whole milliseconds -/
  whole : 0 ≤ nanosBetween start stop →
    ms * 1000000 ≤ nanosBetween start stop ∧ nanosBetween start stop < (ms + 1) * 1000000
  /-- it is zero if this time is negative -/
  negative : nanosBetween start stop < 0 → ms = 0
  /-- it is zero if the clock went back, unless it slipped -/
  back : stop.before start = true → (ms = 0 ↔ ¬ Slips start stop)

theorem before_eq_true_iff {a b : Instant} :
    a.before b = true ↔ a.second < b.second ∨ a.second = b.second ∧ a.nano < b.nano := by
  unfold before order
  rw [beq_iff_eq, Ordering.then_eq_lt, Int.compare_eq_lt, Int.compare_eq_eq, Nat.compare_eq_lt]

theorem secondOfDay_eq (t : Instant) : t.secondOfDay = t.second % 86400 :=
  Int.fmod_eq_emod_of_nonneg _ (by decide)

theorem elapses_elapsedMillis : Elapses start stop (elapsedMillis start stop) := by
  refine ⟨fun h => ?_, fun h => ?_, fun h => ?_⟩
  · unfold elapsedMillis
    omega
  · unfold elapsedMillis
    omega
  · have hstart := start.nano_lt
    have hstop := stop.nano_lt
    rw [before_eq_true_iff] at h
    unfold elapsedMillis nanosBetween Slips
    rw [secondOfDay_eq, secondOfDay_eq]
    dsimp only
    split
    · omega
    · split <;> omega

/-- The longest duration fits a word. -/
theorem elapsedMillis_lt : elapsedMillis start stop < UInt64.size := by
  have hstart := start.inRange
  have hstop := stop.inRange
  have hstop' := stop.nano_lt
  unfold elapsedMillis nanosBetween UInt64.size
  dsimp only
  split
  · omega
  · split <;> omega

end Instant

/-! ## States -/

/-- Where an execution may go from a state. -/
def ExecutionStatus.Leads (status next : ExecutionStatus) : Prop :=
  status = .queued ∧ (next = .running ∨ next = .failed) ∨
    status = .running ∧ (next = .completed ∨ next = .failed)

instance ExecutionStatus.decidableLeads (status next : ExecutionStatus) :
    Decidable (status.Leads next) :=
  inferInstanceAs (Decidable (_ ∨ _))

namespace Execution

/-! ## Steps -/

/-- What may be asked of an execution. -/
inductive Step where
  | start (now : Instant)
  | complete (payload : Json) (artifacts : List Artifact) (now : Instant)
  | fail (message : String) (now : Instant)

namespace Step

def apply : Step → Execution → Except DomainError Execution
  | .start now, e => e.start now
  | .complete payload artifacts now, e => e.complete payload artifacts now
  | .fail message now, e => e.fail message now

/-- The state that a step leads to. -/
def target : Step → ExecutionStatus
  | .start _ => .running
  | .complete .. => .completed
  | .fail .. => .failed

/-- The record after the step, if it is accepted. -/
def record : Step → Execution → Execution
  | .start now, e => { e with status := .running, startedAt := some now }
  | .complete payload artifacts now, e =>
    finish { e with status := .completed, payload := some payload, artifacts } now
  | .fail message now, e => finish { e with status := .failed, error := some message } now

/-- A step is accepted if the state leads to that of the step, and is refused otherwise. -/
theorem apply_eq (step : Step) (e : Execution) :
    step.apply e = if e.status.Leads step.target then .ok (step.record e)
      else .error (e.refused step.target) := by
  cases step with
  | start now =>
    unfold apply Execution.start
    exact if_congr (by simp [ExecutionStatus.Leads, target]) rfl rfl
  | complete payload artifacts now =>
    unfold apply Execution.complete
    exact if_congr (by simp [ExecutionStatus.Leads, target]) rfl rfl
  | fail message now =>
    unfold apply Execution.fail
    rw [← ite_not]
    refine if_congr ?_ rfl rfl
    cases e.status <;> simp [ExecutionStatus.Leads, ExecutionStatus.terminal, target]

theorem status_record (step : Step) (e : Execution) : (step.record e).status = step.target := by
  cases step <;> rfl

end Step

/-- The record after some steps were asked of it. -/
def after (e : Execution) (steps : List Step) : Execution := Lifecycle.after Step.apply e steps

/-! ## What a record holds -/

/-- How a record begins. -/
inductive Origin where
  | queued (id : ExecutionId) (report : ReportId) (trigger : Trigger) (now : Instant)
  | cached (id : ExecutionId) (report : ReportId) (payload : Json) (now : Instant)

def Origin.record : Origin → Execution
  | .queued id report trigger now => .queued id report trigger now
  | .cached id report payload now => .cached id report payload now

/-- Two records are of the same run. -/
structure SameRun (e e' : Execution) : Prop where
  id : e'.id = e.id
  reportId : e'.reportId = e.reportId
  trigger : e'.trigger = e.trigger
  createdAt : e'.createdAt = e.createdAt

/-- A record holds what belongs to its state. -/
structure Consistent (e : Execution) : Prop where
  notCancelled : e.status ≠ .cancelled
  unfinished : e.status.terminal = false → e.completedAt = none ∧ e.durationMs = none ∧
    e.payload = none ∧ e.artifacts = [] ∧ e.error = none
  started : e.status = .running ∨ e.status = .completed → e.startedAt.isSome = true
  finished : e.status.terminal = true → ∃ stop ms, e.completedAt = some stop ∧
    e.durationMs = some ms ∧ Instant.Elapses (e.startedAt.getD e.createdAt) stop ms.toNat
  completed : e.status = .completed → e.payload.isSome = true ∧ e.error = none
  failed : e.status = .failed → e.error.isSome = true ∧ e.payload = none ∧ e.artifacts = []

theorem SameRun.record {e₀ e : Execution} (h : SameRun e₀ e) (step : Step) :
    SameRun e₀ (step.record e) := by
  cases step <;> exact ⟨h.id, h.reportId, h.trigger, h.createdAt⟩

/-- The end and the duration of a record that is finished. -/
theorem finish_finished (e : Execution) (now : Instant) :
    ∃ stop ms, (finish e now).completedAt = some stop ∧ (finish e now).durationMs = some ms ∧
      Instant.Elapses (e.startedAt.getD e.createdAt) stop ms.toNat := by
  refine ⟨now, _, rfl, rfl, ?_⟩
  rw [UInt64.toNat_ofNat_of_lt' (Instant.elapsedMillis_lt _ _)]
  exact Instant.elapses_elapsedMillis _ _

theorem consistent_origin (origin : Origin) : origin.record.Consistent := by
  cases origin with
  | queued id report trigger now =>
    exact ⟨nofun, fun _ => ⟨rfl, rfl, rfl, rfl, rfl⟩, nofun, nofun, nofun, nofun⟩
  | cached id report payload now =>
    have hzero : Instant.elapsedMillis now now = 0 := by
      unfold Instant.elapsedMillis Instant.nanosBetween
      simp
    have helapses : Instant.Elapses now now 0 := hzero ▸ Instant.elapses_elapsedMillis now now
    exact ⟨nofun, nofun, fun _ => rfl, fun _ => ⟨now, 0, rfl, rfl, helapses⟩,
      fun _ => ⟨rfl, rfl⟩, nofun⟩

/-- An accepted step keeps a record consistent. -/
theorem Consistent.record {e : Execution} (h : e.Consistent) {step : Step}
    (hleads : e.status.Leads step.target) : (step.record e).Consistent := by
  -- the state before an accepted step is not terminal, so nothing was filled in yet
  have hopen : e.status.terminal = false := by
    rcases hleads with ⟨hstatus, -⟩ | ⟨hstatus, -⟩ <;> rw [hstatus] <;> rfl
  obtain ⟨hcompleted, hduration, hpayload, hartifacts, herror⟩ := h.unfinished hopen
  cases step with
  | start now =>
    exact ⟨nofun, fun _ => ⟨hcompleted, hduration, hpayload, hartifacts, herror⟩, fun _ => rfl,
      nofun, nofun, nofun⟩
  | complete payload artifacts now =>
    have hrunning : e.status = .running := by
      simpa [ExecutionStatus.Leads, Step.target] using hleads
    exact ⟨nofun, nofun, fun _ => h.started (.inl hrunning), fun _ => finish_finished _ now,
      fun _ => ⟨rfl, herror⟩, nofun⟩
  | fail message now =>
    exact ⟨nofun, nofun, fun h => h.elim nofun nofun, fun _ => finish_finished _ now, nofun,
      fun _ => ⟨rfl, hpayload, hartifacts⟩⟩

/-! ## Lives -/

/-- From a terminal state no step leads on. -/
theorem refused_of_terminal {e : Execution} (h : e.status.terminal = true) (step : Step) :
    step.apply e = .error (e.refused step.target) := by
  rw [Step.apply_eq, if_neg]
  rintro (⟨hstatus, -⟩ | ⟨hstatus, -⟩) <;> rw [hstatus] at h <;> cases h

/-- **The life of an execution.** After any steps that were asked of a record, queued or answered
from the cache at first:

* It is of the same run, and holds what belongs to its state.
* Another step leads to a state of its own. If this state follows that of the record, the step is
  accepted and recorded. Otherwise it is refused with an error, and the record stays as it is.
* If its state is terminal, no steps change it any more.

The duration is that between two readings of the clock, and zero if the clock went back, unless it
slipped into a leap second. -/
theorem execution_life (origin : Origin) (steps : List Step) :
    let e := origin.record.after steps
    SameRun origin.record e ∧ e.Consistent ∧
      (∀ step, (step.record e).status = step.target ∧
        if e.status.Leads step.target
        then step.apply e = .ok (step.record e) ∧ e.after [step] = step.record e
        else step.apply e = .error (e.refused step.target) ∧ e.after [step] = e) ∧
      (e.status.terminal = true → ∀ more, e.after more = e) := by
  intro e
  have hlife : SameRun origin.record e ∧ e.Consistent := by
    refine Lifecycle.invariant_of_leads
      (P := fun e _ => SameRun origin.record e ∧ e.Consistent) Step.apply_eq ?_
      ⟨⟨rfl, rfl, rfl, rfl⟩, consistent_origin origin⟩ steps
    rintro e - step ⟨hsame, hconsistent⟩ hleads
    exact ⟨hsame.record step, hconsistent.record hleads⟩
  refine ⟨hlife.1, hlife.2, fun step => ⟨step.status_record e, ?_⟩, fun hterminal => ?_⟩
  · exact Lifecycle.answered_of_leads Step.apply_eq e step
  · exact Lifecycle.after_of_refused fun step => ⟨_, refused_of_terminal hterminal step⟩

/-- An execution that starts at midnight after 2016-12-31T23:59:60 and completes half a second into
this leap second has taken half a second. -/
theorem duration_of_slip :
    let midnight : Instant := ⟨1483228800, 0, by decide, by decide⟩
    let leap : Instant := ⟨1483228799, 1500000000, by decide, by decide⟩
    let e := (queued default default .manual midnight).after
      [.start midnight, .complete (.object []) [] leap]
    leap.before midnight = true ∧ e.status = .completed ∧ e.startedAt = some midnight ∧
      e.completedAt = some leap ∧ e.durationMs = some 500 :=
  ⟨by decide, rfl, rfl, rfl, by decide⟩

end Execution

end Bulletin
