import Bulletin.Proofs.Lifecycles
import Bulletin.Alert.Instance
import Mathlib.Logic.Basic

/-!
# The life of an alert

An alert is opened by a breach and is then asked for acknowledgements and resolutions in any order.
It takes at most one of each, and its record tells of the ones that it took and of no others.

* `Step.apply_eq` — all that a step does
* `Tells.record` — the record tells of a step that is accepted
* `alert_life`
-/

namespace Bulletin

/-- Where an alert may go from a state. -/
def AlertStatus.Leads (status next : AlertStatus) : Prop :=
  status = .active ∧ (next = .acknowledged ∨ next = .resolved) ∨
    status = .acknowledged ∧ next = .resolved

instance AlertStatus.decidableLeads (status next : AlertStatus) : Decidable (status.Leads next) :=
  inferInstanceAs (Decidable (_ ∨ _))

namespace Alert

/-! ## Steps -/

/-- What may be asked of an alert. -/
inductive Step where
  | acknowledge (person : Option String) (now : Instant)
  | resolve (reason : String) (auto : Bool) (now : Instant)

namespace Step

def apply : Step → Alert → Except DomainError Alert
  | .acknowledge person now, a => a.acknowledge person now
  | .resolve reason auto now, a => a.resolve reason auto now

/-- The state that a step leads to. -/
def target : Step → AlertStatus
  | .acknowledge .. => .acknowledged
  | .resolve .. => .resolved

/-- The record after the step, if it is accepted. -/
def record : Step → Alert → Alert
  | .acknowledge person now, a =>
    { a with status := .acknowledged, acknowledgedAt := some now, acknowledgedBy := person }
  | .resolve reason auto now, a =>
    { a with
      status := .resolved
      resolvedAt := some now
      resolutionReason := some reason
      autoResolved := auto }

/-- The error of the step, if it is refused. -/
def refusal : Step → Alert → DomainError
  | .acknowledge .., a =>
    .validation "status" ("cannot acknowledge " ++ a.status.name ++ " alert " ++ a.id.display)
  | .resolve .., a => .validation "status" ("alert " ++ a.id.display ++ " is already resolved")

/-- A step is accepted if the state leads to that of the step, and is refused otherwise. -/
theorem apply_eq (step : Step) (a : Alert) :
    step.apply a =
      if a.status.Leads step.target then .ok (step.record a) else .error (step.refusal a) := by
  cases step with
  | acknowledge person now =>
    unfold apply Alert.acknowledge
    exact if_congr (by simp [AlertStatus.Leads, target]) rfl rfl
  | resolve reason auto now =>
    unfold apply Alert.resolve
    rw [← ite_not]
    refine if_congr ?_ rfl rfl
    cases a.status <;> simp [AlertStatus.Leads, target]

theorem status_record (step : Step) (a : Alert) : (step.record a).status = step.target := by
  cases step <;> rfl

/-- Who acknowledged, and when. -/
def acknowledgement? : Step → Option (Option String × Instant)
  | .acknowledge person now => some (person, now)
  | .resolve .. => none

/-- The reason of a resolution, whether it came by itself, and when. -/
def resolution? : Step → Option (String × Bool × Instant)
  | .acknowledge .. => none
  | .resolve reason auto now => some (reason, auto, now)

end Step

/-- The record after some steps were asked of it. -/
def after (a : Alert) (steps : List Step) : Alert := Lifecycle.after Step.apply a steps

/-- The steps that the alert took, of those that were asked. -/
def accepted (a : Alert) (steps : List Step) : List Step := Lifecycle.accepted Step.apply a steps

/-! ## What a record tells -/

/-- Two records are of the same breach. -/
structure SameBreach (a a' : Alert) : Prop where
  id : a'.id = a.id
  ruleId : a'.ruleId = a.ruleId
  severity : a'.severity = a.severity
  triggeredValue : a'.triggeredValue = a.triggeredValue
  threshold : a'.threshold = a.threshold
  message : a'.message = a.message
  triggeredAt : a'.triggeredAt = a.triggeredAt

/-- A record tells of the acknowledgements and resolutions among some steps: there is at most one of
each, and it says which. -/
structure Tells (a : Alert) (done : List Step) : Prop where
  acknowledged :
    a.status ≠ .acknowledged ∧ a.acknowledgedAt = none ∧ a.acknowledgedBy = none ∧
        done.filterMap Step.acknowledgement? = [] ∨
      a.status ≠ .active ∧ ∃ person now, a.acknowledgedAt = some now ∧ a.acknowledgedBy = person ∧
        done.filterMap Step.acknowledgement? = [(person, now)]
  resolved :
    a.status ≠ .resolved ∧ a.resolvedAt = none ∧ a.resolutionReason = none ∧
        a.autoResolved = false ∧ done.filterMap Step.resolution? = [] ∨
      a.status = .resolved ∧ ∃ reason auto now, a.resolvedAt = some now ∧
        a.resolutionReason = some reason ∧ a.autoResolved = auto ∧
        done.filterMap Step.resolution? = [(reason, auto, now)]

theorem SameBreach.record {a₀ a : Alert} (h : SameBreach a₀ a) (step : Step) :
    SameBreach a₀ (step.record a) := by
  cases step <;>
    exact ⟨h.id, h.ruleId, h.severity, h.triggeredValue, h.threshold, h.message, h.triggeredAt⟩

/-- A new alert tells of nothing. -/
theorem tells_triggered (id : AlertId) (rule : AlertRule) (value : Binary64) (now : Instant) :
    (triggered id rule value now).Tells [] :=
  ⟨.inl ⟨nofun, rfl, rfl, rfl⟩, .inl ⟨nofun, rfl, rfl, rfl, rfl⟩⟩

/-- After a step that is accepted the record tells of it too. -/
theorem Tells.record {a : Alert} {done : List Step} (h : a.Tells done) {step : Step}
    (hleads : a.status.Leads step.target) : (step.record a).Tells (done ++ [step]) := by
  cases step with
  | acknowledge person now =>
    have hactive : a.status = .active := by
      simpa [AlertStatus.Leads, Step.target] using hleads
    obtain ⟨-, -, -, hnone⟩ | ⟨hstatus, -⟩ := h.acknowledged
    · obtain ⟨-, hat, hreason, hauto, hresolutions⟩ | ⟨hstatus, -⟩ := h.resolved
      · refine ⟨.inr ⟨nofun, person, now, rfl, rfl, ?_⟩,
          .inl ⟨nofun, hat, hreason, hauto, ?_⟩⟩
        · rw [List.filterMap_append, hnone]
          rfl
        · rw [List.filterMap_append, hresolutions]
          rfl
      · rw [hactive] at hstatus
        cases hstatus
    · exact absurd hactive hstatus
  | resolve reason auto now =>
    have hopen : a.status ≠ .resolved := by
      intro hstatus
      simp [AlertStatus.Leads, hstatus] at hleads
    have hresolutions : done.filterMap Step.resolution? = [] := by
      obtain ⟨-, -, -, -, hnone⟩ | ⟨hstatus, -⟩ := h.resolved
      · exact hnone
      · exact absurd hstatus hopen
    have hlater : (done ++ [Step.resolve reason auto now]).filterMap Step.acknowledgement?
        = done.filterMap Step.acknowledgement? := by
      rw [List.filterMap_append]
      exact List.append_nil _
    refine ⟨?_, .inr ⟨rfl, reason, auto, now, rfl, rfl, rfl, ?_⟩⟩
    · rw [hlater]
      obtain ⟨-, hat, hperson, hnone⟩ | ⟨-, hone⟩ := h.acknowledged
      · exact .inl ⟨nofun, hat, hperson, hnone⟩
      · exact .inr ⟨nofun, hone⟩
    · rw [List.filterMap_append, hresolutions]
      rfl

/-! ## Lives -/

/-- **The life of an alert.** After any steps that were asked of an alert since its breach:

* Its record is of the same breach.
* It tells of the acknowledgement and of the resolution that it took, and there is at most one of
  each.
* Another step leads to a state of its own. If this state follows that of the record, the step is
  accepted and recorded. Otherwise it is refused with an error, and the record stays as it is. -/
theorem alert_life (id : AlertId) (rule : AlertRule) (value : Binary64) (now : Instant)
    (steps : List Step) :
    let opened := triggered id rule value now
    let a := opened.after steps
    SameBreach opened a ∧ a.Tells (opened.accepted steps) ∧
      ∀ step, (step.record a).status = step.target ∧
        if a.status.Leads step.target
        then step.apply a = .ok (step.record a) ∧ a.after [step] = step.record a
        else step.apply a = .error (step.refusal a) ∧ a.after [step] = a := by
  intro opened a
  have hlife : SameBreach opened a ∧ a.Tells (opened.accepted steps) := by
    refine Lifecycle.invariant_of_leads (P := fun a done => SameBreach opened a ∧ a.Tells done)
      Step.apply_eq ?_
      ⟨⟨rfl, rfl, rfl, rfl, rfl, rfl, rfl⟩, tells_triggered id rule value now⟩ steps
    rintro a done step ⟨hsame, htells⟩ hleads
    exact ⟨hsame.record step, htells.record hleads⟩
  refine ⟨hlife.1, hlife.2, fun step => ⟨step.status_record a, ?_⟩⟩
  exact Lifecycle.answered_of_leads Step.apply_eq a step

end Alert

end Bulletin
