import Bulletin.Alert.Evaluate
import Bulletin.Proofs.Queries

/-!
# What the evaluator does to stored alerts

The evaluator writes alerts in two ways only. It opens an alert under the identifier that it has
just been given, and it saves what `acknowledge` or `resolve` makes of an alert that it was shown
before. `alertProtocol` says so, and every call of the evaluator obeys it, whatever it is answered.

What it was shown may be out of date by the time of the saving: the protocol does not forbid it.
-/

namespace Bulletin

/-! ## Alerts in events -/

/-- An event that shows an alert as it was stored. -/
def Event.Shows (alert : Alert) : Event → Prop
  | ⟨.call (.get .alert _), .ok found⟩ => found = some alert
  | ⟨.call (.list .alert _), .ok alerts⟩ => alert ∈ alerts
  | _ => False

/-- One of some events shows an alert. -/
def Shown (past : List Event) (alert : Alert) : Prop := ∃ event ∈ past, event.Shows alert

theorem Shown.cons {past : List Event} {alert : Alert} (h : Shown past alert) (event : Event) :
    Shown (event :: past) alert := by
  obtain ⟨shown, hmem, hs⟩ := h
  exact ⟨shown, List.mem_cons_of_mem _ hmem, hs⟩

/-- One step in the life of an alert. -/
inductive Alert.Next (a b : Alert) : Prop
  | acknowledged {person : Option String} {now : Instant} (h : a.acknowledge person now = .ok b)
  | resolved {reason : String} {auto : Bool} {now : Instant} (h : a.resolve reason auto now = .ok b)

/-- Alerts are opened under an identifier just given, and saved as the next step of one shown. -/
def alertProtocol : Protocol
  | past, .call (.save .alert alert) => ∃ shown, Shown past shown ∧ shown.Next alert
  | past, .call (.createActive alert) =>
    past.head? = some ⟨.freshId, alert.id.uuid⟩ ∧
      ∃ rule value now, alert = .triggered alert.id rule value now
  | _, _ => True

/-! ## Metrics and notifications -/

theorem asksOnly_metric (evaluator : Evaluator) (rule : AlertRule) :
    (evaluator.metric rule).AsksOnly Request.IsQuery := by
  refine Action.asksOnly_bind (Action.asksOnly_mapError (asksOnly_execute _ _ _)) ?_
  intro rows
  split <;> trivial

theorem alertProtocol_of_isQuery (past : List Event) (request : Request) (h : request.IsQuery) :
    alertProtocol past request := by
  cases request <;> trivial

theorem obeys_notifyAll {ε : Type} (notification : Notification) (channels : List Channel)
    (past : List Event) :
    (notifyAll notification channels : Action ε _).Obeys alertProtocol (fun _ _ => True) past := by
  induction channels generalizing past with
  | nil => trivial
  | cons channel rest ih =>
    refine ⟨trivial, fun answer => ?_⟩
    exact (ih _).bind fun _ _ => trivial

theorem obeys_dispatch {ε : Type} (channels : List Channel) (notification : Notification)
    (past : List Event) :
    (dispatch channels notification : Action ε _).Obeys alertProtocol (fun _ _ => True) past :=
  (obeys_notifyAll _ _ _).bind fun _ _ => trivial

/-! ## Calls of the evaluator -/

theorem obeys_onBreach (rule : AlertRule) (value : Binary64) (now : Instant) (past : List Event) :
    (Evaluator.onBreach rule value now).Obeys alertProtocol (fun _ _ => True) past := by
  refine Action.obeys_request_bind.mpr ⟨trivial, fun fresh => ?_⟩
  refine Action.obeys_call_bind.mpr ⟨⟨rfl, rule, value, now, rfl⟩, ?_, fun _ => trivial⟩
  intro created
  split
  · exact (obeys_dispatch _ _ _).bind fun _ _ => trivial
  · trivial

/-- Resolving alerts one after the other obeys the protocol if all of them were shown. -/
theorem obeys_resolveOpen (now : Instant) (alerts : List Alert) (past : List Event)
    (h : ∀ alert ∈ alerts, Shown past alert) :
    (Evaluator.resolveOpen now alerts).Obeys alertProtocol (fun _ _ => True) past := by
  induction alerts generalizing past with
  | nil => trivial
  | cons alert rest ih =>
    have hrest : ∀ alert ∈ rest, Shown past alert := fun a ha => h a (List.mem_cons_of_mem _ ha)
    unfold Evaluator.resolveOpen
    split
    · exact ih past hrest
    · refine Action.obeys_ofExcept_bind.mpr ⟨?_, fun _ _ => trivial⟩
      intro resolved hresolved
      have hnext : alert.Next resolved := by
        cases hr : alert.resolve Evaluator.autoReason true now with
        | error e => rw [hr] at hresolved; cases hresolved
        | ok b =>
          rw [hr] at hresolved
          cases hresolved
          exact .resolved hr
      refine Action.obeys_call_bind.mpr ⟨⟨alert, h alert (by simp), hnext⟩, ?_, fun _ => trivial⟩
      intro _
      exact (ih _ fun a ha => (hrest a ha).cons _).bind fun _ _ => trivial

theorem obeys_onClear (evaluator : Evaluator) (rule : AlertRule) (value : Binary64)
    (now : Instant) (past : List Event) :
    (evaluator.onClear rule value now).Obeys alertProtocol (fun _ _ => True) past := by
  unfold Evaluator.onClear
  split
  · refine Action.obeys_call_bind.mpr ⟨trivial, fun alerts => ?_, fun _ => trivial⟩
    refine (obeys_resolveOpen now alerts _ ?_).bind fun _ _ => trivial
    intro alert ha
    exact ⟨_, List.mem_cons_self, ha⟩
  · trivial

theorem obeys_stamp (id : RuleId) (now : Instant) (past : List Event) :
    (Evaluator.stamp id now).Obeys alertProtocol (fun _ _ => True) past := by
  refine Action.obeys_call_bind.mpr ⟨trivial, ?_, fun _ => trivial⟩
  rintro (_ | rule)
  · trivial
  · exact ⟨trivial, by rintro (_ | _) <;> trivial⟩

theorem obeys_evaluateRule (evaluator : Evaluator) (rule : AlertRule) (past : List Event) :
    (evaluator.evaluateRule rule).Obeys alertProtocol (fun _ _ => True) past := by
  refine (((asksOnly_metric _ _).obeys alertProtocol_of_isQuery past).result).bind ?_
  rintro past (_ | value)
  · trivial
  refine Action.obeys_request_bind.mpr ⟨trivial, fun now => ?_⟩
  refine Action.Obeys.bind (Action.Obeys.result ?_) fun past outcome => ?_
  · split
    · exact obeys_onBreach _ _ _ _
    · exact obeys_onClear _ _ _ _ _
  · refine (obeys_stamp _ _ _).bind fun past _ => ?_
    cases outcome <;> trivial

theorem obeys_outcomeOf (evaluator : Evaluator) (rule : AlertRule) (past : List Event) :
    (evaluator.outcomeOf rule).Obeys alertProtocol (fun _ _ => True) past := by
  refine ((obeys_evaluateRule _ _ _).result).bind ?_
  rintro past (_ | _) <;> trivial

theorem obeys_enabledRules (past : List Event) :
    Evaluator.enabledRules.Obeys alertProtocol (fun _ _ => True) past :=
  Action.obeys_call_bind.mpr ⟨trivial, fun _ => trivial, fun _ => trivial⟩

/-- A change of one alert obeys the protocol if it is a step in the life of an alert. -/
theorem obeys_change (id : AlertId) {step : Alert → Instant → Except DomainError Alert}
    (hstep : ∀ a now b, step a now = .ok b → a.Next b) (past : List Event) :
    (Evaluator.change id step).Obeys alertProtocol (fun _ _ => True) past := by
  refine Action.obeys_call_bind.mpr ⟨trivial, ?_, fun _ => trivial⟩
  rintro (_ | alert)
  · trivial
  refine Action.obeys_request_bind.mpr ⟨trivial, fun now => ?_⟩
  refine Action.obeys_ofExcept_bind.mpr ⟨?_, fun _ _ => trivial⟩
  intro changed hchanged
  have hnext : alert.Next changed := by
    cases hs : step alert now with
    | error e => rw [hs] at hchanged; cases hchanged
    | ok b =>
      rw [hs] at hchanged
      cases hchanged
      exact hstep alert now _ hs
  refine Action.obeys_call_bind.mpr ⟨⟨alert, ?_, hnext⟩, fun _ => trivial, fun _ => trivial⟩
  exact ⟨⟨.call (.get .alert id), .ok (some alert)⟩, by simp, rfl⟩

theorem obeys_acknowledge (id : AlertId) (person : Option String) (past : List Event) :
    (Evaluator.acknowledge id person).Obeys alertProtocol (fun _ _ => True) past :=
  obeys_change id (fun _ _ _ h => .acknowledged h) past

theorem obeys_resolve (id : AlertId) (reason : String) (past : List Event) :
    (Evaluator.resolve id reason).Obeys alertProtocol (fun _ _ => True) past :=
  obeys_change id (fun _ _ _ h => .resolved h) past

end Bulletin
