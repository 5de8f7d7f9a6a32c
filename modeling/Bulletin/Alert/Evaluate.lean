import Bulletin.Action.Call
import Bulletin.Alert.Config
import Bulletin.Alert.Error

/-!
# Evaluating alert rules

Evaluating a rule reads its metric and compares it with the threshold. A breach opens an alert
unless the rule has an active one, and tells all channels of it. A metric within the threshold may
resolve the open alerts of the rule. Either way the rule is stamped with the time of the
evaluation, even if an alert could not be stored; a rule whose metric cannot be read is skipped
and not stamped.

A tick evaluates every enabled rule. What goes wrong with one rule is its outcome and does not
stop the others.
-/

namespace Bulletin

/-! ## Outcomes -/

/-- What the evaluation of a rule came to. -/
inductive RuleOutcome where
  | skipped (rule : RuleId) (reason : String)
  /-- within the threshold, with the alerts that this resolved -/
  | clear (rule : RuleId) (value : Binary64) (resolved : List AlertId)
  /-- breached, with the alert that this opened -/
  | triggered (rule : RuleId) (value : Binary64) (alert : AlertId) (notifications : DispatchReport)
  /-- breached while an alert is active -/
  | deduplicated (rule : RuleId) (value : Binary64)
deriving DecidableEq

namespace RuleOutcome

def ruleId : RuleOutcome → RuleId
  | .skipped rule _ => rule
  | .clear rule _ _ => rule
  | .triggered rule _ _ _ => rule
  | .deduplicated rule _ => rule

def toJson : RuleOutcome → Json
  | .skipped rule reason =>
    .object [("outcome", .string "skipped"), ("rule_id", rule.toJson), ("reason", .string reason)]
  | .clear rule value resolved =>
    .object [("outcome", .string "clear"), ("rule_id", rule.toJson), ("value", .real value),
      ("resolved", .array (resolved.map Id.toJson))]
  | .triggered rule value alert notifications =>
    .object [("outcome", .string "triggered"), ("rule_id", rule.toJson), ("value", .real value),
      ("instance_id", alert.toJson), ("notifications", notifications.toJson)]
  | .deduplicated rule value =>
    .object [("outcome", .string "deduplicated"), ("rule_id", rule.toJson),
      ("value", .real value)]

def isTriggered : RuleOutcome → Bool
  | .triggered .. => true
  | _ => false

def isSkipped : RuleOutcome → Bool
  | .skipped .. => true
  | _ => false

def isDeduplicated : RuleOutcome → Bool
  | .deduplicated .. => true
  | _ => false

end RuleOutcome

/-! ## Notifications -/

/-- Tells every channel of a notification, and gives what became of each delivery. -/
def notifyAll {ε : Type} (notification : Notification) :
    List Channel → Action ε (List (Except DeliveryError Unit))
  | [] => pure []
  | channel :: rest => do
    let result ← Action.request (.notify channel notification)
    let results ← notifyAll notification rest
    return result :: results

/-- Tells every channel, and counts. -/
def dispatch {ε : Type} (channels : List Channel) (notification : Notification) :
    Action ε DispatchReport := do
  return .ofResults (← notifyAll notification channels)

namespace Evaluator

/-! ## One rule -/

/-- Reads the metric of a rule. -/
def metric (evaluator : Evaluator) (rule : AlertRule) : Action AlertError Binary64 := do
  let rows ← (Query.execute evaluator.connectors rule.source
    ⟨rule.query, rule.parameters, ∅⟩).mapError AlertError.query
  match AlertRule.metric? rows rule.metricField with
  | some value => return value
  | none => .fail (.noMetric rule.name)

/-- Opens an alert for a breach, and tells of it. -/
def onBreach (rule : AlertRule) (value : Binary64) (now : Instant) :
    Action AlertError RuleOutcome := do
  let fresh ← Action.request .freshId
  let alert := Alert.triggered ⟨fresh⟩ rule value now
  if ← Action.call .storage (.createActive alert) then
    let report ← dispatch rule.channels (.ofAlert rule alert)
    return .triggered rule.id value alert.id report
  else return .deduplicated rule.id value

/-- The reason given for an alert that ended by itself. -/
def autoReason : String := "metric back within threshold"

/-- Resolves those of some alerts that are open, and gives them. -/
def resolveOpen (now : Instant) : List Alert → Action AlertError (List AlertId)
  | [] => pure []
  | alert :: rest =>
    if alert.status = .resolved then resolveOpen now rest
    else do
      let alert ← Action.ofExcept ((alert.resolve autoReason true now).mapError AlertError.ofDomain)
      Action.call .storage (.save .alert alert)
      let others ← resolveOpen now rest
      return alert.id :: others

/-- What follows from a metric within the threshold. -/
def onClear (evaluator : Evaluator) (rule : AlertRule) (value : Binary64) (now : Instant) :
    Action AlertError RuleOutcome := do
  if evaluator.config.autoResolve then
    let alerts ← Action.call .storage (.list .alert (some rule.id))
    return .clear rule.id value (← resolveOpen now alerts)
  else return .clear rule.id value []

/-- Stamps a rule, as it is stored now, with the time of its evaluation. -/
def stamp (id : RuleId) (now : Instant) : Action AlertError Unit := do
  match ← Action.call .storage (.get .rule id) with
  | none => pure ()
  | some rule => Action.call .storage (.save .rule { rule with lastEvaluatedAt := some now })

/-- Evaluates a rule. -/
def evaluateRule (evaluator : Evaluator) (rule : AlertRule) : Action AlertError RuleOutcome := do
  match ← (evaluator.metric rule).result with
  | .error e => return .skipped rule.id (AlertError.message e)
  | .ok value =>
    let now ← Action.request .now
    let outcome ←
      (if rule.condition.comparison.breached value rule.condition.threshold then
        onBreach rule value now
      else evaluator.onClear rule value now).result
    stamp rule.id now
    Action.ofExcept outcome

/-! ## All rules -/

/-- Evaluates a rule; an error is its outcome. -/
def outcomeOf (evaluator : Evaluator) (rule : AlertRule) : Action AlertError RuleOutcome := do
  match ← (evaluator.evaluateRule rule).result with
  | .ok outcome => return outcome
  | .error e => return .skipped rule.id (AlertError.message e)

/-- Evaluates rules one after the other. -/
def evaluateAll (evaluator : Evaluator) : List AlertRule → Action AlertError (List RuleOutcome)
  | [] => pure []
  | rule :: rest => do
    let outcome ← evaluator.outcomeOf rule
    let outcomes ← evaluator.evaluateAll rest
    return outcome :: outcomes

/-- The enabled rules in order. -/
def enabledRules : Action AlertError (List AlertRule) := do
  let rules ← Action.call .storage (.list .rule ())
  return rules.filter AlertRule.enabled

/-- Evaluates every enabled rule. -/
def tick (evaluator : Evaluator) : Action AlertError (List RuleOutcome) := do
  evaluator.evaluateAll (← enabledRules)

/-! ## Alerts by hand -/

/-- Changes a stored alert. -/
def change (id : AlertId) (step : Alert → Instant → Except DomainError Alert) :
    Action AlertError Alert := do
  match ← Action.call .storage (.get .alert id) with
  | none => .fail (.notFound "alert_instance" id.display)
  | some alert =>
    let now ← Action.request .now
    let alert ← Action.ofExcept ((step alert now).mapError AlertError.ofDomain)
    Action.call .storage (.save .alert alert)
    return alert

/-- Somebody has seen an alert. -/
def acknowledge (id : AlertId) (person : Option String) : Action AlertError Alert :=
  change id fun alert now => alert.acknowledge person now

/-- Ends an alert by hand. -/
def resolve (id : AlertId) (reason : String) : Action AlertError Alert :=
  change id fun alert now => alert.resolve reason false now

end Evaluator

end Bulletin
