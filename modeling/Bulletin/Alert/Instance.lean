import Bulletin.Alert.Rule

/-!
# Alerts

An alert is one breach of a rule. It is active at first, may be acknowledged, and is resolved in
the end. At most one alert of a rule is active at a time; the repository sees to that.
-/

namespace Bulletin

/-! ## States -/

inductive AlertStatus where
  | active
  | acknowledged
  | resolved
deriving DecidableEq

namespace AlertStatus

def name : AlertStatus → String
  | .active => "active"
  | .acknowledged => "acknowledged"
  | .resolved => "resolved"

def ofName? : String → Option AlertStatus
  | "active" => some .active
  | "acknowledged" => some .acknowledged
  | "resolved" => some .resolved
  | _ => none

def toJson (status : AlertStatus) : Json := .string status.name

def ofDraft? (v : Draft) : Option AlertStatus := v.variant?.bind ofName?

end AlertStatus

/-! ## Records -/

structure Alert where
  id : AlertId
  ruleId : RuleId
  status : AlertStatus
  severity : Severity
  triggeredValue : Binary64
  threshold : Binary64
  message : String
  triggeredAt : Instant
  acknowledgedAt : Option Instant
  acknowledgedBy : Option String
  resolvedAt : Option Instant
  resolutionReason : Option String
  autoResolved : Bool
deriving DecidableEq

namespace Alert

def toJson (a : Alert) : Json :=
  .object [("id", a.id.toJson), ("rule_id", a.ruleId.toJson), ("status", a.status.toJson),
    ("severity", a.severity.toJson), ("triggered_value", .real a.triggeredValue),
    ("threshold_value", .real a.threshold), ("message", .string a.message),
    ("triggered_at", a.triggeredAt.toJson),
    ("acknowledged_at", Json.ofOption Instant.toJson a.acknowledgedAt),
    ("acknowledged_by", Json.ofOption .string a.acknowledgedBy),
    ("resolved_at", Json.ofOption Instant.toJson a.resolvedAt),
    ("resolution_reason", Json.ofOption .string a.resolutionReason),
    ("auto_resolved", .bool a.autoResolved)]

def ofDraft? (v : Draft) : Option Alert := do
  match ← v.slots? [["id"], ["rule_id"], ["status"], ["severity"], ["triggered_value"],
    ["threshold_value"], ["message"], ["triggered_at"], ["acknowledged_at"], ["acknowledged_by"],
    ["resolved_at"], ["resolution_reason"], ["auto_resolved"]] with
  | [id, ruleId, status, severity, value, threshold, message, triggered, acknowledged, by_,
      resolved, reason, auto] =>
    return {
      id := ← id.required Id.ofDraft?
      ruleId := ← ruleId.required Id.ofDraft?
      status := ← status.required AlertStatus.ofDraft?
      severity := ← severity.required Severity.ofDraft?
      triggeredValue := ← value.required Draft.readReal?
      threshold := ← threshold.required Draft.readReal?
      message := ← message.required Draft.readString?
      triggeredAt := ← triggered.required Instant.ofDraft?
      acknowledgedAt := ← acknowledged.orNone Instant.ofDraft?
      acknowledgedBy := ← by_.orNone Draft.readString?
      resolvedAt := ← resolved.orNone Instant.ofDraft?
      resolutionReason := ← reason.orNone Draft.readString?
      autoResolved := ← auto.orElse false Draft.readBool? }
  | _ => none

/-- The sentence that tells of a breach. -/
def breachMessage (rule : AlertRule) (value : Binary64) : String :=
  "Alert '" ++ rule.name ++ "': value " ++ value.text .message ++ " "
    ++ rule.condition.comparison.symbol ++ " threshold " ++ rule.condition.threshold.text .message

/-- The alert of a breach. -/
def triggered (id : AlertId) (rule : AlertRule) (value : Binary64) (now : Instant) : Alert :=
  { id, ruleId := rule.id, status := .active, severity := rule.severity, triggeredValue := value,
    threshold := rule.condition.threshold, message := breachMessage rule value,
    triggeredAt := now, acknowledgedAt := none, acknowledgedBy := none, resolvedAt := none,
    resolutionReason := none, autoResolved := false }

/-- Whether the alert keeps its rule from raising another one. -/
def active (a : Alert) : Bool := a.status == .active

/-! ## Steps -/

/-- Somebody has seen an active alert. -/
def acknowledge (a : Alert) (person : Option String) (now : Instant) : Except DomainError Alert :=
  if a.status = .active then
    .ok { a with status := .acknowledged, acknowledgedAt := some now, acknowledgedBy := person }
  else
    .error (.validation "status" ("cannot acknowledge " ++ a.status.name ++ " alert " ++ a.id.display))

/-- An alert that is not resolved comes to its end. -/
def resolve (a : Alert) (reason : String) (auto : Bool) (now : Instant) :
    Except DomainError Alert :=
  if a.status = .resolved then
    .error (.validation "status" ("alert " ++ a.id.display ++ " is already resolved"))
  else
    .ok { a with
      status := .resolved
      resolvedAt := some now
      resolutionReason := some reason
      autoResolved := auto }

end Alert

end Bulletin
