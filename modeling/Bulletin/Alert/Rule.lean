import Bulletin.Ident
import Bulletin.Source
import Bulletin.Cache
import Bulletin.Record
import Bulletin.Chart.Spec

/-!
# Alert rules

A rule reads one number from a source and compares it with a threshold. If the comparison holds,
the rule is breached. It also says how grave a breach is, who is told of it, and when the rule
was last evaluated.
-/

namespace Bulletin

/-! ## Comparisons -/

/-- The comparison of a metric with a threshold. -/
inductive Comparison where
  | greaterThan
  | lessThan
  | greaterOrEqual
  | lessOrEqual
  | equal
  | notEqual
deriving DecidableEq

namespace Comparison

def symbol : Comparison → String
  | .greaterThan => ">"
  | .lessThan => "<"
  | .greaterOrEqual => ">="
  | .lessOrEqual => "<="
  | .equal => "=="
  | .notEqual => "!="

/-- The symbols and words of stored rules. -/
def ofName? : String → Option Comparison
  | ">" | "gt" => some .greaterThan
  | "<" | "lt" => some .lessThan
  | ">=" | "gte" => some .greaterOrEqual
  | "<=" | "lte" => some .lessOrEqual
  | "==" | "eq" => some .equal
  | "!=" | "ne" => some .notEqual
  | _ => none

/-- Reads a comparison as a user may write it: with blanks around it and with two more
spellings. -/
def ofText (text : String) : Except DomainError Comparison :=
  let word := String.ofList (Text.trim text.toList)
  match word with
  | "=" => .ok .equal
  | "<>" => .ok .notEqual
  | _ =>
    match ofName? word with
    | some c => .ok c
    | none =>
      .error (.validation "condition.comparison_operator" ("unknown operator '" ++ word ++ "'"))

def toJson (c : Comparison) : Json := .string c.symbol

def ofDraft? (v : Draft) : Option Comparison := v.variant?.bind ofName?

/-- Whether a metric breaches a threshold. A value that is not a number differs from everything
and is neither more nor less. -/
def breached (c : Comparison) (metric threshold : Binary64) : Bool :=
  match c with
  | .greaterThan => metric.greaterThan threshold
  | .lessThan => metric.lessThan threshold
  | .greaterOrEqual => metric.greaterThan threshold || metric.numEq threshold
  | .lessOrEqual => metric.lessThan threshold || metric.numEq threshold
  | .equal => metric.numEq threshold
  | .notEqual => !metric.numEq threshold

end Comparison

/-- A threshold and the comparison with it. -/
structure Condition where
  threshold : Binary64
  comparison : Comparison
deriving DecidableEq

namespace Condition

def toJson (c : Condition) : Json :=
  .object [("threshold_value", .real c.threshold), ("comparison_operator", c.comparison.toJson)]

def ofDraft? (v : Draft) : Option Condition := do
  match ← v.slots? [["threshold_value"], ["comparison_operator"]] with
  | [threshold, comparison] =>
    return {
      threshold := ← threshold.required Draft.readReal?
      comparison := ← comparison.required Comparison.ofDraft? }
  | _ => none

end Condition

/-! ## Severity -/

inductive Severity where
  | info
  | warning
  | critical
deriving DecidableEq

namespace Severity

def name : Severity → String
  | .info => "info"
  | .warning => "warning"
  | .critical => "critical"

def ofName? : String → Option Severity
  | "info" | "low" => some .info
  | "warning" | "medium" => some .warning
  | "critical" | "high" => some .critical
  | _ => none

def toJson (severity : Severity) : Json := .string severity.name

def ofDraft? (v : Draft) : Option Severity := v.variant?.bind ofName?

end Severity

/-! ## Channels -/

/-- Where a notification goes. -/
inductive Channel where
  | email (recipients : List String)
  | webhook (url : String) (headers : Fields String)
  | slack (url : String) (channel : Option String)
  /-- a channel of a type that is not known; nothing is ever delivered there -/
  | unsupported
deriving DecidableEq

namespace Channel

def kind : Channel → String
  | .email _ => "email"
  | .webhook .. => "webhook"
  | .slack .. => "slack"
  | .unsupported => "unsupported"

def toJson (channel : Channel) : Json :=
  .object (("type", .string channel.kind) ::
    match channel with
    | .email recipients => [("recipients", .array (recipients.map .string))]
    | .webhook url headers =>
      [("url", .string url), ("headers", Json.ofFields (headers.map .string))]
    | .slack url channel =>
      ("webhook_url", .string url) :: optionalMember "channel" .string channel
    | .unsupported => [])

def ofDraft? (v : Draft) : Option Channel := do
  let (tag, content) ← v.tagged? "type"
  match tag with
  | "email" =>
    match ← content.slots? [["recipients"]] with
    | [recipients] => return .email (← recipients.required (Draft.readList? Draft.readString?))
    | _ => none
  | "webhook" =>
    match ← content.slots? [["url"], ["headers"]] with
    | [url, headers] =>
      return .webhook (← url.required Draft.readString?)
        (← headers.orElse ∅ (Draft.readFields? Draft.readString?))
    | _ => none
  | "slack" =>
    match ← content.slots? [["webhook_url"], ["channel"]] with
    | [url, channel] =>
      return .slack (← url.required Draft.readString?) (← channel.orNone Draft.readString?)
    | _ => none
  | _ => if content.contentless then some .unsupported else none

end Channel

/-! ## Rules -/

structure AlertRule where
  id : RuleId
  name : String
  source : Source
  query : Option String
  parameters : Fields Json
  metricField : Option String
  condition : Condition
  severity : Severity
  intervalMinutes : UInt32
  enabled : Bool
  lastEvaluatedAt : Option Instant
  channels : List Channel
deriving DecidableEq

namespace AlertRule

/-- An enabled rule that tells nobody. -/
def new (id : RuleId) (name : String) (source : Source) (condition : Condition) : AlertRule :=
  { id, name, source, query := none, parameters := ∅, metricField := none, condition,
    severity := .warning, intervalMinutes := 5, enabled := true, lastEvaluatedAt := none,
    channels := [] }

def toJson (rule : AlertRule) : Json :=
  .object ([("id", rule.id.toJson), ("name", .string rule.name),
      ("data_source", rule.source.toJson)]
    ++ optionalMember "query" .string rule.query
    ++ [("parameters", Json.ofFields rule.parameters)]
    ++ optionalMember "metric_field" .string rule.metricField
    ++ [("condition", rule.condition.toJson), ("severity", rule.severity.toJson),
      ("evaluation_interval_minutes", .nat rule.intervalMinutes.toNat),
      ("enabled", .bool rule.enabled),
      ("last_evaluated_at", Json.ofOption Instant.toJson rule.lastEvaluatedAt),
      ("notification_config", .array (rule.channels.map Channel.toJson))])

/-- Reads a rule; one without an identifier gets the fresh one. -/
def ofDraft? (fresh : Uuid) (v : Draft) : Option AlertRule := do
  match ← v.slots? [["id"], ["name"], ["data_source"], ["query"], ["parameters"], ["metric_field"],
    ["condition"], ["severity"], ["evaluation_interval_minutes"], ["enabled"],
    ["last_evaluated_at"], ["notification_config"]] with
  | [id, name, source, query, parameters, field, condition, severity, interval, enabled, last,
      channels] =>
    return {
      id := ← id.orElse ⟨fresh⟩ Id.ofDraft?
      name := ← name.required Draft.readString?
      source := ← source.required Source.ofDraft?
      query := ← query.orNone Draft.readString?
      parameters := ← parameters.orElse ∅ (Draft.readFields? Draft.readAny?)
      metricField := ← field.orNone Draft.readString?
      condition := ← condition.required Condition.ofDraft?
      severity := ← severity.orElse .warning Severity.ofDraft?
      intervalMinutes := ← interval.orElse 5 Draft.readWord32?
      enabled := ← enabled.orElse true Draft.readBool?
      lastEvaluatedAt := ← last.orNone Instant.ofDraft?
      channels := ← channels.orElse [] (Draft.readList? Channel.ofDraft?) }
  | _ => none

/-- Checks the name, the source, the threshold and the interval. -/
def validate (rule : AlertRule) : Except DomainError Unit :=
  if Text.blank rule.name then .error (.validation "name" "must not be empty")
  else do
    rule.source.validate rule.query
    if !rule.condition.threshold.isFinite then
      .error (.validation "condition.threshold_value" "must be a finite number")
    else if rule.intervalMinutes = 0 then
      .error (.validation "evaluation_interval_minutes" "must be greater than zero")

/-! ## The metric -/

/-- The finite number of a value, if it has one. -/
def finiteNumber? (v : Json) : Option Binary64 := v.coerced?.filter Binary64.isFinite

/-- The metric of a result: a field of the first row, or the first value of the first row that is
a finite number. -/
def metric? (rows : List Record) (field : Option String) : Option Binary64 :=
  match rows with
  | [] => none
  | row :: _ =>
    match field with
    | some field => (row.get? field).bind finiteNumber?
    | none => row.values.findSome? finiteNumber?

end AlertRule

end Bulletin
