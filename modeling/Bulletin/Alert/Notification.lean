import Bulletin.Alert.Instance

/-!
# Notifications

A notification announces an alert. Every channel of the rule is told the same; what a channel is
handed depends on its type: a mail, or a JSON document posted to an address. Addresses of web
hooks get the notification itself, those of a chat a text and the name of the room.
-/

namespace Bulletin

/-! ## Errors -/

/-- Why a channel was not told. -/
inductive DeliveryError where
  /-- the document could not be sent -/
  | http (text : String)
  /-- the address answered with a status that is no success -/
  | status (url : String) (status : Nat)
  /-- the mail could not be sent -/
  | mail (text : String)
  /-- there is nothing to send, or nobody to send it to -/
  | undeliverable (kind reason : String)
deriving DecidableEq

def DeliveryError.message : DeliveryError → String
  | .http text => "http error: " ++ text
  | .status url code => url ++ " answered " ++ toString code
  | .mail text => "email delivery failed: " ++ text
  | .undeliverable kind reason => "channel '" ++ kind ++ "' is not deliverable: " ++ reason

/-! ## The notification -/

structure Notification where
  title : String
  message : String
  severity : Severity
  ruleId : RuleId
  ruleName : String
  alertId : AlertId
  value : Binary64
  threshold : Binary64
  triggeredAt : Instant
deriving DecidableEq

namespace Notification

/-- The notification of an alert of a rule. -/
def ofAlert (rule : AlertRule) (alert : Alert) : Notification :=
  { title := "[" ++ alert.severity.name ++ "] " ++ rule.name
    message := alert.message
    severity := alert.severity
    ruleId := rule.id
    ruleName := rule.name
    alertId := alert.id
    value := alert.triggeredValue
    threshold := alert.threshold
    triggeredAt := alert.triggeredAt }

def toJson (n : Notification) : Json :=
  .object [("title", .string n.title), ("message", .string n.message),
    ("severity", n.severity.toJson), ("rule_id", n.ruleId.toJson),
    ("rule_name", .string n.ruleName), ("instance_id", n.alertId.toJson),
    ("triggered_value", .real n.value), ("threshold_value", .real n.threshold),
    ("triggered_at", n.triggeredAt.toJson)]

end Notification

/-! ## What a channel is handed -/

structure Mail where
  recipients : List String
  subject : String
  body : String
deriving DecidableEq

def Mail.toJson (mail : Mail) : Json :=
  .object [("to", .array (mail.recipients.map .string)), ("subject", .string mail.subject),
    ("body", .string mail.body)]

/-- The mail of a notification. -/
def Mail.ofNotification (recipients : List String) (n : Notification) : Mail :=
  { recipients
    subject := n.title
    body := n.message ++ "\n\nValue: " ++ n.value.text .message ++ "\nThreshold: "
      ++ n.threshold.text .message ++ "\nTriggered at: " ++ n.triggeredAt.messageText ++ "\n" }

/-- The document of a notification for a chat. -/
def chatDocument (channel : Option String) (n : Notification) : Json :=
  .object (("text", .string ("*" ++ n.title ++ "*\n" ++ n.message)) ::
    optionalMember "channel" .string channel)

/-- One thing to deliver. -/
inductive Delivery where
  | mail (mail : Mail)
  | post (url : String) (headers : Fields String) (body : Json)
deriving DecidableEq

/-- What a channel is handed for a notification. -/
def Delivery.prepare (channel : Channel) (n : Notification) : Except DeliveryError Delivery :=
  match channel with
  | .email recipients =>
    if recipients.isEmpty then .error (.undeliverable channel.kind "no recipients")
    else .ok (.mail (Mail.ofNotification recipients n))
  | .webhook url headers => .ok (.post url headers n.toJson)
  | .slack url room => .ok (.post url ∅ (chatDocument room n))
  | .unsupported => .error (.undeliverable channel.kind "unsupported channel type")

/-! ## The result of telling all channels -/

/-- How many channels were told and how many were not. -/
structure DispatchReport where
  sent : Nat
  failed : Nat
deriving DecidableEq

namespace DispatchReport

/-- Counts what became of each delivery. -/
def ofResults (results : List (Except DeliveryError Unit)) : DispatchReport :=
  let sent := results.countP fun result => result.toOption.isSome
  ⟨sent, results.length - sent⟩

def toJson (report : DispatchReport) : Json :=
  .object [("sent", .nat report.sent), ("failed", .nat report.failed)]

end DispatchReport

end Bulletin
