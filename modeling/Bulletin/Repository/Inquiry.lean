import Bulletin.Alert.Instance
import Bulletin.Repository.Keyed
import Bulletin.Repository.Memory

/-!
# Inquiries

What may be asked of a repository: a call, or one of two things that are read off a listing. The
enabled rules are those of all rules, in their order, and the active alert of a rule is the first
one in the listing of its alerts.
-/

namespace Bulletin

inductive Inquiry where
  | call (call : Call)
  | enabledRules
  | activeAlert (rule : RuleId)

namespace Inquiry

/-- What an inquiry is answered with if it succeeds. -/
@[reducible] def Result : Inquiry → Type
  | .call c => c.Result
  | .enabledRules => List AlertRule
  | .activeAlert _ => Option Alert

/-- What an inquiry is answered with. -/
abbrev Answer (inquiry : Inquiry) : Type := Except StorageError inquiry.Result

/-- Answers an inquiry, given how a repository of any make answers calls. -/
def answerBy {ρ : Type} (answer : (call : Call) → call.Answer × ρ) :
    (inquiry : Inquiry) → inquiry.Answer × ρ
  | .call c => answer c
  | .enabledRules =>
    let (rules, r) := answer (.list .rule ())
    (rules.map fun rules => rules.filter AlertRule.enabled, r)
  | .activeAlert rule =>
    let (alerts, r) := answer (.list .alert (some rule))
    (alerts.map fun alerts => alerts.find? Alert.active, r)

end Inquiry

end Bulletin
