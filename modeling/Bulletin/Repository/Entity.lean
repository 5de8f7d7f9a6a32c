import Bulletin.Report.Definition
import Bulletin.Report.Execution
import Bulletin.Dashboard.Definition
import Bulletin.Alert.Instance

/-!
# Stored entities

What the repository keeps of each kind, and what it has to know of it: its identifier, its JSON
form, and the listings. A listing takes the entities in a scope and sorts them.

| kind | scope | order |
|---|---|---|
| reports, dashboards, rules | all | name |
| executions | one report | newest first |
| widgets | one dashboard | row, column |
| alerts | one rule or all | time of the breach |

Two entities at one place of the order are told apart by their identifiers, so a listing does not
depend on the order in which the entities are kept.
-/

namespace Bulletin.EntityKind

/-- The word for a kind. -/
def noun : EntityKind → String
  | .report => "report"
  | .execution => "execution"
  | .dashboard => "dashboard"
  | .widget => "widget"
  | .rule => "alert_rule"
  | .alert => "alert_instance"

/-- What is stored of a kind. -/
@[reducible] def Entity : EntityKind → Type
  | .report => Report
  | .execution => Execution
  | .dashboard => Dashboard
  | .widget => Widget
  | .rule => AlertRule
  | .alert => Alert

/-- What a listing of a kind is about. -/
@[reducible] def Scope : EntityKind → Type
  | .report | .dashboard | .rule => Unit
  | .execution => ReportId
  | .widget => DashboardId
  | .alert => Option RuleId

instance (kind : EntityKind) : DecidableEq kind.Entity := by
  cases kind <;> exact inferInstance

def id : (kind : EntityKind) → kind.Entity → Id kind
  | .report => Report.id
  | .execution => Execution.id
  | .dashboard => Dashboard.id
  | .widget => Widget.id
  | .rule => AlertRule.id
  | .alert => Alert.id

def toJson : (kind : EntityKind) → kind.Entity → Json
  | .report => Report.toJson
  | .execution => Execution.toJson
  | .dashboard => Dashboard.toJson
  | .widget => Widget.toJson
  | .rule => AlertRule.toJson
  | .alert => Alert.toJson

/-- Reads an entity; one that may lack its identifier gets the fresh one. -/
def ofDraft? (fresh : Uuid) : (kind : EntityKind) → Draft → Option kind.Entity
  | .report => Report.ofDraft? fresh
  | .execution => Execution.ofDraft?
  | .dashboard => Dashboard.ofDraft? fresh
  | .widget => Widget.ofDraft? fresh
  | .rule => AlertRule.ofDraft? fresh
  | .alert => Alert.ofDraft?

/-! ## Listings -/

def inScope : (kind : EntityKind) → kind.Scope → kind.Entity → Bool
  | .report, _, _ => true
  | .execution, owner, entity => entity.reportId = owner
  | .dashboard, _, _ => true
  | .widget, owner, entity => entity.dashboardId = owner
  | .rule, _, _ => true
  | .alert, owner, entity => owner.all fun owner => entity.ruleId = owner

/-- The place of entities in a listing. -/
def order : (kind : EntityKind) → kind.Entity → kind.Entity → Ordering
  | .report, a, b => (compare a.name b.name).then (a.id.order b.id)
  | .execution, a, b => (b.createdAt.order a.createdAt).then (b.id.order a.id)
  | .dashboard, a, b => (compare a.name b.name).then (a.id.order b.id)
  | .widget, a, b =>
    ((compare a.position.y b.position.y).then (compare a.position.x b.position.x)).then
      (a.id.order b.id)
  | .rule, a, b => (compare a.name b.name).then (a.id.order b.id)
  | .alert, a, b => (a.triggeredAt.order b.triggeredAt).then (a.id.order b.id)

/-- The entities of a scope in the order of their listing. -/
def listing (kind : EntityKind) (scope : kind.Scope) (entities : List kind.Entity) :
    List kind.Entity :=
  (entities.filter (kind.inScope scope)).mergeSort fun a b => kind.order a b != .gt

end Bulletin.EntityKind
