import Bulletin.Repository.Entity

/-!
# One table for each kind

`Tables F` holds a table of type `F kind` for each of the six kinds of entities. Writing a table
leaves the other five as they are.
-/

namespace Bulletin

structure Tables (F : EntityKind → Type) where
  reports : F .report
  executions : F .execution
  dashboards : F .dashboard
  widgets : F .widget
  rules : F .rule
  alerts : F .alert

namespace Tables

variable {F : EntityKind → Type}

/-- The same table for every kind. -/
def all (table : (kind : EntityKind) → F kind) : Tables F :=
  ⟨table .report, table .execution, table .dashboard, table .widget, table .rule, table .alert⟩

def get (tables : Tables F) : (kind : EntityKind) → F kind
  | .report => tables.reports
  | .execution => tables.executions
  | .dashboard => tables.dashboards
  | .widget => tables.widgets
  | .rule => tables.rules
  | .alert => tables.alerts

def set (tables : Tables F) : (kind : EntityKind) → F kind → Tables F
  | .report, table => { tables with reports := table }
  | .execution, table => { tables with executions := table }
  | .dashboard, table => { tables with dashboards := table }
  | .widget, table => { tables with widgets := table }
  | .rule, table => { tables with rules := table }
  | .alert, table => { tables with alerts := table }

@[simp] theorem get_all (table : (kind : EntityKind) → F kind) (kind : EntityKind) :
    (all table).get kind = table kind := by
  cases kind <;> rfl

@[simp] theorem get_set_self (tables : Tables F) (kind : EntityKind) (table : F kind) :
    (tables.set kind table).get kind = table := by
  cases kind <;> rfl

theorem get_set_of_ne (tables : Tables F) {kind other : EntityKind} (h : other ≠ kind)
    (table : F kind) : (tables.set kind table).get other = tables.get other := by
  cases kind <;> cases other <;> first | rfl | exact absurd rfl h

end Tables

end Bulletin
