import Bulletin.Dashboard.Definition
import Bulletin.Engine.Run

/-!
# Loading dashboards

A widget is refreshed like a report up to its chart, with a cache of its own: a fresh cache is
shown, otherwise the chart is built anew and written to the cache of the widget as it is stored by
then.

A dashboard shows the widgets that it lists, in their order, and then its other widgets. A widget
that cannot be refreshed shows its error in its place.
-/

namespace Bulletin

/-! ## Views -/

/-- A widget as it is shown. -/
structure WidgetView where
  widgetId : WidgetId
  title : String
  position : WidgetPosition
  chart : Option Json
  fromCache : Bool
  error : Option String
deriving DecidableEq

namespace WidgetView

def toJson (view : WidgetView) : Json :=
  .object [("widget_id", view.widgetId.toJson), ("title", .string view.title),
    ("position", view.position.toJson), ("chart", Json.ofOption (fun v => v) view.chart),
    ("from_cache", .bool view.fromCache), ("error", Json.ofOption .string view.error)]

/-- A widget with its chart. -/
def shown (widget : Widget) (chart : Json) (fromCache : Bool) : WidgetView :=
  { widgetId := widget.id, title := widget.title, position := widget.position,
    chart := some chart, fromCache, error := none }

/-- A widget that could not be refreshed. -/
def failed (id : WidgetId) (title : String) (position : WidgetPosition) (e : EngineError) :
    WidgetView :=
  { widgetId := id, title, position, chart := none, fromCache := false, error := some e.message }

end WidgetView

/-- A dashboard as it is shown. -/
structure DashboardView where
  dashboardId : DashboardId
  name : String
  widgets : List WidgetView
  loadedAt : Instant
deriving DecidableEq

namespace DashboardView

def toJson (view : DashboardView) : Json :=
  .object [("dashboard_id", view.dashboardId.toJson), ("name", .string view.name),
    ("widgets", .array (view.widgets.map WidgetView.toJson)), ("loaded_at", view.loadedAt.toJson)]

/-- How many widgets show an error. -/
def failedCount (view : DashboardView) : Nat := view.widgets.countP fun w => w.error.isSome

end DashboardView

/-! ## Slots -/

/-- Takes the first widget with an identifier out of a list. -/
def takeWidget (id : WidgetId) (stored : List Widget) : Option Widget × List Widget :=
  (stored.find? fun w => w.id = id, stored.eraseP fun w => w.id = id)

/-- The places of a dashboard: the listed identifiers, each with its widget if one is left for it,
and then the widgets that are left over. -/
def widgetSlots : List WidgetId → List Widget → List (WidgetId × Option Widget)
  | [], stored => stored.map fun w => (w.id, some w)
  | id :: rest, stored =>
    let (widget, others) := takeWidget id stored
    (id, widget) :: widgetSlots rest others

namespace Engine

/-! ## Widgets -/

/-- Builds the chart of a widget. -/
def widgetChart (engine : Engine) (widget : Widget) : Action EngineError Json := do
  let rows ←
    (Query.execute engine.connectors widget.source widget.query.input).mapError EngineError.query
  let rows := TransformStep.applyAll rows widget.query.transformations
  return (Chart.build engine.config.chartCap rows widget.chart).toJson

/-- Shows a widget, refreshed if its cache is not fresh. -/
def refreshWidget (engine : Engine) (id : WidgetId) : Action EngineError WidgetView := do
  match ← Action.call .storage (.get .widget id) with
  | none => .fail (.notFound "widget" id.display)
  | some widget =>
    Action.ofExcept (widget.validate.mapError EngineError.ofDomain)
    let now ← Action.request .now
    match ← Action.inCalendar (widget.cache.fresh now) with
    | some chart => return .shown widget chart true
    | none =>
      let chart ← engine.widgetChart widget
      let latest := (← Action.call .storage (.get .widget id)).getD widget
      let now ← Action.request .now
      let latest := { latest with cache := latest.cache.store chart now }
      Action.call .storage (.save .widget latest)
      return .shown latest chart false

/-! ## Dashboards -/

/-- Shows what stands in one place of a dashboard. -/
def loadSlot (engine : Engine) (slot : WidgetId × Option Widget) :
    Action EngineError WidgetView :=
  match slot with
  | (id, none) => return .failed id "" .zero (.notFound "widget" id.display)
  | (id, some widget) => do
    match ← (engine.refreshWidget id).result with
    | .ok view => return view
    | .error e => return .failed id widget.title widget.position e

/-- Shows all places of a dashboard. -/
def loadSlots (engine : Engine) :
    List (WidgetId × Option Widget) → Action EngineError (List WidgetView)
  | [] => pure []
  | slot :: rest => do
    let view ← engine.loadSlot slot
    let views ← engine.loadSlots rest
    return view :: views

/-- Shows a dashboard. -/
def loadDashboard (engine : Engine) (id : DashboardId) : Action EngineError DashboardView := do
  match ← Action.call .storage (.get .dashboard id) with
  | none => .fail (.notFound "dashboard" id.display)
  | some dashboard =>
    let stored ← Action.call .storage (.list .widget id)
    let widgets ← engine.loadSlots (widgetSlots dashboard.widgetIds stored)
    let now ← Action.request .now
    return { dashboardId := dashboard.id, name := dashboard.name, widgets, loadedAt := now }

end Engine

end Bulletin
