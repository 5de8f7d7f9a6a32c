import Bulletin.Report.Definition

/-!
# Dashboards and widgets

A dashboard lists widgets. A widget belongs to one dashboard; it has one source, one chart and a
cache of its own.
-/

namespace Bulletin

/-! ## Dashboards -/

structure Dashboard where
  id : DashboardId
  name : String
  widgetIds : List WidgetId
deriving DecidableEq

namespace Dashboard

def new (id : DashboardId) (name : String) : Dashboard := ⟨id, name, []⟩

def toJson (dashboard : Dashboard) : Json :=
  .object [("id", dashboard.id.toJson), ("name", .string dashboard.name),
    ("widget_ids", .array (dashboard.widgetIds.map Id.toJson))]

/-- Reads a dashboard; one without an identifier gets the fresh one. -/
def ofDraft? (fresh : Uuid) (v : Draft) : Option Dashboard := do
  match ← v.slots? [["id"], ["name"], ["widget_ids"]] with
  | [id, name, widgets] =>
    return {
      id := ← id.orElse ⟨fresh⟩ Id.ofDraft?
      name := ← name.required Draft.readString?
      widgetIds := ← widgets.orElse [] (Draft.readList? Id.ofDraft?) }
  | _ => none

end Dashboard

/-! ## Widgets -/

/-- The place of a widget on the grid. -/
structure WidgetPosition where
  x : UInt32
  y : UInt32
  width : UInt32
  height : UInt32
deriving DecidableEq

namespace WidgetPosition

def zero : WidgetPosition := ⟨0, 0, 0, 0⟩

def toJson (position : WidgetPosition) : Json :=
  .object [("x", .nat position.x.toNat), ("y", .nat position.y.toNat),
    ("width", .nat position.width.toNat), ("height", .nat position.height.toNat)]

def ofDraft? (v : Draft) : Option WidgetPosition := do
  match ← v.slots? [["x"], ["y"], ["width"], ["height"]] with
  | [x, y, width, height] =>
    return {
      x := ← x.required Draft.readWord32?
      y := ← y.required Draft.readWord32?
      width := ← width.required Draft.readWord32?
      height := ← height.required Draft.readWord32? }
  | _ => none

end WidgetPosition

structure Widget where
  id : WidgetId
  dashboardId : DashboardId
  title : String
  position : WidgetPosition
  source : Source
  query : QueryConfig
  chart : ChartSpec
  cache : Cache
deriving DecidableEq

namespace Widget

def new (id : WidgetId) (dashboardId : DashboardId) (title : String) (source : Source)
    (chart : ChartSpec) : Widget :=
  { id, dashboardId, title, position := .zero, source, query := .empty, chart, cache := .new }

def toJson (widget : Widget) : Json :=
  .object [("id", widget.id.toJson), ("dashboard_id", widget.dashboardId.toJson),
    ("title", .string widget.title), ("position", widget.position.toJson),
    ("data_source", widget.source.toJson), ("query_config", widget.query.toJson),
    ("chart", widget.chart.toJson), ("cache", widget.cache.toJson)]

/-- Reads a widget; one without an identifier gets the fresh one. -/
def ofDraft? (fresh : Uuid) (v : Draft) : Option Widget := do
  match ← v.slots? [["id"], ["dashboard_id"], ["title"], ["position"], ["data_source"],
    ["query_config"], ["chart"], ["cache"]] with
  | [id, dashboardId, title, position, source, query, chart, cache] =>
    return {
      id := ← id.orElse ⟨fresh⟩ Id.ofDraft?
      dashboardId := ← dashboardId.required Id.ofDraft?
      title := ← title.required Draft.readString?
      position := ← position.orElse .zero WidgetPosition.ofDraft?
      source := ← source.required Source.ofDraft?
      query := ← query.orElse .empty QueryConfig.ofDraft?
      chart := ← chart.required ChartSpec.ofDraft?
      cache := ← cache.orElse .new Cache.ofDraft? }
  | _ => none

/-- Checks the title and the source. -/
def validate (widget : Widget) : Except DomainError Unit :=
  if Text.blank widget.title then .error (.validation "title" "must not be empty")
  else widget.source.validate widget.query.query

end Widget

end Bulletin
