import Bulletin.Chart.Spec

/-!
# Charts

A chart is what a specification and rows give: the rows behind it and, by type, the fields and
values to show. `build` names a field that no option names after a column of the rows: the first
column, the second, or the third, each falling back on the one before.

A cap bounds the rows that a chart carries. The columns and the value of the first row are those
of all rows.
-/

namespace Bulletin

/-! ## Layouts -/

/-- What a chart shows, by kind of chart. -/
inductive ChartLayout where
  | axis (x y series : Option String)
  | pie (label value : Option String)
  | table (columns : List String)
  | metric (field : Option String) (value : Json) (format : Option String)
  | gauge (field : Option String) (value : Json) (min max : Binary64)
  | heatmap (x y value : Option String)
  | raw (options : Fields Json)
deriving DecidableEq

namespace ChartLayout

def tag : ChartLayout → String
  | .axis .. => "axis"
  | .pie .. => "pie"
  | .table .. => "table"
  | .metric .. => "metric"
  | .gauge .. => "gauge"
  | .heatmap .. => "heatmap"
  | .raw .. => "raw"

/-- The name of a field, or `null`. -/
def fieldJson (field : Option String) : Json := Json.ofOption .string field

def toJson (layout : ChartLayout) : Json :=
  .object (("layout", .string layout.tag) ::
    match layout with
    | .axis x y series =>
      [("x_field", fieldJson x), ("y_field", fieldJson y)]
        ++ optionalMember "series_field" .string series
    | .pie label value => [("label_field", fieldJson label), ("value_field", fieldJson value)]
    | .table columns => [("columns", .array (columns.map .string))]
    | .metric field value format =>
      [("value_field", fieldJson field), ("value", value)]
        ++ optionalMember "format" .string format
    | .gauge field value min max =>
      [("value_field", fieldJson field), ("value", value), ("min", .real min), ("max", .real max)]
    | .heatmap x y value =>
      [("x_field", fieldJson x), ("y_field", fieldJson y), ("value_field", fieldJson value)]
    | .raw options => [("options", Json.ofFields options)])

/-- Reads the fields that belong to a layout. -/
def readContent? (tag : String) (v : Draft) : Option ChartLayout := do
  let field (slot : Draft.Slot) : Option (Option String) := slot.optional Draft.readString?
  match tag with
  | "axis" =>
    match ← v.slots? [["x_field"], ["y_field"], ["series_field"]] with
    | [x, y, series] => return .axis (← field x) (← field y) (← series.orNone Draft.readString?)
    | _ => none
  | "pie" =>
    match ← v.slots? [["label_field"], ["value_field"]] with
    | [label, value] => return .pie (← field label) (← field value)
    | _ => none
  | "table" =>
    match ← v.slots? [["columns"]] with
    | [columns] => return .table (← columns.required (Draft.readList? Draft.readString?))
    | _ => none
  | "metric" =>
    match ← v.slots? [["value_field"], ["value"], ["format"]] with
    | [name, value, format] =>
      return .metric (← field name) (← value.required Draft.readAny?)
        (← format.orNone Draft.readString?)
    | _ => none
  | "gauge" =>
    match ← v.slots? [["value_field"], ["value"], ["min"], ["max"]] with
    | [name, value, min, max] =>
      return .gauge (← field name) (← value.required Draft.readAny?)
        (← min.required Draft.readReal?) (← max.required Draft.readReal?)
    | _ => none
  | "heatmap" =>
    match ← v.slots? [["x_field"], ["y_field"], ["value_field"]] with
    | [x, y, value] => return .heatmap (← field x) (← field y) (← field value)
    | _ => none
  | "raw" =>
    match ← v.slots? [["options"]] with
    | [options] => return .raw (← options.required (Draft.readFields? Draft.readAny?))
    | _ => none
  | _ => none

def ofDraft? (v : Draft) : Option ChartLayout := do
  let (tag, content) ← v.tagged? "layout"
  readContent? tag content

end ChartLayout

/-! ## Charts -/

/-- A chart with the rows behind it. -/
structure Chart where
  type : ChartType
  title : String
  rows : List Record
  layout : ChartLayout
deriving DecidableEq

namespace Chart

def toJson (chart : Chart) : Json :=
  .object [("type", chart.type.toJson), ("title", .string chart.title),
    ("data", rowsJson chart.rows), ("config", chart.layout.toJson)]

def ofDraft? (v : Draft) : Option Chart := do
  match ← v.slots? [["type"], ["title"], ["data"], ["config"]] with
  | [type, title, rows, layout] =>
    return {
      type := ← type.required ChartType.ofDraft?
      title := ← title.required Draft.readString?
      rows := ← rows.required (Draft.readList? (Draft.readFields? Draft.readAny?))
      layout := ← layout.required ChartLayout.ofDraft? }
  | _ => none

/-- The value of a field in the first row, `null` for want of a field, a row or a value. -/
def firstValue (rows : List Record) (field : Option String) : Json :=
  match field, rows with
  | some field, row :: _ => row.value field
  | _, _ => .null

/-- The layout that a specification and the rows give. -/
def layoutOf (rows : List Record) (spec : ChartSpec) : ChartLayout :=
  let names := columns rows
  let first := names[0]?
  let second := names[1]?.or first
  let third := names[2]?.or second
  let pick (keys : List String) (fallback : Option String) := (spec.text? keys).or fallback
  match spec.type with
  | .bar | .line | .scatter =>
    .axis (pick ["x_field", "x_axis"] first) (pick ["y_field", "y_axis"] second)
      (spec.text? ["series_field", "series"])
  | .pie => .pie (pick ["label_field", "label"] first) (pick ["value_field", "value"] second)
  | .table =>
    match spec.options.get? "columns" with
    | some (.array items) => .table (items.filterMap Json.string?)
    | _ => .table names
  | .metric =>
    let field := pick ["value_field", "value"] first
    .metric field (firstValue rows field) (spec.text? ["format"])
  | .gauge =>
    let field := pick ["value_field", "value"] first
    .gauge field (firstValue rows field) ((spec.number? "min").getD (Binary64.ofInt 0))
      ((spec.number? "max").getD (Binary64.ofInt 100))
  | .heatmap =>
    .heatmap (pick ["x_field", "x_axis"] first) (pick ["y_field", "y_axis"] second)
      (pick ["value_field", "value"] third)
  | .unknown _ => .raw spec.options

/-- The first rows up to a cap. -/
def capped (cap : Option Nat) (rows : List Record) : List Record :=
  match cap with
  | none => rows
  | some n => rows.take n

/-- Builds one chart. -/
def build (cap : Option Nat) (rows : List Record) (spec : ChartSpec) : Chart :=
  { type := spec.type
    title := spec.displayTitle
    rows := capped cap rows
    layout := layoutOf rows spec }

/-- Builds all charts by name. Of two specifications with one name the later counts. -/
def buildAll (cap : Option Nat) (rows : List Record) (specs : List ChartSpec) : Fields Chart :=
  Fields.ofList (specs.map fun spec => (spec.name, build cap rows spec))

end Chart

end Bulletin
