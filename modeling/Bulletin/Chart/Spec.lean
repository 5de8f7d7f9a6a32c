import Bulletin.Record
import Bulletin.Json.Decode

/-!
# Chart specifications

What a report or a widget says about a chart: its name, its type, an optional title and options.
Options name fields of the rows and give settings of the type. A type that is not known is kept
as it was written.
-/

namespace Bulletin

/-! ## Types -/

inductive ChartType where
  | bar
  | line
  | pie
  | table
  | metric
  | gauge
  | heatmap
  | scatter
  /-- any other type, as written -/
  | unknown (name : String)
deriving DecidableEq

namespace ChartType

def tag : ChartType → String
  | .bar => "bar"
  | .line => "line"
  | .pie => "pie"
  | .table => "table"
  | .metric => "metric"
  | .gauge => "gauge"
  | .heatmap => "heatmap"
  | .scatter => "scatter"
  | .unknown name => name

/-- Reads a tag or one of its other names, in any ASCII case. -/
def ofTag (tag : String) : ChartType :=
  match Text.lower tag with
  | "bar" => .bar
  | "line" => .line
  | "pie" | "donut" => .pie
  | "table" => .table
  | "metric" | "kpi" => .metric
  | "gauge" => .gauge
  | "heatmap" => .heatmap
  | "scatter" => .scatter
  | _ => .unknown tag

def known : ChartType → Bool
  | .unknown _ => false
  | _ => true

def toJson (type : ChartType) : Json := .string type.tag

def ofDraft? (v : Draft) : Option ChartType := v.readString?.map ofTag

end ChartType

/-! ## Specifications -/

/-- A declared chart. -/
structure ChartSpec where
  name : String
  type : ChartType
  title : Option String
  options : Fields Json
deriving DecidableEq

/-- A member that is written only if there is a value. -/
def optionalMember {α : Type} (key : String) (f : α → Json) : Option α → List (String × Json)
  | none => []
  | some a => [(key, f a)]

namespace ChartSpec

def toJson (spec : ChartSpec) : Json :=
  .object ([("name", .string spec.name), ("type", spec.type.toJson)]
    ++ optionalMember "title" .string spec.title
    ++ [("options", Json.ofFields spec.options)])

def ofDraft? (v : Draft) : Option ChartSpec := do
  match ← v.slots? [["name"], ["type"], ["title"], ["options"]] with
  | [name, type, title, options] =>
    return {
      name := ← name.required Draft.readString?
      type := ← type.required ChartType.ofDraft?
      title := ← title.orNone Draft.readString?
      options := ← options.orElse ∅ (Draft.readFields? Draft.readAny?) }
  | _ => none

/-- The first of some options that is a string and not empty. -/
def text? (spec : ChartSpec) (keys : List String) : Option String :=
  (keys.filterMap fun key => (spec.options.get? key).bind Json.string?).find? (· ≠ "")

/-- An option that is a number. -/
def number? (spec : ChartSpec) (key : String) : Option Binary64 :=
  (spec.options.get? key).bind Json.numeric?

/-- The title, or the name for want of one. -/
def displayTitle (spec : ChartSpec) : String := spec.title.getD spec.name

end ChartSpec

end Bulletin
