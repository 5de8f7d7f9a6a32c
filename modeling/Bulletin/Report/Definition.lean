import Bulletin.Ident
import Bulletin.Source
import Bulletin.Cache
import Bulletin.Transform.Step
import Bulletin.Chart.Spec
import Bulletin.Document.Format

/-!
# Report definitions

A report says where its rows come from, how they are queried and transformed, which charts and
files are made of them, how long a result stays fresh, and when it is run by itself.

`validate` is asked before a report is stored or run. `due` tells the scheduler whether a report
has to run; as it adds minutes to a stored instant, it may lead out of the calendar and then has
no answer.
-/

namespace Bulletin

/-! ## Queries -/

/-- The query part of reports and widgets. -/
structure QueryConfig where
  /-- a query text in place of those of the sources -/
  query : Option String
  /-- the values of placeholders -/
  parameters : Fields Json
  /-- the values that fields must have -/
  filters : Fields Json
  /-- what is done with the rows -/
  transformations : List TransformStep
deriving DecidableEq

namespace QueryConfig

def empty : QueryConfig := ⟨none, ∅, ∅, []⟩

def toJson (config : QueryConfig) : Json :=
  .object (optionalMember "query" .string config.query
    ++ [("parameters", Json.ofFields config.parameters), ("filters", Json.ofFields config.filters),
      ("transformations", .array (config.transformations.map TransformStep.toJson))])

def ofDraft? (v : Draft) : Option QueryConfig := do
  match ← v.slots? [["query"], ["parameters"], ["filters"], ["transformations"]] with
  | [query, parameters, filters, transformations] =>
    return {
      query := ← query.orNone Draft.readString?
      parameters := ← parameters.orElse ∅ (Draft.readFields? Draft.readAny?)
      filters := ← filters.orElse ∅ (Draft.readFields? Draft.readAny?)
      transformations := ← transformations.orElse [] (Draft.readList? TransformStep.ofDraft?) }
  | _ => none

end QueryConfig

/-! ## Charts of a report -/

/-- The charts of a report. -/
structure ChartList where
  charts : List ChartSpec
deriving DecidableEq

namespace ChartList

def toJson (list : ChartList) : Json :=
  .object [("charts", .array (list.charts.map ChartSpec.toJson))]

def ofDraft? (v : Draft) : Option ChartList := do
  match ← v.slots? [["charts"]] with
  | [charts] => return ⟨← charts.orElse [] (Draft.readList? ChartSpec.ofDraft?)⟩
  | _ => none

end ChartList

/-! ## Schedules -/

/-- How often a report runs by itself. -/
structure Schedule where
  intervalMinutes : UInt32
  enabled : Bool
deriving DecidableEq

namespace Schedule

def toJson (schedule : Schedule) : Json :=
  .object [("interval_minutes", .nat schedule.intervalMinutes.toNat),
    ("enabled", .bool schedule.enabled)]

def ofDraft? (v : Draft) : Option Schedule := do
  match ← v.slots? [["interval_minutes"], ["enabled"]] with
  | [interval, enabled] =>
    return {
      intervalMinutes := ← interval.required Draft.readWord32?
      enabled := ← enabled.orElse true Draft.readBool? }
  | _ => none

/-- Whether the schedule can ever start a run. -/
def active (schedule : Schedule) : Bool := schedule.enabled && schedule.intervalMinutes != 0

end Schedule

/-! ## Reports -/

/-- A report. -/
structure Report where
  id : ReportId
  name : String
  sources : List Source
  query : QueryConfig
  charts : ChartList
  formats : List OutputFormat
  cache : Cache
  schedule : Option Schedule
  lastScheduledAt : Option Instant
deriving DecidableEq

namespace Report

/-- A report with nothing but a name. -/
def new (id : ReportId) (name : String) : Report :=
  { id, name, sources := [], query := .empty, charts := ⟨[]⟩, formats := [], cache := .new,
    schedule := none, lastScheduledAt := none }

def toJson (report : Report) : Json :=
  .object ([("id", report.id.toJson), ("name", .string report.name),
      ("data_sources", .array (report.sources.map Source.toJson)),
      ("query_config", report.query.toJson), ("visualization_config", report.charts.toJson),
      ("output_formats", .array (report.formats.map OutputFormat.toJson)),
      ("cache", report.cache.toJson)]
    ++ optionalMember "schedule" Schedule.toJson report.schedule
    ++ optionalMember "last_scheduled_at" Instant.toJson report.lastScheduledAt)

/-- Reads a report; one without an identifier gets the fresh one. -/
def ofDraft? (fresh : Uuid) (v : Draft) : Option Report := do
  match ← v.slots? [["id"], ["name"], ["data_sources"], ["query_config"], ["visualization_config"],
    ["output_formats"], ["cache"], ["schedule"], ["last_scheduled_at"]] with
  | [id, name, sources, query, charts, formats, cache, schedule, last] =>
    return {
      id := ← id.orElse ⟨fresh⟩ Id.ofDraft?
      name := ← name.required Draft.readString?
      sources := ← sources.orElse [] (Draft.readList? Source.ofDraft?)
      query := ← query.orElse .empty QueryConfig.ofDraft?
      charts := ← charts.orElse ⟨[]⟩ ChartList.ofDraft?
      formats := ← formats.orElse [] (Draft.readList? OutputFormat.ofDraft?)
      cache := ← cache.orElse .new Cache.ofDraft?
      schedule := ← schedule.orNone Schedule.ofDraft?
      lastScheduledAt := ← last.orNone Instant.ofDraft? }
  | _ => none

/-- Checks the name, the sources one after the other, and the schedule. -/
def validate (report : Report) : Except DomainError Unit :=
  if Text.blank report.name then .error (.validation "name" "must not be empty")
  else if report.sources.isEmpty then
    .error (.validation "data_sources" "at least one data source is required")
  else do
    report.sources.forM fun source => source.validate report.query.query
    if report.schedule.any fun s => s.enabled && s.intervalMinutes == 0 then
      .error (.validation "schedule.interval_minutes" "must be greater than zero")

/-- Whether the report has to run at an instant: its schedule is active and either it never ran by
schedule or its interval has passed since. -/
def due (report : Report) (now : Instant) : Option Bool :=
  match report.schedule with
  | none => some false
  | some schedule =>
    if schedule.active then
      match report.lastScheduledAt with
      | none => some true
      | some last =>
        (last.addMinutes? schedule.intervalMinutes.toNat).map fun next => !now.before next
    else some false

end Report

end Bulletin
