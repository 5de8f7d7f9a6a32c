import Bulletin.Proofs.CompactText
import Bulletin.Proofs.IdentText
import Bulletin.Proofs.InstantText
import Bulletin.Proofs.ReadForms
import Bulletin.Proofs.WrittenForms
import Bulletin.Repository.Keyed

/-!
# The form in which entities are stored

Entities are read from JSON of many forms and stored in one. Reading the stored form gives the
entity back: other names of fields and variants, letters of either case, defaults and fields left
out are settled by the first reading and stay so.

There is one exception. A payload is a value that may be absent, and both an absent payload and a
payload of `null` are written as `null`, which is read as absent. A payload of `null` is only read
from an embedded text.

* `Source.settles`, `TransformStep.settles`, `Channel.settles`, … — the parts of definitions
* `EntityKind.settles` — every kind of entity
* `stored_form_settles` — the stored form as a value and as a text
-/

namespace Bulletin

open Draft Draft.Slot

/-! ## Names and tags -/

theorem Id.settles {kind : EntityKind} : Settles (@Id.ofDraft? kind) Id.toJson :=
  fun _ id _ => id.ofDraft?_key

theorem Instant.settles : Settles Instant.ofDraft? Instant.toJson := by
  intro d t h
  cases d with
  | string s => exact Instant.ofString?_text_of_ofString? h
  | _ => cases h

theorem Instant.toJson_ne_null (t : Instant) : t.toJson ≠ .null := by
  rw [Instant.toJson]
  exact nofun

theorem SourceKind.settles : Settles SourceKind.ofDraft? SourceKind.toJson := by
  refine settles_tag fun text => ?_
  cases h : SourceKind.ofTag text with
  | unsupported name =>
    -- a text that is no tag is kept
    obtain rfl : name = text := by
      unfold SourceKind.ofTag at h
      split at h <;> cases h
      rfl
    exact h
  | _ => rfl

theorem ChartType.settles : Settles ChartType.ofDraft? ChartType.toJson := by
  refine settles_tag fun text => ?_
  cases h : ChartType.ofTag text with
  | unknown name =>
    obtain rfl : name = text := by
      unfold ChartType.ofTag at h
      split at h <;> cases h
      rfl
    exact h
  | _ => decide

theorem OutputFormat.settles : Settles OutputFormat.ofDraft? OutputFormat.toJson := by
  refine settles_tag fun text => ?_
  cases h : OutputFormat.ofTag text with
  | unsupported name =>
    obtain rfl : name = text := by
      unfold OutputFormat.ofTag at h
      split at h <;> cases h
      rfl
    exact h
  | _ => decide

theorem ExecutionStatus.settles : Settles ExecutionStatus.ofDraft? ExecutionStatus.toJson :=
  settles_variant fun status => by cases status <;> rfl

theorem Trigger.settles : Settles Trigger.ofDraft? Trigger.toJson :=
  settles_variant fun trigger => by cases trigger <;> rfl

theorem Comparison.settles : Settles Comparison.ofDraft? Comparison.toJson :=
  settles_variant fun comparison => by cases comparison <;> rfl

theorem Severity.settles : Settles Severity.ofDraft? Severity.toJson :=
  settles_variant fun severity => by cases severity <;> rfl

theorem AlertStatus.settles : Settles AlertStatus.ofDraft? AlertStatus.toJson :=
  settles_variant fun status => by cases status <;> rfl

theorem Aggregate.settles :
    Settles (fun v => v.innerVariant?.bind Aggregate.ofName?) Aggregate.toJson :=
  settles_innerVariant fun function => by cases function <;> rfl

theorem FilterOperator.settles :
    Settles (fun v => v.innerVariant?.bind FilterOperator.ofName?) FilterOperator.toJson :=
  settles_innerVariant fun operator => by cases operator <;> rfl

/-- The fields of settings, parameters and options, which are values of any kind. -/
theorem settles_anyFields : Settles (readFields? readAny?) Json.ofFields := by
  have hid : (fun fields : Fields Json => Json.ofFields (fields.map id)) = Json.ofFields := by
    funext fields
    rw [Json.ofFields, Fields.map, Json.ofFields]
    simp
  exact hid ▸ settles_any.fields

/-! ## Sources, queries and charts -/

theorem Source.settles : Settles Source.ofDraft? Source.toJson := by
  intro d source h
  obtain ⟨_, _, _, -, hname, hkind, hconfig⟩ :=
    Source.ofDraft?_eq_some.mp h
  have hwritten : source.toJson = .object (present
      [("name", some (.string source.name)), ("type", some source.kind.toJson),
        ("config", some (Json.ofFields source.config))]) := rfl
  have hslots := slots?_written hwritten rfl
  exact Source.ofDraft?_eq_some.mpr ⟨_, _, _, hslots, required_written settles_string hname,
    required_written SourceKind.settles hkind, orElse_written settles_anyFields rfl hconfig⟩

namespace TransformStep

theorem settles_aggregation {content : Draft} {step : TransformStep}
    (h : readAggregation? content = some step) : ofDraft? (ofJson step.toJson) = some step := by
  obtain ⟨_, _, names, functions, -, hnames, hfunctions, rfl⟩ := readAggregation?_eq_some.mp h
  have hwritten : toJson (.aggregation names functions)
      = .object (("type", .string "aggregation") :: present
        [("group_by", some (.array (names.map .string))),
          ("aggregations", some (Json.ofFields (functions.map Aggregate.toJson)))]) := rfl
  obtain ⟨_, htag, -, hslots⟩ := tagged?_written hwritten rfl
  rw [ofDraft?_aggregation htag]
  exact readAggregation?_eq_some.mpr ⟨_, _, _, _, hslots,
    orElse_written settles_string.list rfl hnames,
    orElse_written Aggregate.settles.fields rfl hfunctions, rfl⟩

theorem settles_filter {content : Draft} {step : TransformStep}
    (h : readFilter? content = some step) : ofDraft? (ofJson step.toJson) = some step := by
  obtain ⟨_, _, _, field, operator, expected, -, hfield, hoperator, hexpected, rfl⟩ :=
    readFilter?_eq_some.mp h
  have hwritten : toJson (.filter field operator expected)
      = .object (("type", .string "filter") :: present
        [("field", some (.string field)), ("operator", some operator.toJson),
          ("value", some (id expected))]) := rfl
  obtain ⟨_, htag, -, hslots⟩ := tagged?_written hwritten rfl
  rw [ofDraft?_filter htag]
  exact readFilter?_eq_some.mpr ⟨_, _, _, _, _, _, hslots,
    required_written settles_string hfield, required_written FilterOperator.settles hoperator,
    required_written settles_any hexpected, rfl⟩

theorem settles_sort {content : Draft} {step : TransformStep}
    (h : readSort? content = some step) : ofDraft? (ofJson step.toJson) = some step := by
  obtain ⟨_, _, field, ascending, -, hfield, hascending, rfl⟩ := readSort?_eq_some.mp h
  have hwritten : toJson (.sort field ascending)
      = .object (("type", .string "sort") :: present
        [("field", some (.string field)), ("ascending", some (.bool ascending))]) := rfl
  obtain ⟨_, htag, -, hslots⟩ := tagged?_written hwritten rfl
  rw [ofDraft?_sort htag]
  exact readSort?_eq_some.mpr ⟨_, _, _, _, hslots,
    required_written settles_string hfield, orElse_written settles_bool rfl hascending, rfl⟩

/-- The count of a limit has two more names, none of which is written. -/
theorem settles_limit {content : Draft} {step : TransformStep}
    (h : readLimit? content = some step) : ofDraft? (ofJson step.toJson) = some step := by
  obtain ⟨_, count, -, hcount, rfl⟩ := readLimit?_eq_some.mp h
  have hwritten : toJson (.limit count)
      = .object (("type", .string "limit") :: present [("n", some (word64Json count))]) := rfl
  obtain ⟨_, htag, rfl, -⟩ := tagged?_written hwritten rfl
  have hslots : ∀ v, slots? [["n", "count", "limit"]] (ofJson (.object (present [("n", some v)])))
      = some [ofMember (some v)] := fun _ => rfl
  rw [ofDraft?_limit htag]
  exact readLimit?_eq_some.mpr ⟨_, _, hslots (word64Json count),
    required_written settles_word64 hcount, rfl⟩

theorem settles : Settles ofDraft? toJson := by
  intro d step h
  obtain ⟨⟨tag, content⟩, -, h⟩ := Option.bind_eq_some_iff.mp h
  simp only at h
  split at h
  · exact settles_aggregation h
  · exact settles_aggregation h
  · exact settles_aggregation h
  · exact settles_filter h
  · exact settles_sort h
  · exact settles_limit h
  · split at h
    · cases h
      rfl
    · cases h

end TransformStep

theorem QueryConfig.settles : Settles QueryConfig.ofDraft? QueryConfig.toJson := by
  intro d config h
  obtain ⟨_, _, _, _, -, hquery, hparameters, hfilters, hsteps⟩ :=
    QueryConfig.ofDraft?_eq_some.mp h
  have hwritten : config.toJson = .object (present
      [("query", config.query.map .string), ("parameters", some (Json.ofFields config.parameters)),
        ("filters", some (Json.ofFields config.filters)),
        ("transformations", some (.array (config.transformations.map TransformStep.toJson)))]) := by
    unfold QueryConfig.toJson
    cases config.query <;> rfl
  have hslots := slots?_written hwritten rfl
  exact QueryConfig.ofDraft?_eq_some.mpr ⟨_, _, _, _, hslots,
    orNone_present settles_string nofun hquery, orElse_written settles_anyFields rfl hparameters,
    orElse_written settles_anyFields rfl hfilters,
    orElse_written TransformStep.settles.list rfl hsteps⟩

/-- The default query, which is what an object without fields is read as. -/
theorem QueryConfig.empty_settled :
    QueryConfig.ofDraft? (ofJson QueryConfig.empty.toJson) = some .empty :=
  QueryConfig.settles (show QueryConfig.ofDraft? (.object []) = some .empty from rfl)

theorem ChartSpec.settles : Settles ChartSpec.ofDraft? ChartSpec.toJson := by
  intro d spec h
  obtain ⟨_, _, _, _, -, hname, htype, htitle, hoptions⟩ :=
    ChartSpec.ofDraft?_eq_some.mp h
  have hwritten : spec.toJson = .object (present
      [("name", some (.string spec.name)), ("type", some spec.type.toJson),
        ("title", spec.title.map .string), ("options", some (Json.ofFields spec.options))]) := by
    unfold ChartSpec.toJson
    cases spec.title <;> rfl
  have hslots := slots?_written hwritten rfl
  exact ChartSpec.ofDraft?_eq_some.mpr ⟨_, _, _, _, hslots, required_written settles_string hname,
    required_written ChartType.settles htype, orNone_present settles_string nofun htitle,
    orElse_written settles_anyFields rfl hoptions⟩

theorem ChartList.settles : Settles ChartList.ofDraft? ChartList.toJson := by
  intro d list h
  obtain ⟨_, -, hcharts⟩ :=
    ChartList.ofDraft?_eq_some.mp h
  have hwritten : list.toJson = .object (present
      [("charts", some (.array (list.charts.map ChartSpec.toJson)))]) := rfl
  have hslots := slots?_written hwritten rfl
  exact ChartList.ofDraft?_eq_some.mpr ⟨_, hslots,
    orElse_written ChartSpec.settles.list rfl hcharts⟩

/-! ## Payloads and caches -/

/-- A payload of `null` is written like no payload. -/
theorem ofOption_settled (o : Option Json) :
    Json.ofOption (fun v => v) (o.filter (· ≠ .null)) = Json.ofOption (fun v => v) o := by
  match o with
  | none => rfl
  | some v =>
    by_cases hv : v = .null
    · subst hv
      rfl
    · rw [Option.filter_some, if_pos (by simpa using hv)]

theorem filter_eq_self_iff {o : Option Json} : o.filter (· ≠ .null) = o ↔ o ≠ some .null := by
  match o with
  | none => simp
  | some v => simp [Option.filter_some]

/-- The cache that is read back. -/
def Cache.settled (cache : Cache) : Cache :=
  { cache with payload := cache.payload.filter (· ≠ .null) }

theorem Cache.toJson_settled (cache : Cache) : cache.settled.toJson = cache.toJson := by
  have hpayload : Json.ofOption id cache.settled.payload = Json.ofOption id cache.payload :=
    ofOption_settled cache.payload
  rw [Cache.toJson, Cache.toJson, hpayload]
  rfl

theorem Cache.settled_eq_self_iff {cache : Cache} :
    cache.settled = cache ↔ cache.payload ≠ some .null := by
  rw [← filter_eq_self_iff]
  exact ⟨congrArg Cache.payload, fun h => by rw [Cache.settled, h]⟩

theorem Cache.settles {d : Draft} {cache : Cache} (h : Cache.ofDraft? d = some cache) :
    Cache.ofDraft? (ofJson cache.toJson) = some cache.settled := by
  obtain ⟨_, _, _, -, hpayload, hcachedAt, httl⟩ := Cache.ofDraft?_eq_some.mp h
  have hwritten : cache.toJson = .object (present
      [("payload", some (Json.ofOption id cache.payload)),
        ("cached_at", some (Json.ofOption Instant.toJson cache.cachedAt)),
        ("ttl_minutes", some (word32Json cache.ttlMinutes))]) := rfl
  have hslots := slots?_written hwritten rfl
  exact Cache.ofDraft?_eq_some.mpr ⟨_, _, _, hslots, orNone_payload hpayload,
    orNone_written Instant.settles Instant.toJson_ne_null hcachedAt,
    orElse_written settles_word32 (readWord32?_written _) httl⟩

/-- A cache among the fields of an owner, which may leave it out. -/
theorem Cache.orElse_written {slot : Slot} {cache fallback : Cache}
    (h : slot.orElse .new Cache.ofDraft? = some cache) :
    (ofMember (some cache.toJson)).orElse fallback Cache.ofDraft? = some cache.settled := by
  -- the default is what an object without fields is read as
  cases slot with
  | filled v => exact Cache.settles h
  | absent => exact Cache.settles (show Cache.ofDraft? (.object []) = some cache from h)
  | ended => exact Cache.settles (show Cache.ofDraft? (.object []) = some cache from h)

/-! ## Reports and executions -/

theorem Schedule.settles : Settles Schedule.ofDraft? Schedule.toJson := by
  intro d schedule h
  obtain ⟨_, _, -, hinterval, henabled⟩ :=
    Schedule.ofDraft?_eq_some.mp h
  have hwritten : schedule.toJson = .object (present
      [("interval_minutes", some (word32Json schedule.intervalMinutes)),
        ("enabled", some (.bool schedule.enabled))]) := rfl
  have hslots := slots?_written hwritten rfl
  exact Schedule.ofDraft?_eq_some.mpr ⟨_, _, hslots, required_written settles_word32 hinterval,
    orElse_written settles_bool rfl henabled⟩

/-- The report that is read back. -/
def Report.settled (report : Report) : Report := { report with cache := report.cache.settled }

theorem Report.toJson_settled (report : Report) : report.settled.toJson = report.toJson := by
  rw [Report.toJson, Report.toJson, show report.settled.cache.toJson = report.cache.toJson from
    report.cache.toJson_settled]
  rfl

theorem Report.settled_eq_self_iff {report : Report} :
    report.settled = report ↔ report.cache.payload ≠ some .null := by
  rw [← Cache.settled_eq_self_iff]
  exact ⟨congrArg Report.cache, fun h => by rw [Report.settled, h]⟩

theorem Report.settles {fresh fresh' : Uuid} {d : Draft} {report : Report}
    (h : Report.ofDraft? fresh d = some report) :
    Report.ofDraft? fresh' (ofJson report.toJson) = some report.settled := by
  obtain ⟨_, _, _, _, _, _, _, _, _, -, hid, hname, hsources, hquery, hcharts, hformats, hcache,
    hschedule, hlast⟩ :=
    Report.ofDraft?_eq_some.mp h
  have hwritten : report.toJson = .object (present
      [("id", some report.id.toJson), ("name", some (.string report.name)),
        ("data_sources", some (.array (report.sources.map Source.toJson))),
        ("query_config", some report.query.toJson),
        ("visualization_config", some report.charts.toJson),
        ("output_formats", some (.array (report.formats.map OutputFormat.toJson))),
        ("cache", some report.cache.toJson), ("schedule", report.schedule.map Schedule.toJson),
        ("last_scheduled_at", report.lastScheduledAt.map Instant.toJson)]) := by
    unfold Report.toJson
    cases report.schedule <;> cases report.lastScheduledAt <;> rfl
  have hslots := slots?_written hwritten rfl
  exact Report.ofDraft?_eq_some.mpr ⟨_, _, _, _, _, _, _, _, _, hslots,
    orElse_written Id.settles (Id.ofDraft?_key _) hid, required_written settles_string hname,
    orElse_written Source.settles.list rfl hsources,
    orElse_written QueryConfig.settles QueryConfig.empty_settled hquery,
    orElse_written ChartList.settles rfl hcharts,
    orElse_written OutputFormat.settles.list rfl hformats,
    Cache.orElse_written hcache,
    orNone_present Schedule.settles nofun hschedule,
    orNone_present Instant.settles Instant.toJson_ne_null hlast⟩

theorem Artifact.settles : Settles Artifact.ofDraft? Artifact.toJson := by
  intro d artifact h
  obtain ⟨_, _, _, _, _, -, hformat, hfilename, hpath, hsize, hchecksum⟩ :=
    Artifact.ofDraft?_eq_some.mp h
  have hwritten : artifact.toJson = .object (present
      [("format", some artifact.format.toJson), ("filename", some (.string artifact.filename)),
        ("path", some (.string artifact.path)), ("size_bytes", some (word64Json artifact.size)),
        ("checksum", some (.string artifact.checksum))]) := rfl
  have hslots := slots?_written hwritten rfl
  exact Artifact.ofDraft?_eq_some.mpr ⟨_, _, _, _, _, hslots,
    required_written OutputFormat.settles hformat, required_written settles_string hfilename,
    required_written settles_string hpath, required_written settles_word64 hsize,
    required_written settles_string hchecksum⟩

/-- The execution that is read back. -/
def Execution.settled (e : Execution) : Execution :=
  { e with payload := e.payload.filter (· ≠ .null) }

theorem Execution.toJson_settled (e : Execution) : e.settled.toJson = e.toJson := by
  rw [Execution.toJson, Execution.toJson, show Json.ofOption (fun v => v) e.settled.payload
    = Json.ofOption (fun v => v) e.payload from ofOption_settled e.payload]
  rfl

theorem Execution.settled_eq_self_iff {e : Execution} : e.settled = e ↔ e.payload ≠ some .null := by
  rw [← filter_eq_self_iff]
  exact ⟨congrArg Execution.payload, fun h => by rw [Execution.settled, h]⟩

theorem Execution.settles {d : Draft} {e : Execution} (h : Execution.ofDraft? d = some e) :
    Execution.ofDraft? (ofJson e.toJson) = some e.settled := by
  obtain ⟨_, _, _, _, _, _, _, _, _, _, _, -, hid, hreport, hstatus, htrigger, hcreated, hstarted,
    hcompleted, hduration, hpayload, hartifacts, herror⟩ :=
    Execution.ofDraft?_eq_some.mp h
  have hwritten : e.toJson = .object (present
      [("id", some e.id.toJson), ("report_id", some e.reportId.toJson),
        ("status", some e.status.toJson), ("trigger_type", some e.trigger.toJson),
        ("created_at", some e.createdAt.toJson),
        ("started_at", some (Json.ofOption Instant.toJson e.startedAt)),
        ("completed_at", some (Json.ofOption Instant.toJson e.completedAt)),
        ("duration_ms", some (Json.ofOption word64Json e.durationMs)),
        ("result_payload", some (Json.ofOption (fun v => v) e.payload)),
        ("output_artifacts", some (.array (e.artifacts.map Artifact.toJson))),
        ("error", some (Json.ofOption .string e.error))]) := rfl
  have hslots := slots?_written hwritten rfl
  exact Execution.ofDraft?_eq_some.mpr ⟨_, _, _, _, _, _, _, _, _, _, _, hslots,
    required_written Id.settles hid, required_written Id.settles hreport,
    required_written ExecutionStatus.settles hstatus, required_written Trigger.settles htrigger,
    required_written Instant.settles hcreated,
    optional_written Instant.settles Instant.toJson_ne_null hstarted,
    optional_written Instant.settles Instant.toJson_ne_null hcompleted,
    optional_written settles_word64 word64Json_ne_null hduration, optional_payload hpayload,
    orElse_written Artifact.settles.list rfl hartifacts,
    optional_written settles_string nofun herror⟩

/-! ## Dashboards and widgets -/

theorem WidgetPosition.ofDraft?_toJson (position : WidgetPosition) :
    WidgetPosition.ofDraft? (ofJson position.toJson) = some position := by
  have hwritten : position.toJson = .object (present
      [("x", some (word32Json position.x)), ("y", some (word32Json position.y)),
        ("width", some (word32Json position.width)),
        ("height", some (word32Json position.height))]) := rfl
  have hslots := slots?_written hwritten rfl
  exact WidgetPosition.ofDraft?_eq_some.mpr ⟨_, _, _, _, hslots,
    required_of_read (readWord32?_written _), required_of_read (readWord32?_written _),
    required_of_read (readWord32?_written _), required_of_read (readWord32?_written _)⟩

theorem WidgetPosition.settles : Settles WidgetPosition.ofDraft? WidgetPosition.toJson :=
  fun _ position _ => position.ofDraft?_toJson

theorem Dashboard.settles {fresh fresh' : Uuid} {d : Draft} {dashboard : Dashboard}
    (h : Dashboard.ofDraft? fresh d = some dashboard) :
    Dashboard.ofDraft? fresh' (ofJson dashboard.toJson) = some dashboard := by
  obtain ⟨_, _, _, -, hid, hname, hwidgets⟩ :=
    Dashboard.ofDraft?_eq_some.mp h
  have hwritten : dashboard.toJson = .object (present
      [("id", some dashboard.id.toJson), ("name", some (.string dashboard.name)),
        ("widget_ids", some (.array (dashboard.widgetIds.map Id.toJson)))]) := rfl
  have hslots := slots?_written hwritten rfl
  exact Dashboard.ofDraft?_eq_some.mpr ⟨_, _, _, hslots,
    orElse_written Id.settles (Id.ofDraft?_key _) hid, required_written settles_string hname,
    orElse_written Id.settles.list rfl hwidgets⟩

/-- The widget that is read back. -/
def Widget.settled (widget : Widget) : Widget := { widget with cache := widget.cache.settled }

theorem Widget.toJson_settled (widget : Widget) : widget.settled.toJson = widget.toJson := by
  rw [Widget.toJson, Widget.toJson, show widget.settled.cache.toJson = widget.cache.toJson from
    widget.cache.toJson_settled]
  rfl

theorem Widget.settled_eq_self_iff {widget : Widget} :
    widget.settled = widget ↔ widget.cache.payload ≠ some .null := by
  rw [← Cache.settled_eq_self_iff]
  exact ⟨congrArg Widget.cache, fun h => by rw [Widget.settled, h]⟩

theorem Widget.settles {fresh fresh' : Uuid} {d : Draft} {widget : Widget}
    (h : Widget.ofDraft? fresh d = some widget) :
    Widget.ofDraft? fresh' (ofJson widget.toJson) = some widget.settled := by
  obtain ⟨_, _, _, _, _, _, _, _, -, hid, hdashboard, htitle, hposition, hsource, hquery, hchart,
    hcache⟩ :=
    Widget.ofDraft?_eq_some.mp h
  have hwritten : widget.toJson = .object (present
      [("id", some widget.id.toJson), ("dashboard_id", some widget.dashboardId.toJson),
        ("title", some (.string widget.title)), ("position", some widget.position.toJson),
        ("data_source", some widget.source.toJson), ("query_config", some widget.query.toJson),
        ("chart", some widget.chart.toJson), ("cache", some widget.cache.toJson)]) := rfl
  have hslots := slots?_written hwritten rfl
  exact Widget.ofDraft?_eq_some.mpr ⟨_, _, _, _, _, _, _, _, hslots,
    orElse_written Id.settles (Id.ofDraft?_key _) hid, required_written Id.settles hdashboard,
    required_written settles_string htitle,
    orElse_written WidgetPosition.settles (WidgetPosition.ofDraft?_toJson _) hposition,
    required_written Source.settles hsource,
    orElse_written QueryConfig.settles QueryConfig.empty_settled hquery,
    required_written ChartSpec.settles hchart,
    Cache.orElse_written hcache⟩

/-! ## Rules and alerts -/

theorem Condition.settles : Settles Condition.ofDraft? Condition.toJson := by
  intro d condition h
  obtain ⟨_, _, -, hthreshold, hcomparison⟩ :=
    Condition.ofDraft?_eq_some.mp h
  have hwritten : condition.toJson = .object (present
      [("threshold_value", some (.real condition.threshold)),
        ("comparison_operator", some condition.comparison.toJson)]) := rfl
  have hslots := slots?_written hwritten rfl
  exact Condition.ofDraft?_eq_some.mpr ⟨_, _, hslots, required_written settles_real hthreshold,
    required_written Comparison.settles hcomparison⟩

theorem Channel.settles : Settles Channel.ofDraft? Channel.toJson := by
  intro d channel h
  obtain ⟨_, recipients, hrecipients, rfl⟩ | ⟨_, _, url, headers, hurl, hheaders, rfl⟩ |
    ⟨_, _, url, room, hurl, hroom, rfl⟩ | rfl := Channel.read_of_ofDraft? h
  · have hwritten : (Channel.email recipients).toJson = .object (("type", .string "email") ::
        present [("recipients", some (.array (recipients.map .string)))]) := rfl
    obtain ⟨_, htag, -, hslots⟩ := tagged?_written hwritten rfl
    exact (Channel.ofDraft?_email htag).mpr
      ⟨_, hslots, required_written settles_string.list hrecipients⟩
  · have hwritten : (Channel.webhook url headers).toJson = .object (("type", .string "webhook") ::
        present [("url", some (.string url)),
          ("headers", some (Json.ofFields (headers.map .string)))]) := rfl
    obtain ⟨_, htag, -, hslots⟩ := tagged?_written hwritten rfl
    exact (Channel.ofDraft?_webhook htag).mpr ⟨_, _, hslots,
      required_written settles_string hurl, orElse_written settles_string.fields rfl hheaders⟩
  · have hwritten : (Channel.slack url room).toJson = .object (("type", .string "slack") ::
        present [("webhook_url", some (.string url)), ("channel", room.map .string)]) := by
      unfold Channel.toJson
      cases room <;> rfl
    obtain ⟨_, htag, -, hslots⟩ := tagged?_written hwritten rfl
    exact (Channel.ofDraft?_slack htag).mpr ⟨_, _, hslots,
      required_written settles_string hurl, orNone_present settles_string nofun hroom⟩
  · rfl

theorem AlertRule.settles {fresh fresh' : Uuid} {d : Draft} {rule : AlertRule}
    (h : AlertRule.ofDraft? fresh d = some rule) :
    AlertRule.ofDraft? fresh' (ofJson rule.toJson) = some rule := by
  obtain ⟨_, _, _, _, _, _, _, _, _, _, _, _, -, hid, hname, hsource, hquery, hparameters, hfield,
    hcondition, hseverity, hinterval, henabled, hlast, hchannels⟩ :=
    AlertRule.ofDraft?_eq_some.mp h
  have hwritten : rule.toJson = .object (present
      [("id", some rule.id.toJson), ("name", some (.string rule.name)),
        ("data_source", some rule.source.toJson), ("query", rule.query.map .string),
        ("parameters", some (Json.ofFields rule.parameters)),
        ("metric_field", rule.metricField.map .string), ("condition", some rule.condition.toJson),
        ("severity", some rule.severity.toJson),
        ("evaluation_interval_minutes", some (word32Json rule.intervalMinutes)),
        ("enabled", some (.bool rule.enabled)),
        ("last_evaluated_at", some (Json.ofOption Instant.toJson rule.lastEvaluatedAt)),
        ("notification_config", some (.array (rule.channels.map Channel.toJson)))]) := by
    unfold AlertRule.toJson
    cases rule.query <;> cases rule.metricField <;> rfl
  have hslots := slots?_written hwritten rfl
  exact AlertRule.ofDraft?_eq_some.mpr ⟨_, _, _, _, _, _, _, _, _, _, _, _, hslots,
    orElse_written Id.settles (Id.ofDraft?_key _) hid, required_written settles_string hname,
    required_written Source.settles hsource, orNone_present settles_string nofun hquery,
    orElse_written settles_anyFields rfl hparameters, orNone_present settles_string nofun hfield,
    required_written Condition.settles hcondition, orElse_written Severity.settles rfl hseverity,
    orElse_written settles_word32 (readWord32?_written _) hinterval,
    orElse_written settles_bool rfl henabled,
    orNone_written Instant.settles Instant.toJson_ne_null hlast,
    orElse_written Channel.settles.list rfl hchannels⟩

theorem Alert.settles : Settles Alert.ofDraft? Alert.toJson := by
  intro d alert h
  obtain ⟨_, _, _, _, _, _, _, _, _, _, _, _, _, -, hid, hrule, hstatus, hseverity, hvalue,
    hthreshold, hmessage, htriggered, hacknowledged, hperson, hresolved, hreason, hauto⟩ :=
    Alert.ofDraft?_eq_some.mp h
  have hwritten : alert.toJson = .object (present
      [("id", some alert.id.toJson), ("rule_id", some alert.ruleId.toJson),
        ("status", some alert.status.toJson), ("severity", some alert.severity.toJson),
        ("triggered_value", some (.real alert.triggeredValue)),
        ("threshold_value", some (.real alert.threshold)),
        ("message", some (.string alert.message)), ("triggered_at", some alert.triggeredAt.toJson),
        ("acknowledged_at", some (Json.ofOption Instant.toJson alert.acknowledgedAt)),
        ("acknowledged_by", some (Json.ofOption .string alert.acknowledgedBy)),
        ("resolved_at", some (Json.ofOption Instant.toJson alert.resolvedAt)),
        ("resolution_reason", some (Json.ofOption .string alert.resolutionReason)),
        ("auto_resolved", some (.bool alert.autoResolved))]) := rfl
  have hslots := slots?_written hwritten rfl
  exact Alert.ofDraft?_eq_some.mpr ⟨_, _, _, _, _, _, _, _, _, _, _, _, _, hslots,
    required_written Id.settles hid, required_written Id.settles hrule,
    required_written AlertStatus.settles hstatus, required_written Severity.settles hseverity,
    required_written settles_real hvalue, required_written settles_real hthreshold,
    required_written settles_string hmessage, required_written Instant.settles htriggered,
    orNone_written Instant.settles Instant.toJson_ne_null hacknowledged,
    orNone_written settles_string nofun hperson,
    orNone_written Instant.settles Instant.toJson_ne_null hresolved,
    orNone_written settles_string nofun hreason, orElse_written settles_bool rfl hauto⟩

/-! ## Entities -/

namespace EntityKind

variable {kind : EntityKind} {entity : kind.Entity}

/-- The entity that is read back. -/
def settled : (kind : EntityKind) → kind.Entity → kind.Entity
  | .report => Report.settled
  | .execution => Execution.settled
  | .dashboard => fun d => d
  | .widget => Widget.settled
  | .rule => fun r => r
  | .alert => fun a => a

/-- The result that an entity holds, if it is of a kind that holds one. -/
def payload? : (kind : EntityKind) → kind.Entity → Option Json
  | .report, r => r.cache.payload
  | .execution, e => e.payload
  | .widget, w => w.cache.payload
  | .dashboard, _ | .rule, _ | .alert, _ => none

theorem settles {fresh fresh' : Uuid} {d : Draft} (h : kind.ofDraft? fresh d = some entity) :
    kind.ofDraft? fresh' (ofJson (kind.toJson entity)) = some (kind.settled entity) := by
  cases kind with
  | report => exact Report.settles h
  | execution => exact Execution.settles h
  | dashboard => exact Dashboard.settles h
  | widget => exact Widget.settles h
  | rule => exact AlertRule.settles h
  | alert => exact Alert.settles h

theorem toJson_settled : kind.toJson (kind.settled entity) = kind.toJson entity := by
  cases kind with
  | report => exact Report.toJson_settled entity
  | execution => exact Execution.toJson_settled entity
  | widget => exact Widget.toJson_settled entity
  | _ => rfl

/-- Only a payload of `null` is not read back. -/
theorem settled_eq_self_iff : kind.settled entity = entity ↔ kind.payload? entity ≠ some .null := by
  cases kind with
  | report => exact Report.settled_eq_self_iff
  | execution => exact Execution.settled_eq_self_iff
  | widget => exact Widget.settled_eq_self_iff
  | _ => exact iff_of_true rfl nofun

/-- The stored text of an entity that was read reads as what is read back. -/
theorem decode_compact {fresh : Uuid} {d : Draft} (h : kind.ofDraft? fresh d = some entity)
    (hl : (kind.toJson entity).Legible) :
    TextTable.decode kind (kind.toJson entity).compact = .ok (kind.settled entity) := by
  rw [TextTable.decode, hl.ofText_compact]
  simp only [settles h]

end EntityKind

/-- **The stored form of an entity.** An entity that was read from any draft, and so from any JSON
value, is read back from the JSON value that is written for it, and from the text of this value if
all of it can be read. What is read back is the entity, unless its payload is `null`: then it is the
entity without payload. Whatever identifier is at hand for entities without one plays no part. -/
theorem stored_form_settles {kind : EntityKind} {entity : kind.Entity} {fresh : Uuid} {d : Draft}
    (h : kind.ofDraft? fresh d = some entity) :
    (∀ fresh', kind.ofDraft? fresh' (ofJson (kind.toJson entity)) = some (kind.settled entity)) ∧
      ((kind.toJson entity).Legible →
        TextTable.decode kind (kind.toJson entity).compact = .ok (kind.settled entity)) ∧
      (kind.settled entity = entity ↔ kind.payload? entity ≠ some .null) ∧
      kind.toJson (kind.settled entity) = kind.toJson entity :=
  ⟨fun _ => EntityKind.settles h, EntityKind.decode_compact h,
    EntityKind.settled_eq_self_iff, EntityKind.toJson_settled⟩

/-- A report under other names, with most of its fields left out. -/
theorem report_under_other_names :
    let given := Json.object [("name", .string "load"),
      ("data_sources", .array [.object [("name", .string "db"), ("type", .string "SQL")]]),
      ("output_formats", .array [.string "XLSX", .string "parquet"])]
    let report : Report := { Report.new ⟨⟨7⟩⟩ "load" with
      sources := [.plain "db" .relational], formats := [.excel, .unsupported "parquet"] }
    EntityKind.report.ofDraft? ⟨7⟩ (ofJson given) = some report ∧
      EntityKind.report.ofDraft? ⟨8⟩ (ofJson (EntityKind.report.toJson report)) = some report := by
  intro given report
  have hread : EntityKind.report.ofDraft? ⟨7⟩ (ofJson given) = some report := by rfl
  exact ⟨hread, (stored_form_settles hread).1 ⟨8⟩⟩

/-- An embedded text of `null` is read as a payload, and the payload is not read back. -/
theorem null_payload_not_read_back :
    let given := Json.object [("name", .string "load"),
      ("cache", .object [("payload", .object [(Json.embeddingName, .string "null")])])]
    let report : Report :=
      { Report.new ⟨⟨7⟩⟩ "load" with cache := { Cache.new with payload := some .null } }
    EntityKind.report.ofDraft? ⟨7⟩ (ofJson given) = some report ∧
      EntityKind.report.ofDraft? ⟨7⟩ (ofJson (EntityKind.report.toJson report))
        = some (Report.new ⟨⟨7⟩⟩ "load") ∧
      report ≠ Report.new ⟨⟨7⟩⟩ "load" := by
  intro given report
  have hread : EntityKind.report.ofDraft? ⟨7⟩ (ofJson given) = some report := by rfl
  refine ⟨hread, EntityKind.settles hread, fun h => ?_⟩
  cases congrArg (fun r => r.cache.payload) h

end Bulletin
