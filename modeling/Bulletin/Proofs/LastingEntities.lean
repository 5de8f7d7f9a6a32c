import Bulletin.Proofs.LastingParts
import Bulletin.Proofs.StoredForms

/-!
# Entities that last

For each type that is stored: which of its values are read back from what was written of them. The
reasons for which a value does not last are few. A name stands for no kind of its own where a kind
has this name; an instant has a leap second where no text has one; a double is not finite; a payload
is `null`; and a value of any kind holds an object that no text gives.

Each type has its condition, made up of those of its fields, and the lemma that its reader recovers
the values with this condition. Fields that always last are not mentioned in the conditions.

* `Source.recovers`, `TransformStep.recovers`, `Channel.recovers`, … — the parts of definitions
* `EntityKind.Lasts`, `EntityKind.recovers` — every kind of entity
-/

namespace Bulletin

open Draft

/-! ## Names and tags -/

theorem Id.recovers {kind : EntityKind} :
    Recovers (@Id.ofDraft? kind) Id.toJson fun _ => True :=
  recovers_text fun id => iff_of_true id.ofDraft?_key trivial

theorem Instant.recovers : Recovers Instant.ofDraft? Instant.toJson Instant.Regular :=
  recovers_text fun _ => ⟨Instant.regular_of_ofString?, Instant.ofString?_text⟩

theorem SourceKind.recovers :
    Recovers SourceKind.ofDraft? SourceKind.toJson fun kind => SourceKind.ofTag kind.tag = kind :=
  recovers_tag

theorem ChartType.recovers :
    Recovers ChartType.ofDraft? ChartType.toJson fun type => ChartType.ofTag type.tag = type :=
  recovers_tag

theorem OutputFormat.recovers : Recovers OutputFormat.ofDraft? OutputFormat.toJson
    fun format => OutputFormat.ofTag format.tag = format :=
  recovers_tag

theorem ExecutionStatus.recovers :
    Recovers ExecutionStatus.ofDraft? ExecutionStatus.toJson fun _ => True :=
  recovers_variant fun status => by cases status <;> rfl

theorem Trigger.recovers : Recovers Trigger.ofDraft? Trigger.toJson fun _ => True :=
  recovers_variant fun trigger => by cases trigger <;> rfl

theorem Comparison.recovers : Recovers Comparison.ofDraft? Comparison.toJson fun _ => True :=
  recovers_variant fun comparison => by cases comparison <;> rfl

theorem Severity.recovers : Recovers Severity.ofDraft? Severity.toJson fun _ => True :=
  recovers_variant fun severity => by cases severity <;> rfl

theorem AlertStatus.recovers : Recovers AlertStatus.ofDraft? AlertStatus.toJson fun _ => True :=
  recovers_variant fun status => by cases status <;> rfl

theorem Aggregate.recovers : Recovers (fun v => v.innerVariant?.bind Aggregate.ofName?)
    Aggregate.toJson fun _ => True :=
  recovers_innerVariant fun function => by cases function <;> rfl

theorem FilterOperator.recovers : Recovers (fun v => v.innerVariant?.bind FilterOperator.ofName?)
    FilterOperator.toJson fun _ => True :=
  recovers_innerVariant fun operator => by cases operator <;> rfl

/-- All values of some settings, parameters or options are plain. -/
def PlainFields (fields : Fields Json) : Prop := ∀ entry ∈ fields.entries, entry.2.Plain

theorem recovers_anyFields : Recovers (readFields? readAny?) Json.ofFields PlainFields := by
  have hid : (fun fields : Fields Json => Json.ofFields (fields.map id)) = Json.ofFields := by
    funext fields
    rw [Json.ofFields, Fields.map, Json.ofFields]
    simp
  exact hid ▸ recovers_any.fields

/-! ## Sources, queries and charts -/

structure Source.Lasts (source : Source) : Prop where
  kind : SourceKind.ofTag source.kind.tag = source.kind
  config : PlainFields source.config

theorem Source.recovers : Recovers Source.ofDraft? Source.toJson Source.Lasts := by
  intro d source h
  have hwritten : source.toJson = .object (present
      [("name", some (.string source.name)), ("type", some source.kind.toJson),
        ("config", some (Json.ofFields source.config))]) := rfl
  obtain ⟨_, hslots, ⟨name, _, rfl, hname, kind, _, rfl, hkind, config, _, rfl, hconfig, rfl⟩,
    hwhole⟩ := exists_slots hwritten rfl h
  have hfields := and_iff_cons_of_lasts (recovers_string.required hname) trivial <|
    and_iff_cons (SourceKind.recovers.required hkind) <|
    iff_singleton (recovers_anyFields.orElse ∅ hconfig)
  rw [hwhole]
  constructor
  · intro hread
    obtain ⟨_, _, _, hslots', hread⟩ := Source.ofDraft?_eq_some.mp hread
    cases hslots.symm.trans hslots'
    obtain ⟨heq, hkind, hconfig⟩ := hfields.mp hread
    exact ⟨heq, hkind, hconfig⟩
  · rintro ⟨heq, hkind, hconfig⟩
    exact Source.ofDraft?_eq_some.mpr ⟨_, _, _, hslots, hfields.mpr ⟨heq, hkind, hconfig⟩⟩

namespace TransformStep

/-- Of the steps only a filter holds a value of any kind. -/
def Lasts : TransformStep → Prop
  | .filter _ _ expected => expected.Plain
  | .aggregation _ _ | .sort _ _ | .limit _ | .unknown => True

section

variable {d : Draft}

theorem recovers_aggregation {names : List String} {functions : Fields Aggregate}
    (h : (toJson (.aggregation names functions)).StandsFor d) :
    ofDraft? d = some (.aggregation names functions) ↔
      d = ofJson (toJson (.aggregation names functions)) := by
  have hwritten : toJson (.aggregation names functions)
      = .object (("type", .string "aggregation") :: present
        [("group_by", some (.array (names.map .string))),
          ("aggregations", some (Json.ofFields (functions.map Aggregate.toJson)))]) := rfl
  obtain ⟨_, htag, hcontent, hrest⟩ := exists_tagged hwritten rfl h
  obtain ⟨_, hslots, ⟨first, _, rfl, hnames, second, _, rfl, hfunctions, rfl⟩, hwhole⟩ :=
    exists_slots rfl rfl hcontent
  have hfields := and_iff_cons_of_lasts (recovers_string.list.orElse [] hnames)
      (fun _ _ => trivial) <|
    iff_singleton (Aggregate.recovers.fields.orElse ∅ hfunctions)
  rw [ofDraft?_aggregation htag, hrest, hwhole]
  constructor
  · intro hread
    obtain ⟨_, _, _, _, hslots', hfirst, hsecond, heq⟩ := readAggregation?_eq_some.mp hread
    cases hslots.symm.trans hslots'
    cases heq
    exact (hfields.mp ⟨hfirst, hsecond⟩).1
  · intro heq
    obtain ⟨hfirst, hsecond⟩ := hfields.mpr ⟨heq, fun _ _ => trivial⟩
    exact readAggregation?_eq_some.mpr ⟨_, _, _, _, hslots, hfirst, hsecond, rfl⟩

theorem recovers_filter {field : String} {operator : FilterOperator} {expected : Json}
    (h : (toJson (.filter field operator expected)).StandsFor d) :
    ofDraft? d = some (.filter field operator expected) ↔
      d = ofJson (toJson (.filter field operator expected)) ∧ expected.Plain := by
  have hwritten : toJson (.filter field operator expected)
      = .object (("type", .string "filter") :: present
        [("field", some (.string field)), ("operator", some operator.toJson),
          ("value", some (id expected))]) := rfl
  obtain ⟨_, htag, hcontent, hrest⟩ := exists_tagged hwritten rfl h
  obtain ⟨_, hslots, ⟨first, _, rfl, hfield, second, _, rfl, hoperator, third, _, rfl, hexpected,
    rfl⟩, hwhole⟩ := exists_slots rfl rfl hcontent
  have hfields := and_iff_cons_of_lasts (recovers_string.required hfield) trivial <|
    and_iff_cons_of_lasts (FilterOperator.recovers.required hoperator) trivial <|
    iff_singleton (recovers_any.required hexpected)
  rw [ofDraft?_filter htag, hrest, hwhole]
  constructor
  · intro hread
    obtain ⟨_, _, _, _, _, _, hslots', hfirst, hsecond, hthird, heq⟩ :=
      readFilter?_eq_some.mp hread
    cases hslots.symm.trans hslots'
    cases heq
    exact hfields.mp ⟨hfirst, hsecond, hthird⟩
  · intro hlasts
    obtain ⟨hfirst, hsecond, hthird⟩ := hfields.mpr hlasts
    exact readFilter?_eq_some.mpr ⟨_, _, _, _, _, _, hslots, hfirst, hsecond, hthird, rfl⟩

theorem recovers_sort {field : String} {ascending : Bool}
    (h : (toJson (.sort field ascending)).StandsFor d) :
    ofDraft? d = some (.sort field ascending) ↔ d = ofJson (toJson (.sort field ascending)) := by
  have hwritten : toJson (.sort field ascending)
      = .object (("type", .string "sort") :: present
        [("field", some (.string field)), ("ascending", some (.bool ascending))]) := rfl
  obtain ⟨_, htag, hcontent, hrest⟩ := exists_tagged hwritten rfl h
  obtain ⟨_, hslots, ⟨first, _, rfl, hfield, second, _, rfl, hascending, rfl⟩, hwhole⟩ :=
    exists_slots rfl rfl hcontent
  have hfields := and_iff_cons_of_lasts (recovers_string.required hfield) trivial <|
    iff_singleton (recovers_bool.orElse true hascending)
  rw [ofDraft?_sort htag, hrest, hwhole]
  constructor
  · intro hread
    obtain ⟨_, _, _, _, hslots', hfirst, hsecond, heq⟩ := readSort?_eq_some.mp hread
    cases hslots.symm.trans hslots'
    cases heq
    exact (hfields.mp ⟨hfirst, hsecond⟩).1
  · intro heq
    obtain ⟨hfirst, hsecond⟩ := hfields.mpr ⟨heq, trivial⟩
    exact readSort?_eq_some.mpr ⟨_, _, _, _, hslots, hfirst, hsecond, rfl⟩

/-- The count of a limit has two more names, none of which is written. -/
theorem exists_countSlot {v : Json} (h : (Json.object (present [("n", some v)])).StandsFor d) :
    ∃ slot, d.slots? [["n", "count", "limit"]] = some [slot] ∧ Slot.StandsFor (some v) slot ∧
      (d = ofJson (.object (present [("n", some v)])) ↔ [slot] = [Slot.ofMember (some v)]) := by
  obtain ⟨_, rfl, w, _, rfl, hw, rfl⟩ := h
  refine ⟨.filled w, rfl, ⟨w, rfl, hw⟩, ?_⟩
  have hwritten : ofJson (.object (present [("n", some v)])) = .object [("n", ofJson v)] := rfl
  rw [hwritten, Draft.object.injEq, List.singleton_inj, List.singleton_inj, Prod.mk.injEq,
    Slot.ofMember, Slot.filled.injEq, and_iff_right rfl]

theorem recovers_limit {count : UInt64} (h : (toJson (.limit count)).StandsFor d) :
    ofDraft? d = some (.limit count) ↔ d = ofJson (toJson (.limit count)) := by
  have hwritten : toJson (.limit count)
      = .object (("type", .string "limit") :: present [("n", some (word64Json count))]) := rfl
  obtain ⟨_, htag, hcontent, hrest⟩ := exists_tagged hwritten rfl h
  obtain ⟨_, hslots, hcount, hwhole⟩ := exists_countSlot hcontent
  have hfields := iff_singleton (recovers_word64.required hcount)
  rw [ofDraft?_limit htag, hrest, hwhole]
  constructor
  · intro hread
    obtain ⟨_, _, hslots', hfirst, heq⟩ := readLimit?_eq_some.mp hread
    cases hslots.symm.trans hslots'
    cases heq
    exact (hfields.mp hfirst).1
  · intro heq
    exact readLimit?_eq_some.mpr ⟨_, _, hslots, hfields.mpr ⟨heq, trivial⟩, rfl⟩

end

theorem recovers : Recovers ofDraft? toJson Lasts := by
  intro d step h
  cases step with
  | aggregation names functions => exact (recovers_aggregation h).trans (and_iff_left trivial).symm
  | filter field operator expected => exact recovers_filter h
  | sort field ascending => exact (recovers_sort h).trans (and_iff_left trivial).symm
  | limit count => exact (recovers_limit h).trans (and_iff_left trivial).symm
  | unknown =>
    obtain ⟨_, rfl, _, _, rfl, rfl, rfl⟩ := h
    exact iff_of_true rfl ⟨rfl, trivial⟩

end TransformStep

structure QueryConfig.Lasts (config : QueryConfig) : Prop where
  parameters : PlainFields config.parameters
  filters : PlainFields config.filters
  transformations : ∀ step ∈ config.transformations, step.Lasts

theorem QueryConfig.recovers :
    Recovers QueryConfig.ofDraft? QueryConfig.toJson QueryConfig.Lasts := by
  intro d config h
  have hwritten : config.toJson = .object (present
      [("query", config.query.map .string), ("parameters", some (Json.ofFields config.parameters)),
        ("filters", some (Json.ofFields config.filters)),
        ("transformations", some (.array (config.transformations.map TransformStep.toJson)))]) := by
    unfold QueryConfig.toJson
    cases config.query <;> rfl
  obtain ⟨_, hslots, ⟨query, _, rfl, hquery, parameters, _, rfl, hparameters, filters, _, rfl,
    hfilters, steps, _, rfl, hsteps, rfl⟩, hwhole⟩ := exists_slots hwritten rfl h
  have hfields := and_iff_cons_of_lasts (recovers_string.present nofun hquery)
      (fun _ _ => trivial) <|
    and_iff_cons (recovers_anyFields.orElse ∅ hparameters) <|
    and_iff_cons (recovers_anyFields.orElse ∅ hfilters) <|
    iff_singleton (TransformStep.recovers.list.orElse [] hsteps)
  rw [hwhole]
  constructor
  · intro hread
    obtain ⟨_, _, _, _, hslots', hread⟩ := QueryConfig.ofDraft?_eq_some.mp hread
    cases hslots.symm.trans hslots'
    obtain ⟨heq, hparameters, hfilters, hsteps⟩ := hfields.mp hread
    exact ⟨heq, hparameters, hfilters, hsteps⟩
  · rintro ⟨heq, hparameters, hfilters, hsteps⟩
    exact QueryConfig.ofDraft?_eq_some.mpr ⟨_, _, _, _, hslots,
      hfields.mpr ⟨heq, hparameters, hfilters, hsteps⟩⟩

structure ChartSpec.Lasts (spec : ChartSpec) : Prop where
  type : ChartType.ofTag spec.type.tag = spec.type
  options : PlainFields spec.options

theorem ChartSpec.recovers : Recovers ChartSpec.ofDraft? ChartSpec.toJson ChartSpec.Lasts := by
  intro d spec h
  have hwritten : spec.toJson = .object (present
      [("name", some (.string spec.name)), ("type", some spec.type.toJson),
        ("title", spec.title.map .string), ("options", some (Json.ofFields spec.options))]) := by
    unfold ChartSpec.toJson
    cases spec.title <;> rfl
  obtain ⟨_, hslots, ⟨name, _, rfl, hname, type, _, rfl, htype, title, _, rfl, htitle, options, _,
    rfl, hoptions, rfl⟩, hwhole⟩ := exists_slots hwritten rfl h
  have hfields := and_iff_cons_of_lasts (recovers_string.required hname) trivial <|
    and_iff_cons (ChartType.recovers.required htype) <|
    and_iff_cons_of_lasts (recovers_string.present nofun htitle) (fun _ _ => trivial) <|
    iff_singleton (recovers_anyFields.orElse ∅ hoptions)
  rw [hwhole]
  constructor
  · intro hread
    obtain ⟨_, _, _, _, hslots', hread⟩ := ChartSpec.ofDraft?_eq_some.mp hread
    cases hslots.symm.trans hslots'
    obtain ⟨heq, htype, hoptions⟩ := hfields.mp hread
    exact ⟨heq, htype, hoptions⟩
  · rintro ⟨heq, htype, hoptions⟩
    exact ChartSpec.ofDraft?_eq_some.mpr ⟨_, _, _, _, hslots,
      hfields.mpr ⟨heq, htype, hoptions⟩⟩

theorem ChartList.recovers : Recovers ChartList.ofDraft? ChartList.toJson
    fun list => ∀ chart ∈ list.charts, chart.Lasts := by
  intro d list h
  have hwritten : list.toJson = .object (present
      [("charts", some (.array (list.charts.map ChartSpec.toJson)))]) := rfl
  obtain ⟨_, hslots, ⟨charts, _, rfl, hcharts, rfl⟩, hwhole⟩ := exists_slots hwritten rfl h
  have hfields := iff_singleton (ChartSpec.recovers.list.orElse [] hcharts)
  rw [hwhole]
  constructor
  · intro hread
    obtain ⟨_, hslots', hread⟩ := ChartList.ofDraft?_eq_some.mp hread
    cases hslots.symm.trans hslots'
    exact hfields.mp hread
  · intro hlasts
    exact ChartList.ofDraft?_eq_some.mpr ⟨_, hslots, hfields.mpr hlasts⟩

/-! ## Reports and executions -/

/-- A payload is read back if it is a plain value and not `null`. -/
def PayloadLasts (payload : Option Json) : Prop := ∀ v ∈ payload, v ≠ .null ∧ v.Plain

theorem recovers_payload :
    Recovers (Slot.nullable readAny?) (Json.ofOption id) PayloadLasts :=
  recovers_any.nullable

/-- An instant that may be missing. -/
def MomentLasts (moment : Option Instant) : Prop := ∀ t ∈ moment, t.Regular

theorem recovers_moment :
    Recovers (Slot.nullable Instant.ofDraft?) (Json.ofOption Instant.toJson) MomentLasts :=
  Instant.recovers.nullable_of_ne Instant.toJson_ne_null

theorem recovers_words :
    Recovers (Slot.nullable readString?) (Json.ofOption .string) fun _ => True := by
  intro d o h
  rw [recovers_string.nullable_of_ne nofun h]
  exact and_congr_right' (iff_of_true (fun _ _ => trivial) trivial)

structure Cache.Lasts (cache : Cache) : Prop where
  payload : PayloadLasts cache.payload
  cachedAt : MomentLasts cache.cachedAt

theorem Cache.recovers : Recovers Cache.ofDraft? Cache.toJson Cache.Lasts := by
  intro d cache h
  have hwritten : cache.toJson = .object (present
      [("payload", some (Json.ofOption id cache.payload)),
        ("cached_at", some (Json.ofOption Instant.toJson cache.cachedAt)),
        ("ttl_minutes", some (word32Json cache.ttlMinutes))]) := rfl
  obtain ⟨_, hslots, ⟨payload, _, rfl, hpayload, cachedAt, _, rfl, hcachedAt, ttl, _, rfl, httl,
    rfl⟩, hwhole⟩ := exists_slots hwritten rfl h
  have hfields := and_iff_cons (recovers_payload.orNone hpayload) <|
    and_iff_cons (recovers_moment.orNone hcachedAt) <|
    iff_singleton (recovers_word32.orElse 60 httl)
  rw [hwhole]
  constructor
  · intro hread
    obtain ⟨_, _, _, hslots', hread⟩ := Cache.ofDraft?_eq_some.mp hread
    cases hslots.symm.trans hslots'
    obtain ⟨heq, hpayload, hcachedAt, -⟩ := hfields.mp hread
    exact ⟨heq, hpayload, hcachedAt⟩
  · rintro ⟨heq, hpayload, hcachedAt⟩
    exact Cache.ofDraft?_eq_some.mpr ⟨_, _, _, hslots,
      hfields.mpr ⟨heq, hpayload, hcachedAt, trivial⟩⟩

theorem Schedule.recovers : Recovers Schedule.ofDraft? Schedule.toJson fun _ => True := by
  intro d schedule h
  have hwritten : schedule.toJson = .object (present
      [("interval_minutes", some (word32Json schedule.intervalMinutes)),
        ("enabled", some (.bool schedule.enabled))]) := rfl
  obtain ⟨_, hslots, ⟨interval, _, rfl, hinterval, enabled, _, rfl, henabled, rfl⟩, hwhole⟩ :=
    exists_slots hwritten rfl h
  have hfields := and_iff_cons_of_lasts (recovers_word32.required hinterval) trivial <|
    iff_singleton (recovers_bool.orElse true henabled)
  rw [hwhole]
  constructor
  · intro hread
    obtain ⟨_, _, hslots', hread⟩ := Schedule.ofDraft?_eq_some.mp hread
    cases hslots.symm.trans hslots'
    exact hfields.mp hread
  · intro hlasts
    exact Schedule.ofDraft?_eq_some.mpr ⟨_, _, hslots, hfields.mpr hlasts⟩

structure Report.Lasts (report : Report) : Prop where
  sources : ∀ source ∈ report.sources, source.Lasts
  query : report.query.Lasts
  charts : ∀ chart ∈ report.charts.charts, chart.Lasts
  formats : ∀ format ∈ report.formats, OutputFormat.ofTag format.tag = format
  cache : report.cache.Lasts
  lastScheduledAt : MomentLasts report.lastScheduledAt

theorem Report.recovers {fresh : Uuid} :
    Recovers (Report.ofDraft? fresh) Report.toJson Report.Lasts := by
  intro d report h
  have hwritten : report.toJson = .object (present
      [("id", some report.id.toJson), ("name", some (.string report.name)),
        ("data_sources", some (.array (report.sources.map Source.toJson))),
        ("query_config", some report.query.toJson),
        ("visualization_config", some report.charts.toJson),
        ("output_formats", some (.array (report.formats.map OutputFormat.toJson))),
        ("cache", some report.cache.toJson), ("schedule", report.schedule.map Schedule.toJson),
        ("last_scheduled_at", report.lastScheduledAt.map Instant.toJson)]) := by
    unfold Report.toJson
    cases report.schedule <;> cases report.lastScheduledAt <;> rfl
  obtain ⟨_, hslots, ⟨id, _, rfl, hid, name, _, rfl, hname, sources, _, rfl, hsources, query, _,
    rfl, hquery, charts, _, rfl, hcharts, formats, _, rfl, hformats, cache, _, rfl, hcache,
    schedule, _, rfl, hschedule, last, _, rfl, hlast, rfl⟩, hwhole⟩ := exists_slots hwritten rfl h
  have hfields := and_iff_cons_of_lasts (Id.recovers.orElse ⟨fresh⟩ hid) trivial <|
    and_iff_cons_of_lasts (recovers_string.required hname) trivial <|
    and_iff_cons (Source.recovers.list.orElse [] hsources) <|
    and_iff_cons (QueryConfig.recovers.orElse .empty hquery) <|
    and_iff_cons (ChartList.recovers.orElse ⟨[]⟩ hcharts) <|
    and_iff_cons (OutputFormat.recovers.list.orElse [] hformats) <|
    and_iff_cons (Cache.recovers.orElse .new hcache) <|
    and_iff_cons_of_lasts (Schedule.recovers.present nofun hschedule) (fun _ _ => trivial) <|
    iff_singleton (Instant.recovers.present Instant.toJson_ne_null hlast)
  rw [hwhole]
  constructor
  · intro hread
    obtain ⟨_, _, _, _, _, _, _, _, _, hslots', hread⟩ := Report.ofDraft?_eq_some.mp hread
    cases hslots.symm.trans hslots'
    obtain ⟨heq, hsources, hquery, hcharts, hformats, hcache, hlast⟩ := hfields.mp hread
    exact ⟨heq, hsources, hquery, hcharts, hformats, hcache, hlast⟩
  · rintro ⟨heq, hsources, hquery, hcharts, hformats, hcache, hlast⟩
    exact Report.ofDraft?_eq_some.mpr ⟨_, _, _, _, _, _, _, _, _, hslots,
      hfields.mpr ⟨heq, hsources, hquery, hcharts, hformats, hcache, hlast⟩⟩

theorem Artifact.recovers : Recovers Artifact.ofDraft? Artifact.toJson
    fun artifact => OutputFormat.ofTag artifact.format.tag = artifact.format := by
  intro d artifact h
  have hwritten : artifact.toJson = .object (present
      [("format", some artifact.format.toJson), ("filename", some (.string artifact.filename)),
        ("path", some (.string artifact.path)), ("size_bytes", some (word64Json artifact.size)),
        ("checksum", some (.string artifact.checksum))]) := rfl
  obtain ⟨_, hslots, ⟨format, _, rfl, hformat, filename, _, rfl, hfilename, path, _, rfl, hpath,
    size, _, rfl, hsize, checksum, _, rfl, hchecksum, rfl⟩, hwhole⟩ := exists_slots hwritten rfl h
  have hfields := and_iff_cons (OutputFormat.recovers.required hformat) <|
    and_iff_cons_of_lasts (recovers_string.required hfilename) trivial <|
    and_iff_cons_of_lasts (recovers_string.required hpath) trivial <|
    and_iff_cons_of_lasts (recovers_word64.required hsize) trivial <|
    iff_singleton (recovers_string.required hchecksum)
  rw [hwhole]
  constructor
  · intro hread
    obtain ⟨_, _, _, _, _, hslots', hread⟩ := Artifact.ofDraft?_eq_some.mp hread
    cases hslots.symm.trans hslots'
    obtain ⟨heq, hformat, -⟩ := hfields.mp hread
    exact ⟨heq, hformat⟩
  · rintro ⟨heq, hformat⟩
    exact Artifact.ofDraft?_eq_some.mpr ⟨_, _, _, _, _, hslots,
      hfields.mpr ⟨heq, hformat, trivial⟩⟩

structure Execution.Lasts (e : Execution) : Prop where
  createdAt : e.createdAt.Regular
  startedAt : MomentLasts e.startedAt
  completedAt : MomentLasts e.completedAt
  payload : PayloadLasts e.payload
  artifacts : ∀ artifact ∈ e.artifacts, OutputFormat.ofTag artifact.format.tag = artifact.format

theorem Execution.recovers : Recovers Execution.ofDraft? Execution.toJson Execution.Lasts := by
  intro d e h
  have hwritten : e.toJson = .object (present
      [("id", some e.id.toJson), ("report_id", some e.reportId.toJson),
        ("status", some e.status.toJson), ("trigger_type", some e.trigger.toJson),
        ("created_at", some e.createdAt.toJson),
        ("started_at", some (Json.ofOption Instant.toJson e.startedAt)),
        ("completed_at", some (Json.ofOption Instant.toJson e.completedAt)),
        ("duration_ms", some (Json.ofOption word64Json e.durationMs)),
        ("result_payload", some (Json.ofOption (fun v => v) e.payload)),
        ("output_artifacts", some (.array (e.artifacts.map Artifact.toJson))),
        ("error", some (Json.ofOption .string e.error))]) := rfl
  obtain ⟨_, hslots, ⟨id, _, rfl, hid, report, _, rfl, hreport, status, _, rfl, hstatus, trigger,
    _, rfl, htrigger, created, _, rfl, hcreated, started, _, rfl, hstarted, completed, _, rfl,
    hcompleted, duration, _, rfl, hduration, payload, _, rfl, hpayload, artifacts, _, rfl,
    hartifacts, error, _, rfl, herror, rfl⟩, hwhole⟩ := exists_slots hwritten rfl h
  have hfields := and_iff_cons_of_lasts (Id.recovers.required hid) trivial <|
    and_iff_cons_of_lasts (Id.recovers.required hreport) trivial <|
    and_iff_cons_of_lasts (ExecutionStatus.recovers.required hstatus) trivial <|
    and_iff_cons_of_lasts (Trigger.recovers.required htrigger) trivial <|
    and_iff_cons (Instant.recovers.required hcreated) <|
    and_iff_cons (recovers_moment.optional hstarted) <|
    and_iff_cons (recovers_moment.optional hcompleted) <|
    and_iff_cons_of_lasts
      ((recovers_word64.nullable_of_ne word64Json_ne_null).optional hduration)
      (fun _ _ => trivial) <|
    and_iff_cons (recovers_payload.optional hpayload) <|
    and_iff_cons (Artifact.recovers.list.orElse [] hartifacts) <|
    iff_singleton (recovers_words.optional herror)
  rw [hwhole]
  constructor
  · intro hread
    obtain ⟨_, _, _, _, _, _, _, _, _, _, _, hslots', hread⟩ := Execution.ofDraft?_eq_some.mp hread
    cases hslots.symm.trans hslots'
    obtain ⟨heq, hcreated, hstarted, hcompleted, hpayload, hartifacts, -⟩ := hfields.mp hread
    exact ⟨heq, hcreated, hstarted, hcompleted, hpayload, hartifacts⟩
  · rintro ⟨heq, hcreated, hstarted, hcompleted, hpayload, hartifacts⟩
    exact Execution.ofDraft?_eq_some.mpr ⟨_, _, _, _, _, _, _, _, _, _, _, hslots,
      hfields.mpr ⟨heq, hcreated, hstarted, hcompleted, hpayload, hartifacts, trivial⟩⟩

/-! ## Dashboards and widgets -/

theorem Dashboard.recovers {fresh : Uuid} :
    Recovers (Dashboard.ofDraft? fresh) Dashboard.toJson fun _ => True := by
  intro d dashboard h
  have hwritten : dashboard.toJson = .object (present
      [("id", some dashboard.id.toJson), ("name", some (.string dashboard.name)),
        ("widget_ids", some (.array (dashboard.widgetIds.map Id.toJson)))]) := rfl
  obtain ⟨_, hslots, ⟨id, _, rfl, hid, name, _, rfl, hname, widgets, _, rfl, hwidgets, rfl⟩,
    hwhole⟩ := exists_slots hwritten rfl h
  have hfields := and_iff_cons_of_lasts (Id.recovers.orElse ⟨fresh⟩ hid) trivial <|
    and_iff_cons_of_lasts (recovers_string.required hname) trivial <|
    iff_singleton (Id.recovers.list.orElse [] hwidgets)
  rw [hwhole]
  constructor
  · intro hread
    obtain ⟨_, _, _, hslots', hread⟩ := Dashboard.ofDraft?_eq_some.mp hread
    cases hslots.symm.trans hslots'
    exact ⟨(hfields.mp hread).1, trivial⟩
  · rintro ⟨heq, -⟩
    exact Dashboard.ofDraft?_eq_some.mpr ⟨_, _, _, hslots, hfields.mpr ⟨heq, fun _ _ => trivial⟩⟩

theorem WidgetPosition.recovers :
    Recovers WidgetPosition.ofDraft? WidgetPosition.toJson fun _ => True := by
  intro d position h
  have hwritten : position.toJson = .object (present
      [("x", some (word32Json position.x)), ("y", some (word32Json position.y)),
        ("width", some (word32Json position.width)),
        ("height", some (word32Json position.height))]) := rfl
  obtain ⟨_, hslots, ⟨x, _, rfl, hx, y, _, rfl, hy, width, _, rfl, hwidth, height, _, rfl, hheight,
    rfl⟩, hwhole⟩ := exists_slots hwritten rfl h
  have hfields := and_iff_cons_of_lasts (recovers_word32.required hx) trivial <|
    and_iff_cons_of_lasts (recovers_word32.required hy) trivial <|
    and_iff_cons_of_lasts (recovers_word32.required hwidth) trivial <|
    iff_singleton (recovers_word32.required hheight)
  rw [hwhole]
  constructor
  · intro hread
    obtain ⟨_, _, _, _, hslots', hread⟩ := WidgetPosition.ofDraft?_eq_some.mp hread
    cases hslots.symm.trans hslots'
    exact hfields.mp hread
  · intro hlasts
    exact WidgetPosition.ofDraft?_eq_some.mpr ⟨_, _, _, _, hslots, hfields.mpr hlasts⟩

structure Widget.Lasts (widget : Widget) : Prop where
  source : widget.source.Lasts
  query : widget.query.Lasts
  chart : widget.chart.Lasts
  cache : widget.cache.Lasts

theorem Widget.recovers {fresh : Uuid} :
    Recovers (Widget.ofDraft? fresh) Widget.toJson Widget.Lasts := by
  intro d widget h
  have hwritten : widget.toJson = .object (present
      [("id", some widget.id.toJson), ("dashboard_id", some widget.dashboardId.toJson),
        ("title", some (.string widget.title)), ("position", some widget.position.toJson),
        ("data_source", some widget.source.toJson), ("query_config", some widget.query.toJson),
        ("chart", some widget.chart.toJson), ("cache", some widget.cache.toJson)]) := rfl
  obtain ⟨_, hslots, ⟨id, _, rfl, hid, dashboard, _, rfl, hdashboard, title, _, rfl, htitle,
    position, _, rfl, hposition, source, _, rfl, hsource, query, _, rfl, hquery, chart, _, rfl,
    hchart, cache, _, rfl, hcache, rfl⟩, hwhole⟩ := exists_slots hwritten rfl h
  have hfields := and_iff_cons_of_lasts (Id.recovers.orElse ⟨fresh⟩ hid) trivial <|
    and_iff_cons_of_lasts (Id.recovers.required hdashboard) trivial <|
    and_iff_cons_of_lasts (recovers_string.required htitle) trivial <|
    and_iff_cons_of_lasts (WidgetPosition.recovers.orElse .zero hposition) trivial <|
    and_iff_cons (Source.recovers.required hsource) <|
    and_iff_cons (QueryConfig.recovers.orElse .empty hquery) <|
    and_iff_cons (ChartSpec.recovers.required hchart) <|
    iff_singleton (Cache.recovers.orElse .new hcache)
  rw [hwhole]
  constructor
  · intro hread
    obtain ⟨_, _, _, _, _, _, _, _, hslots', hread⟩ := Widget.ofDraft?_eq_some.mp hread
    cases hslots.symm.trans hslots'
    obtain ⟨heq, hsource, hquery, hchart, hcache⟩ := hfields.mp hread
    exact ⟨heq, hsource, hquery, hchart, hcache⟩
  · rintro ⟨heq, hsource, hquery, hchart, hcache⟩
    exact Widget.ofDraft?_eq_some.mpr ⟨_, _, _, _, _, _, _, _, hslots,
      hfields.mpr ⟨heq, hsource, hquery, hchart, hcache⟩⟩

/-! ## Rules and alerts -/

theorem Condition.recovers : Recovers Condition.ofDraft? Condition.toJson
    fun condition => condition.threshold.isFinite = true := by
  intro d condition h
  have hwritten : condition.toJson = .object (present
      [("threshold_value", some (.real condition.threshold)),
        ("comparison_operator", some condition.comparison.toJson)]) := rfl
  obtain ⟨_, hslots, ⟨threshold, _, rfl, hthreshold, comparison, _, rfl, hcomparison, rfl⟩,
    hwhole⟩ := exists_slots hwritten rfl h
  have hfields := and_iff_cons (recovers_real.required hthreshold) <|
    iff_singleton (Comparison.recovers.required hcomparison)
  rw [hwhole]
  constructor
  · intro hread
    obtain ⟨_, _, hslots', hread⟩ := Condition.ofDraft?_eq_some.mp hread
    cases hslots.symm.trans hslots'
    obtain ⟨heq, hthreshold, -⟩ := hfields.mp hread
    exact ⟨heq, hthreshold⟩
  · rintro ⟨heq, hthreshold⟩
    exact Condition.ofDraft?_eq_some.mpr ⟨_, _, hslots, hfields.mpr ⟨heq, hthreshold, trivial⟩⟩

namespace Channel

variable {d : Draft}

theorem recovers_email {recipients : List String} (h : (toJson (.email recipients)).StandsFor d) :
    ofDraft? d = some (.email recipients) ↔ d = ofJson (toJson (.email recipients)) := by
  have hwritten : toJson (.email recipients) = .object (("type", .string "email") ::
      present [("recipients", some (.array (recipients.map .string)))]) := rfl
  obtain ⟨_, htag, hcontent, hrest⟩ := exists_tagged hwritten rfl h
  obtain ⟨_, hslots, ⟨slot, _, rfl, hrecipients, rfl⟩, hwhole⟩ := exists_slots rfl rfl hcontent
  have hfields := iff_singleton (recovers_string.list.required hrecipients)
  rw [ofDraft?_email htag, hrest, hwhole]
  constructor
  · rintro ⟨_, hslots', hread⟩
    cases hslots.symm.trans hslots'
    exact (hfields.mp hread).1
  · intro heq
    exact ⟨_, hslots, hfields.mpr ⟨heq, fun _ _ => trivial⟩⟩

theorem recovers_webhook {url : String} {headers : Fields String}
    (h : (toJson (.webhook url headers)).StandsFor d) :
    ofDraft? d = some (.webhook url headers) ↔ d = ofJson (toJson (.webhook url headers)) := by
  have hwritten : toJson (.webhook url headers) = .object (("type", .string "webhook") ::
      present [("url", some (.string url)),
        ("headers", some (Json.ofFields (headers.map .string)))]) := rfl
  obtain ⟨_, htag, hcontent, hrest⟩ := exists_tagged hwritten rfl h
  obtain ⟨_, hslots, ⟨first, _, rfl, hurl, second, _, rfl, hheaders, rfl⟩, hwhole⟩ :=
    exists_slots rfl rfl hcontent
  have hfields := and_iff_cons_of_lasts (recovers_string.required hurl) trivial <|
    iff_singleton (recovers_string.fields.orElse ∅ hheaders)
  rw [ofDraft?_webhook htag, hrest, hwhole]
  constructor
  · rintro ⟨_, _, hslots', hread⟩
    cases hslots.symm.trans hslots'
    exact (hfields.mp hread).1
  · intro heq
    exact ⟨_, _, hslots, hfields.mpr ⟨heq, fun _ _ => trivial⟩⟩

theorem recovers_slack {url : String} {room : Option String}
    (h : (toJson (.slack url room)).StandsFor d) :
    ofDraft? d = some (.slack url room) ↔ d = ofJson (toJson (.slack url room)) := by
  have hwritten : toJson (.slack url room) = .object (("type", .string "slack") ::
      present [("webhook_url", some (.string url)), ("channel", room.map .string)]) := by
    unfold toJson
    cases room <;> rfl
  obtain ⟨_, htag, hcontent, hrest⟩ := exists_tagged hwritten rfl h
  obtain ⟨_, hslots, ⟨first, _, rfl, hurl, second, _, rfl, hroom, rfl⟩, hwhole⟩ :=
    exists_slots rfl rfl hcontent
  have hfields := and_iff_cons_of_lasts (recovers_string.required hurl) trivial <|
    iff_singleton (recovers_string.present nofun hroom)
  rw [ofDraft?_slack htag, hrest, hwhole]
  constructor
  · rintro ⟨_, _, hslots', hread⟩
    cases hslots.symm.trans hslots'
    exact (hfields.mp hread).1
  · intro heq
    exact ⟨_, _, hslots, hfields.mpr ⟨heq, fun _ _ => trivial⟩⟩

theorem recovers : Recovers ofDraft? toJson fun _ => True := by
  intro d channel h
  cases channel with
  | email recipients => exact (recovers_email h).trans (and_iff_left trivial).symm
  | webhook url headers => exact (recovers_webhook h).trans (and_iff_left trivial).symm
  | slack url room => exact (recovers_slack h).trans (and_iff_left trivial).symm
  | unsupported =>
    obtain ⟨_, rfl, _, _, rfl, rfl, rfl⟩ := h
    exact iff_of_true rfl ⟨rfl, trivial⟩

end Channel

structure AlertRule.Lasts (rule : AlertRule) : Prop where
  source : rule.source.Lasts
  parameters : PlainFields rule.parameters
  threshold : rule.condition.threshold.isFinite = true
  lastEvaluatedAt : MomentLasts rule.lastEvaluatedAt

theorem AlertRule.recovers {fresh : Uuid} :
    Recovers (AlertRule.ofDraft? fresh) AlertRule.toJson AlertRule.Lasts := by
  intro d rule h
  have hwritten : rule.toJson = .object (present
      [("id", some rule.id.toJson), ("name", some (.string rule.name)),
        ("data_source", some rule.source.toJson), ("query", rule.query.map .string),
        ("parameters", some (Json.ofFields rule.parameters)),
        ("metric_field", rule.metricField.map .string), ("condition", some rule.condition.toJson),
        ("severity", some rule.severity.toJson),
        ("evaluation_interval_minutes", some (word32Json rule.intervalMinutes)),
        ("enabled", some (.bool rule.enabled)),
        ("last_evaluated_at", some (Json.ofOption Instant.toJson rule.lastEvaluatedAt)),
        ("notification_config", some (.array (rule.channels.map Channel.toJson)))]) := by
    unfold AlertRule.toJson
    cases rule.query <;> cases rule.metricField <;> rfl
  obtain ⟨_, hslots, ⟨id, _, rfl, hid, name, _, rfl, hname, source, _, rfl, hsource, query, _, rfl,
    hquery, parameters, _, rfl, hparameters, field, _, rfl, hfield, condition, _, rfl, hcondition,
    severity, _, rfl, hseverity, interval, _, rfl, hinterval, enabled, _, rfl, henabled, last, _,
    rfl, hlast, channels, _, rfl, hchannels, rfl⟩, hwhole⟩ := exists_slots hwritten rfl h
  have hfields := and_iff_cons_of_lasts (Id.recovers.orElse ⟨fresh⟩ hid) trivial <|
    and_iff_cons_of_lasts (recovers_string.required hname) trivial <|
    and_iff_cons (Source.recovers.required hsource) <|
    and_iff_cons_of_lasts (recovers_string.present nofun hquery) (fun _ _ => trivial) <|
    and_iff_cons (recovers_anyFields.orElse ∅ hparameters) <|
    and_iff_cons_of_lasts (recovers_string.present nofun hfield) (fun _ _ => trivial) <|
    and_iff_cons (Condition.recovers.required hcondition) <|
    and_iff_cons_of_lasts (Severity.recovers.orElse .warning hseverity) trivial <|
    and_iff_cons_of_lasts (recovers_word32.orElse 5 hinterval) trivial <|
    and_iff_cons_of_lasts (recovers_bool.orElse true henabled) trivial <|
    and_iff_cons (recovers_moment.orNone hlast) <|
    iff_singleton (Channel.recovers.list.orElse [] hchannels)
  rw [hwhole]
  constructor
  · intro hread
    obtain ⟨_, _, _, _, _, _, _, _, _, _, _, _, hslots', hread⟩ :=
      AlertRule.ofDraft?_eq_some.mp hread
    cases hslots.symm.trans hslots'
    obtain ⟨heq, hsource, hparameters, hcondition, hlast, -⟩ := hfields.mp hread
    exact ⟨heq, hsource, hparameters, hcondition, hlast⟩
  · rintro ⟨heq, hsource, hparameters, hcondition, hlast⟩
    exact AlertRule.ofDraft?_eq_some.mpr ⟨_, _, _, _, _, _, _, _, _, _, _, _, hslots,
      hfields.mpr ⟨heq, hsource, hparameters, hcondition, hlast, fun _ _ => trivial⟩⟩

structure Alert.Lasts (alert : Alert) : Prop where
  triggeredValue : alert.triggeredValue.isFinite = true
  threshold : alert.threshold.isFinite = true
  triggeredAt : alert.triggeredAt.Regular
  acknowledgedAt : MomentLasts alert.acknowledgedAt
  resolvedAt : MomentLasts alert.resolvedAt

theorem Alert.recovers : Recovers Alert.ofDraft? Alert.toJson Alert.Lasts := by
  intro d alert h
  have hwritten : alert.toJson = .object (present
      [("id", some alert.id.toJson), ("rule_id", some alert.ruleId.toJson),
        ("status", some alert.status.toJson), ("severity", some alert.severity.toJson),
        ("triggered_value", some (.real alert.triggeredValue)),
        ("threshold_value", some (.real alert.threshold)),
        ("message", some (.string alert.message)), ("triggered_at", some alert.triggeredAt.toJson),
        ("acknowledged_at", some (Json.ofOption Instant.toJson alert.acknowledgedAt)),
        ("acknowledged_by", some (Json.ofOption .string alert.acknowledgedBy)),
        ("resolved_at", some (Json.ofOption Instant.toJson alert.resolvedAt)),
        ("resolution_reason", some (Json.ofOption .string alert.resolutionReason)),
        ("auto_resolved", some (.bool alert.autoResolved))]) := rfl
  obtain ⟨_, hslots, ⟨id, _, rfl, hid, rule, _, rfl, hrule, status, _, rfl, hstatus, severity, _,
    rfl, hseverity, value, _, rfl, hvalue, threshold, _, rfl, hthreshold, message, _, rfl, hmessage,
    triggered, _, rfl, htriggered, acknowledged, _, rfl, hacknowledged, person, _, rfl, hperson,
    resolved, _, rfl, hresolved, reason, _, rfl, hreason, auto, _, rfl, hauto, rfl⟩, hwhole⟩ :=
    exists_slots hwritten rfl h
  have hfields := and_iff_cons_of_lasts (Id.recovers.required hid) trivial <|
    and_iff_cons_of_lasts (Id.recovers.required hrule) trivial <|
    and_iff_cons_of_lasts (AlertStatus.recovers.required hstatus) trivial <|
    and_iff_cons_of_lasts (Severity.recovers.required hseverity) trivial <|
    and_iff_cons (recovers_real.required hvalue) <|
    and_iff_cons (recovers_real.required hthreshold) <|
    and_iff_cons_of_lasts (recovers_string.required hmessage) trivial <|
    and_iff_cons (Instant.recovers.required htriggered) <|
    and_iff_cons (recovers_moment.orNone hacknowledged) <|
    and_iff_cons_of_lasts (recovers_words.orNone hperson) trivial <|
    and_iff_cons (recovers_moment.orNone hresolved) <|
    and_iff_cons_of_lasts (recovers_words.orNone hreason) trivial <|
    iff_singleton (recovers_bool.orElse false hauto)
  rw [hwhole]
  constructor
  · intro hread
    obtain ⟨_, _, _, _, _, _, _, _, _, _, _, _, _, hslots', hread⟩ :=
      Alert.ofDraft?_eq_some.mp hread
    cases hslots.symm.trans hslots'
    obtain ⟨heq, hvalue, hthreshold, htriggered, hacknowledged, hresolved, -⟩ := hfields.mp hread
    exact ⟨heq, hvalue, hthreshold, htriggered, hacknowledged, hresolved⟩
  · rintro ⟨heq, hvalue, hthreshold, htriggered, hacknowledged, hresolved⟩
    exact Alert.ofDraft?_eq_some.mpr ⟨_, _, _, _, _, _, _, _, _, _, _, _, _, hslots,
      hfields.mpr ⟨heq, hvalue, hthreshold, htriggered, hacknowledged, hresolved, trivial⟩⟩

/-! ## Entities -/

namespace EntityKind

/-- The entity is read back from what is written of it. -/
def Lasts : (kind : EntityKind) → kind.Entity → Prop
  | .report => Report.Lasts
  | .execution => Execution.Lasts
  | .dashboard => fun _ => True
  | .widget => Widget.Lasts
  | .rule => AlertRule.Lasts
  | .alert => Alert.Lasts

theorem recovers (kind : EntityKind) (fresh : Uuid) :
    Recovers (kind.ofDraft? fresh) kind.toJson kind.Lasts := by
  cases kind with
  | report => exact Report.recovers
  | execution => exact Execution.recovers
  | dashboard => exact Dashboard.recovers
  | widget => exact Widget.recovers
  | rule => exact AlertRule.recovers
  | alert => exact Alert.recovers

end EntityKind

end Bulletin
