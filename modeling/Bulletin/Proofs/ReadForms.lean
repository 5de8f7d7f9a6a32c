import Bulletin.Repository.Entity

/-!
# What a reader asks of the slots

A structured value is read if its slots can be read one by one. Each lemma of this module opens one
reader: it lists the fields with their names, says of each whether it must be there, may be left out
or may be `null`, and what it becomes. Nothing after this module opens a reader again.

A tagged value is read by its tag, so there the lemmas are about the readers of its variants.
-/

namespace Bulletin

open Draft

/-! ## Sources, queries and charts -/

theorem Source.ofDraft?_eq_some {v : Draft} {source : Source} :
    Source.ofDraft? v = some source ↔ ∃ name kind config,
      v.slots? [["name"], ["type"], ["config"]]
        = some [name, kind, config] ∧
      name.required readString? = some source.name ∧
      kind.required SourceKind.ofDraft? = some source.kind ∧
      config.orElse ∅ (readFields? readAny?) = some source.config := by
  constructor
  · intro h
    obtain ⟨_, hslots, h⟩ := Option.bind_eq_some_iff.mp h
    split at h
    · obtain ⟨_, hname, h⟩ := Option.bind_eq_some_iff.mp h
      obtain ⟨_, hkind, h⟩ := Option.bind_eq_some_iff.mp h
      obtain ⟨_, hconfig, h⟩ := Option.bind_eq_some_iff.mp h
      cases h
      exact ⟨_, _, _, hslots, hname, hkind, hconfig⟩
    · cases h
  · rintro ⟨_, _, _, hslots, hname, hkind, hconfig⟩
    simp only [ofDraft?, hslots, hname, hkind, hconfig, Option.bind_eq_bind, Option.bind_some]
    rfl

namespace TransformStep

theorem readAggregation?_eq_some {v : Draft} {step : TransformStep} :
    readAggregation? v = some step ↔ ∃ groupBy aggregations names functions,
      v.slots? [["group_by"], ["aggregations"]] = some [groupBy, aggregations] ∧
      groupBy.orElse [] (readList? readString?) = some names ∧
      aggregations.orElse ∅ (readFields? fun v => v.innerVariant?.bind Aggregate.ofName?)
        = some functions ∧
      step = .aggregation names functions := by
  constructor
  · intro h
    obtain ⟨_, hslots, h⟩ := Option.bind_eq_some_iff.mp h
    split at h
    · obtain ⟨_, hnames, h⟩ := Option.bind_eq_some_iff.mp h
      obtain ⟨_, hfunctions, h⟩ := Option.bind_eq_some_iff.mp h
      cases h
      exact ⟨_, _, _, _, hslots, hnames, hfunctions, rfl⟩
    · cases h
  · rintro ⟨_, _, _, _, hslots, hnames, hfunctions, rfl⟩
    simp only [readAggregation?, hslots, hnames, hfunctions, Option.bind_eq_bind, Option.bind_some]
    rfl

theorem readFilter?_eq_some {v : Draft} {step : TransformStep} :
    readFilter? v = some step ↔ ∃ field operator expected name comparison value,
      v.slots? [["field"], ["operator"], ["value"]] = some [field, operator, expected] ∧
      field.required readString? = some name ∧
      operator.required (fun v => v.innerVariant?.bind FilterOperator.ofName?) = some comparison ∧
      expected.required readAny? = some value ∧
      step = .filter name comparison value := by
  constructor
  · intro h
    obtain ⟨_, hslots, h⟩ := Option.bind_eq_some_iff.mp h
    split at h
    · obtain ⟨_, hname, h⟩ := Option.bind_eq_some_iff.mp h
      obtain ⟨_, hcomparison, h⟩ := Option.bind_eq_some_iff.mp h
      obtain ⟨_, hvalue, h⟩ := Option.bind_eq_some_iff.mp h
      cases h
      exact ⟨_, _, _, _, _, _, hslots, hname, hcomparison, hvalue, rfl⟩
    · cases h
  · rintro ⟨_, _, _, _, _, _, hslots, hname, hcomparison, hvalue, rfl⟩
    simp only [readFilter?, hslots, hname, hcomparison, hvalue, Option.bind_eq_bind,
      Option.bind_some]
    rfl

theorem readSort?_eq_some {v : Draft} {step : TransformStep} :
    readSort? v = some step ↔ ∃ field ascending name up,
      v.slots? [["field"], ["ascending"]] = some [field, ascending] ∧
      field.required readString? = some name ∧
      ascending.orElse true readBool? = some up ∧
      step = .sort name up := by
  constructor
  · intro h
    obtain ⟨_, hslots, h⟩ := Option.bind_eq_some_iff.mp h
    split at h
    · obtain ⟨_, hname, h⟩ := Option.bind_eq_some_iff.mp h
      obtain ⟨_, hup, h⟩ := Option.bind_eq_some_iff.mp h
      cases h
      exact ⟨_, _, _, _, hslots, hname, hup, rfl⟩
    · cases h
  · rintro ⟨_, _, _, _, hslots, hname, hup, rfl⟩
    simp only [readSort?, hslots, hname, hup, Option.bind_eq_bind, Option.bind_some]
    rfl

theorem readLimit?_eq_some {v : Draft} {step : TransformStep} :
    readLimit? v = some step ↔ ∃ count n,
      v.slots? [["n", "count", "limit"]] = some [count] ∧
      count.required readWord64? = some n ∧ step = .limit n := by
  constructor
  · intro h
    obtain ⟨_, hslots, h⟩ := Option.bind_eq_some_iff.mp h
    split at h
    · obtain ⟨_, hn, h⟩ := Option.bind_eq_some_iff.mp h
      cases h
      exact ⟨_, _, hslots, hn, rfl⟩
    · cases h
  · rintro ⟨_, _, hslots, hn, rfl⟩
    simp only [readLimit?, hslots, hn, Option.bind_eq_bind, Option.bind_some]
    rfl

section

variable {v content : Draft}

theorem ofDraft?_aggregation (h : v.tagged? "type" = some ("aggregation", content)) :
    ofDraft? v = readAggregation? content := by
  rw [ofDraft?, h]
  rfl

theorem ofDraft?_filter (h : v.tagged? "type" = some ("filter", content)) :
    ofDraft? v = readFilter? content := by
  rw [ofDraft?, h]
  rfl

theorem ofDraft?_sort (h : v.tagged? "type" = some ("sort", content)) :
    ofDraft? v = readSort? content := by
  rw [ofDraft?, h]
  rfl

theorem ofDraft?_limit (h : v.tagged? "type" = some ("limit", content)) :
    ofDraft? v = readLimit? content := by
  rw [ofDraft?, h]
  rfl

end

end TransformStep

theorem QueryConfig.ofDraft?_eq_some {v : Draft} {config : QueryConfig} :
    QueryConfig.ofDraft? v = some config ↔ ∃ query parameters filters steps,
      v.slots? [["query"], ["parameters"], ["filters"], ["transformations"]]
        = some [query, parameters, filters, steps] ∧
      query.orNone readString? = some config.query ∧
      parameters.orElse ∅ (readFields? readAny?) = some config.parameters ∧
      filters.orElse ∅ (readFields? readAny?) = some config.filters ∧
      steps.orElse [] (readList? TransformStep.ofDraft?) = some config.transformations := by
  constructor
  · intro h
    obtain ⟨_, hslots, h⟩ := Option.bind_eq_some_iff.mp h
    split at h
    · obtain ⟨_, hquery, h⟩ := Option.bind_eq_some_iff.mp h
      obtain ⟨_, hparameters, h⟩ := Option.bind_eq_some_iff.mp h
      obtain ⟨_, hfilters, h⟩ := Option.bind_eq_some_iff.mp h
      obtain ⟨_, hsteps, h⟩ := Option.bind_eq_some_iff.mp h
      cases h
      exact ⟨_, _, _, _, hslots, hquery, hparameters, hfilters, hsteps⟩
    · cases h
  · rintro ⟨_, _, _, _, hslots, hquery, hparameters, hfilters, hsteps⟩
    simp only [ofDraft?, hslots, hquery, hparameters, hfilters, hsteps, Option.bind_eq_bind,
      Option.bind_some]
    rfl

theorem ChartSpec.ofDraft?_eq_some {v : Draft} {spec : ChartSpec} :
    ChartSpec.ofDraft? v = some spec ↔ ∃ name type title options,
      v.slots? [["name"], ["type"], ["title"], ["options"]]
        = some [name, type, title, options] ∧
      name.required readString? = some spec.name ∧
      type.required ChartType.ofDraft? = some spec.type ∧
      title.orNone readString? = some spec.title ∧
      options.orElse ∅ (readFields? readAny?) = some spec.options := by
  constructor
  · intro h
    obtain ⟨_, hslots, h⟩ := Option.bind_eq_some_iff.mp h
    split at h
    · obtain ⟨_, hname, h⟩ := Option.bind_eq_some_iff.mp h
      obtain ⟨_, htype, h⟩ := Option.bind_eq_some_iff.mp h
      obtain ⟨_, htitle, h⟩ := Option.bind_eq_some_iff.mp h
      obtain ⟨_, hoptions, h⟩ := Option.bind_eq_some_iff.mp h
      cases h
      exact ⟨_, _, _, _, hslots, hname, htype, htitle, hoptions⟩
    · cases h
  · rintro ⟨_, _, _, _, hslots, hname, htype, htitle, hoptions⟩
    simp only [ofDraft?, hslots, hname, htype, htitle, hoptions, Option.bind_eq_bind,
      Option.bind_some]
    rfl

theorem ChartList.ofDraft?_eq_some {v : Draft} {list : ChartList} :
    ChartList.ofDraft? v = some list ↔ ∃ charts,
      v.slots? [["charts"]]
        = some [charts] ∧
      charts.orElse [] (readList? ChartSpec.ofDraft?) = some list.charts := by
  constructor
  · intro h
    obtain ⟨_, hslots, h⟩ := Option.bind_eq_some_iff.mp h
    split at h
    · obtain ⟨_, hcharts, h⟩ := Option.bind_eq_some_iff.mp h
      cases h
      exact ⟨_, hslots, hcharts⟩
    · cases h
  · rintro ⟨_, hslots, hcharts⟩
    simp only [ofDraft?, hslots, hcharts, Option.bind_eq_bind, Option.bind_some]
    rfl

/-! ## Reports and executions -/

theorem Cache.ofDraft?_eq_some {v : Draft} {cache : Cache} :
    Cache.ofDraft? v = some cache ↔ ∃ payload cachedAt ttl,
      v.slots? [["payload"], ["cached_at"], ["ttl_minutes"]]
        = some [payload, cachedAt, ttl] ∧
      payload.orNone readAny? = some cache.payload ∧
      cachedAt.orNone Instant.ofDraft? = some cache.cachedAt ∧
      ttl.orElse 60 readWord32? = some cache.ttlMinutes := by
  constructor
  · intro h
    obtain ⟨_, hslots, h⟩ := Option.bind_eq_some_iff.mp h
    split at h
    · obtain ⟨_, hpayload, h⟩ := Option.bind_eq_some_iff.mp h
      obtain ⟨_, hcachedAt, h⟩ := Option.bind_eq_some_iff.mp h
      obtain ⟨_, httl, h⟩ := Option.bind_eq_some_iff.mp h
      cases h
      exact ⟨_, _, _, hslots, hpayload, hcachedAt, httl⟩
    · cases h
  · rintro ⟨_, _, _, hslots, hpayload, hcachedAt, httl⟩
    simp only [ofDraft?, hslots, hpayload, hcachedAt, httl, Option.bind_eq_bind, Option.bind_some]
    rfl

theorem Schedule.ofDraft?_eq_some {v : Draft} {schedule : Schedule} :
    Schedule.ofDraft? v = some schedule ↔ ∃ interval enabled,
      v.slots? [["interval_minutes"], ["enabled"]]
        = some [interval, enabled] ∧
      interval.required readWord32? = some schedule.intervalMinutes ∧
      enabled.orElse true readBool? = some schedule.enabled := by
  constructor
  · intro h
    obtain ⟨_, hslots, h⟩ := Option.bind_eq_some_iff.mp h
    split at h
    · obtain ⟨_, hinterval, h⟩ := Option.bind_eq_some_iff.mp h
      obtain ⟨_, henabled, h⟩ := Option.bind_eq_some_iff.mp h
      cases h
      exact ⟨_, _, hslots, hinterval, henabled⟩
    · cases h
  · rintro ⟨_, _, hslots, hinterval, henabled⟩
    simp only [ofDraft?, hslots, hinterval, henabled, Option.bind_eq_bind, Option.bind_some]
    rfl

theorem Report.ofDraft?_eq_some {fresh : Uuid} {v : Draft} {report : Report} :
    Report.ofDraft? fresh v = some report ↔ ∃ id name sources query charts formats cache schedule
        last,
      v.slots? [["id"], ["name"], ["data_sources"], ["query_config"], ["visualization_config"],
        ["output_formats"], ["cache"], ["schedule"], ["last_scheduled_at"]]
        = some [id, name, sources, query, charts, formats, cache, schedule, last] ∧
      id.orElse ⟨fresh⟩ Id.ofDraft? = some report.id ∧
      name.required readString? = some report.name ∧
      sources.orElse [] (readList? Source.ofDraft?) = some report.sources ∧
      query.orElse .empty QueryConfig.ofDraft? = some report.query ∧
      charts.orElse ⟨[]⟩ ChartList.ofDraft? = some report.charts ∧
      formats.orElse [] (readList? OutputFormat.ofDraft?) = some report.formats ∧
      cache.orElse .new Cache.ofDraft? = some report.cache ∧
      schedule.orNone Schedule.ofDraft? = some report.schedule ∧
      last.orNone Instant.ofDraft? = some report.lastScheduledAt := by
  constructor
  · intro h
    obtain ⟨_, hslots, h⟩ := Option.bind_eq_some_iff.mp h
    split at h
    · obtain ⟨_, hid, h⟩ := Option.bind_eq_some_iff.mp h
      obtain ⟨_, hname, h⟩ := Option.bind_eq_some_iff.mp h
      obtain ⟨_, hsources, h⟩ := Option.bind_eq_some_iff.mp h
      obtain ⟨_, hquery, h⟩ := Option.bind_eq_some_iff.mp h
      obtain ⟨_, hcharts, h⟩ := Option.bind_eq_some_iff.mp h
      obtain ⟨_, hformats, h⟩ := Option.bind_eq_some_iff.mp h
      obtain ⟨_, hcache, h⟩ := Option.bind_eq_some_iff.mp h
      obtain ⟨_, hschedule, h⟩ := Option.bind_eq_some_iff.mp h
      obtain ⟨_, hlast, h⟩ := Option.bind_eq_some_iff.mp h
      cases h
      exact ⟨_, _, _, _, _, _, _, _, _, hslots, hid, hname, hsources, hquery, hcharts, hformats,
        hcache, hschedule, hlast⟩
    · cases h
  · rintro ⟨_, _, _, _, _, _, _, _, _, hslots, hid, hname, hsources, hquery, hcharts, hformats,
    hcache, hschedule, hlast⟩
    simp only [ofDraft?, hslots, hid, hname, hsources, hquery, hcharts, hformats, hcache,
      hschedule, hlast, Option.bind_eq_bind, Option.bind_some]
    rfl

theorem Artifact.ofDraft?_eq_some {v : Draft} {artifact : Artifact} :
    Artifact.ofDraft? v = some artifact ↔ ∃ format filename path size checksum,
      v.slots? [["format"], ["filename"], ["path"], ["size_bytes"], ["checksum"]]
        = some [format, filename, path, size, checksum] ∧
      format.required OutputFormat.ofDraft? = some artifact.format ∧
      filename.required readString? = some artifact.filename ∧
      path.required readString? = some artifact.path ∧
      size.required readWord64? = some artifact.size ∧
      checksum.required readString? = some artifact.checksum := by
  constructor
  · intro h
    obtain ⟨_, hslots, h⟩ := Option.bind_eq_some_iff.mp h
    split at h
    · obtain ⟨_, hformat, h⟩ := Option.bind_eq_some_iff.mp h
      obtain ⟨_, hfilename, h⟩ := Option.bind_eq_some_iff.mp h
      obtain ⟨_, hpath, h⟩ := Option.bind_eq_some_iff.mp h
      obtain ⟨_, hsize, h⟩ := Option.bind_eq_some_iff.mp h
      obtain ⟨_, hchecksum, h⟩ := Option.bind_eq_some_iff.mp h
      cases h
      exact ⟨_, _, _, _, _, hslots, hformat, hfilename, hpath, hsize, hchecksum⟩
    · cases h
  · rintro ⟨_, _, _, _, _, hslots, hformat, hfilename, hpath, hsize, hchecksum⟩
    simp only [ofDraft?, hslots, hformat, hfilename, hpath, hsize, hchecksum, Option.bind_eq_bind,
      Option.bind_some]
    rfl

theorem Execution.ofDraft?_eq_some {v : Draft} {e : Execution} :
    Execution.ofDraft? v = some e ↔ ∃ id report status trigger created started completed duration
        payload artifacts error,
      v.slots? [["id"], ["report_id"], ["status"], ["trigger_type"], ["created_at"],
        ["started_at"], ["completed_at"], ["duration_ms"], ["result_payload"],
        ["output_artifacts"], ["error"]]
        = some [id, report, status, trigger, created, started, completed, duration, payload,
          artifacts, error] ∧
      id.required Id.ofDraft? = some e.id ∧
      report.required Id.ofDraft? = some e.reportId ∧
      status.required ExecutionStatus.ofDraft? = some e.status ∧
      trigger.required Trigger.ofDraft? = some e.trigger ∧
      created.required Instant.ofDraft? = some e.createdAt ∧
      started.optional Instant.ofDraft? = some e.startedAt ∧
      completed.optional Instant.ofDraft? = some e.completedAt ∧
      duration.optional readWord64? = some e.durationMs ∧
      payload.optional readAny? = some e.payload ∧
      artifacts.orElse [] (readList? Artifact.ofDraft?) = some e.artifacts ∧
      error.optional readString? = some e.error := by
  constructor
  · intro h
    obtain ⟨_, hslots, h⟩ := Option.bind_eq_some_iff.mp h
    split at h
    · obtain ⟨_, hid, h⟩ := Option.bind_eq_some_iff.mp h
      obtain ⟨_, hreport, h⟩ := Option.bind_eq_some_iff.mp h
      obtain ⟨_, hstatus, h⟩ := Option.bind_eq_some_iff.mp h
      obtain ⟨_, htrigger, h⟩ := Option.bind_eq_some_iff.mp h
      obtain ⟨_, hcreated, h⟩ := Option.bind_eq_some_iff.mp h
      obtain ⟨_, hstarted, h⟩ := Option.bind_eq_some_iff.mp h
      obtain ⟨_, hcompleted, h⟩ := Option.bind_eq_some_iff.mp h
      obtain ⟨_, hduration, h⟩ := Option.bind_eq_some_iff.mp h
      obtain ⟨_, hpayload, h⟩ := Option.bind_eq_some_iff.mp h
      obtain ⟨_, hartifacts, h⟩ := Option.bind_eq_some_iff.mp h
      obtain ⟨_, herror, h⟩ := Option.bind_eq_some_iff.mp h
      cases h
      exact ⟨_, _, _, _, _, _, _, _, _, _, _, hslots, hid, hreport, hstatus, htrigger, hcreated,
        hstarted, hcompleted, hduration, hpayload, hartifacts, herror⟩
    · cases h
  · rintro ⟨_, _, _, _, _, _, _, _, _, _, _, hslots, hid, hreport, hstatus, htrigger, hcreated,
    hstarted, hcompleted, hduration, hpayload, hartifacts, herror⟩
    simp only [ofDraft?, hslots, hid, hreport, hstatus, htrigger, hcreated, hstarted, hcompleted,
      hduration, hpayload, hartifacts, herror, Option.bind_eq_bind, Option.bind_some]
    rfl

/-! ## Dashboards and widgets -/

theorem Dashboard.ofDraft?_eq_some {fresh : Uuid} {v : Draft} {dashboard : Dashboard} :
    Dashboard.ofDraft? fresh v = some dashboard ↔ ∃ id name widgets,
      v.slots? [["id"], ["name"], ["widget_ids"]]
        = some [id, name, widgets] ∧
      id.orElse ⟨fresh⟩ Id.ofDraft? = some dashboard.id ∧
      name.required readString? = some dashboard.name ∧
      widgets.orElse [] (readList? Id.ofDraft?) = some dashboard.widgetIds := by
  constructor
  · intro h
    obtain ⟨_, hslots, h⟩ := Option.bind_eq_some_iff.mp h
    split at h
    · obtain ⟨_, hid, h⟩ := Option.bind_eq_some_iff.mp h
      obtain ⟨_, hname, h⟩ := Option.bind_eq_some_iff.mp h
      obtain ⟨_, hwidgets, h⟩ := Option.bind_eq_some_iff.mp h
      cases h
      exact ⟨_, _, _, hslots, hid, hname, hwidgets⟩
    · cases h
  · rintro ⟨_, _, _, hslots, hid, hname, hwidgets⟩
    simp only [ofDraft?, hslots, hid, hname, hwidgets, Option.bind_eq_bind, Option.bind_some]
    rfl

theorem WidgetPosition.ofDraft?_eq_some {v : Draft} {position : WidgetPosition} :
    WidgetPosition.ofDraft? v = some position ↔ ∃ x y width height,
      v.slots? [["x"], ["y"], ["width"], ["height"]]
        = some [x, y, width, height] ∧
      x.required readWord32? = some position.x ∧
      y.required readWord32? = some position.y ∧
      width.required readWord32? = some position.width ∧
      height.required readWord32? = some position.height := by
  constructor
  · intro h
    obtain ⟨_, hslots, h⟩ := Option.bind_eq_some_iff.mp h
    split at h
    · obtain ⟨_, hx, h⟩ := Option.bind_eq_some_iff.mp h
      obtain ⟨_, hy, h⟩ := Option.bind_eq_some_iff.mp h
      obtain ⟨_, hwidth, h⟩ := Option.bind_eq_some_iff.mp h
      obtain ⟨_, hheight, h⟩ := Option.bind_eq_some_iff.mp h
      cases h
      exact ⟨_, _, _, _, hslots, hx, hy, hwidth, hheight⟩
    · cases h
  · rintro ⟨_, _, _, _, hslots, hx, hy, hwidth, hheight⟩
    simp only [ofDraft?, hslots, hx, hy, hwidth, hheight, Option.bind_eq_bind, Option.bind_some]
    rfl

theorem Widget.ofDraft?_eq_some {fresh : Uuid} {v : Draft} {widget : Widget} :
    Widget.ofDraft? fresh v = some widget ↔ ∃ id dashboard title position source query chart cache,
      v.slots? [["id"], ["dashboard_id"], ["title"], ["position"], ["data_source"],
        ["query_config"], ["chart"], ["cache"]]
        = some [id, dashboard, title, position, source, query, chart, cache] ∧
      id.orElse ⟨fresh⟩ Id.ofDraft? = some widget.id ∧
      dashboard.required Id.ofDraft? = some widget.dashboardId ∧
      title.required readString? = some widget.title ∧
      position.orElse .zero WidgetPosition.ofDraft? = some widget.position ∧
      source.required Source.ofDraft? = some widget.source ∧
      query.orElse .empty QueryConfig.ofDraft? = some widget.query ∧
      chart.required ChartSpec.ofDraft? = some widget.chart ∧
      cache.orElse .new Cache.ofDraft? = some widget.cache := by
  constructor
  · intro h
    obtain ⟨_, hslots, h⟩ := Option.bind_eq_some_iff.mp h
    split at h
    · obtain ⟨_, hid, h⟩ := Option.bind_eq_some_iff.mp h
      obtain ⟨_, hdashboard, h⟩ := Option.bind_eq_some_iff.mp h
      obtain ⟨_, htitle, h⟩ := Option.bind_eq_some_iff.mp h
      obtain ⟨_, hposition, h⟩ := Option.bind_eq_some_iff.mp h
      obtain ⟨_, hsource, h⟩ := Option.bind_eq_some_iff.mp h
      obtain ⟨_, hquery, h⟩ := Option.bind_eq_some_iff.mp h
      obtain ⟨_, hchart, h⟩ := Option.bind_eq_some_iff.mp h
      obtain ⟨_, hcache, h⟩ := Option.bind_eq_some_iff.mp h
      cases h
      exact ⟨_, _, _, _, _, _, _, _, hslots, hid, hdashboard, htitle, hposition, hsource, hquery,
        hchart, hcache⟩
    · cases h
  · rintro ⟨_, _, _, _, _, _, _, _, hslots, hid, hdashboard, htitle, hposition, hsource, hquery,
    hchart, hcache⟩
    simp only [ofDraft?, hslots, hid, hdashboard, htitle, hposition, hsource, hquery, hchart,
      hcache, Option.bind_eq_bind, Option.bind_some]
    rfl

/-! ## Rules and alerts -/

theorem Condition.ofDraft?_eq_some {v : Draft} {condition : Condition} :
    Condition.ofDraft? v = some condition ↔ ∃ threshold comparison,
      v.slots? [["threshold_value"], ["comparison_operator"]]
        = some [threshold, comparison] ∧
      threshold.required readReal? = some condition.threshold ∧
      comparison.required Comparison.ofDraft? = some condition.comparison := by
  constructor
  · intro h
    obtain ⟨_, hslots, h⟩ := Option.bind_eq_some_iff.mp h
    split at h
    · obtain ⟨_, hthreshold, h⟩ := Option.bind_eq_some_iff.mp h
      obtain ⟨_, hcomparison, h⟩ := Option.bind_eq_some_iff.mp h
      cases h
      exact ⟨_, _, hslots, hthreshold, hcomparison⟩
    · cases h
  · rintro ⟨_, _, hslots, hthreshold, hcomparison⟩
    simp only [ofDraft?, hslots, hthreshold, hcomparison, Option.bind_eq_bind, Option.bind_some]
    rfl

namespace Channel

section

variable {v content : Draft}

theorem ofDraft?_email {recipients : List String}
    (h : v.tagged? "type" = some ("email", content)) :
    ofDraft? v = some (.email recipients) ↔ ∃ slot,
      content.slots? [["recipients"]] = some [slot] ∧
      slot.required (readList? readString?) = some recipients := by
  rw [ofDraft?, h]
  constructor
  · intro h
    obtain ⟨_, ⟨⟩, h⟩ := Option.bind_eq_some_iff.mp h
    obtain ⟨_, hslots, h⟩ := Option.bind_eq_some_iff.mp h
    split at h
    · obtain ⟨_, hrecipients, h⟩ := Option.bind_eq_some_iff.mp h
      cases h
      exact ⟨_, hslots, hrecipients⟩
    · cases h
  · rintro ⟨_, hslots, hrecipients⟩
    simp only [hslots, hrecipients, Option.bind_eq_bind, Option.bind_some]
    rfl

theorem ofDraft?_webhook {url : String} {headers : Fields String}
    (h : v.tagged? "type" = some ("webhook", content)) :
    ofDraft? v = some (.webhook url headers) ↔ ∃ first second,
      content.slots? [["url"], ["headers"]] = some [first, second] ∧
      first.required readString? = some url ∧
      second.orElse ∅ (readFields? readString?) = some headers := by
  rw [ofDraft?, h]
  constructor
  · intro h
    obtain ⟨_, ⟨⟩, h⟩ := Option.bind_eq_some_iff.mp h
    obtain ⟨_, hslots, h⟩ := Option.bind_eq_some_iff.mp h
    split at h
    · obtain ⟨_, hurl, h⟩ := Option.bind_eq_some_iff.mp h
      obtain ⟨_, hheaders, h⟩ := Option.bind_eq_some_iff.mp h
      cases h
      exact ⟨_, _, hslots, hurl, hheaders⟩
    · cases h
  · rintro ⟨_, _, hslots, hurl, hheaders⟩
    simp only [hslots, hurl, hheaders, Option.bind_eq_bind, Option.bind_some]
    rfl

theorem ofDraft?_slack {url : String} {room : Option String}
    (h : v.tagged? "type" = some ("slack", content)) :
    ofDraft? v = some (.slack url room) ↔ ∃ first second,
      content.slots? [["webhook_url"], ["channel"]] = some [first, second] ∧
      first.required readString? = some url ∧ second.orNone readString? = some room := by
  rw [ofDraft?, h]
  constructor
  · intro h
    obtain ⟨_, ⟨⟩, h⟩ := Option.bind_eq_some_iff.mp h
    obtain ⟨_, hslots, h⟩ := Option.bind_eq_some_iff.mp h
    split at h
    · obtain ⟨_, hurl, h⟩ := Option.bind_eq_some_iff.mp h
      obtain ⟨_, hroom, h⟩ := Option.bind_eq_some_iff.mp h
      cases h
      exact ⟨_, _, hslots, hurl, hroom⟩
    · cases h
  · rintro ⟨_, _, hslots, hurl, hroom⟩
    simp only [hslots, hurl, hroom, Option.bind_eq_bind, Option.bind_some]
    rfl

end

/-- Every channel that is read has fields that were read from some slots. -/
theorem read_of_ofDraft? {v : Draft} {channel : Channel} (h : ofDraft? v = some channel) :
    (∃ (slot : Slot) (recipients : List String),
      slot.required (readList? readString?) = some recipients ∧ channel = .email recipients) ∨
    (∃ (first second : Slot) (url : String) (headers : Fields String),
      first.required readString? = some url ∧
      second.orElse ∅ (readFields? readString?) = some headers ∧ channel = .webhook url headers) ∨
    (∃ (first second : Slot) (url : String) (room : Option String),
      first.required readString? = some url ∧ second.orNone readString? = some room ∧
      channel = .slack url room) ∨
    channel = .unsupported := by
  obtain ⟨⟨tag, content⟩, -, h⟩ := Option.bind_eq_some_iff.mp h
  simp only at h
  split at h
  · obtain ⟨_, -, h⟩ := Option.bind_eq_some_iff.mp h
    split at h
    · obtain ⟨_, hrecipients, h⟩ := Option.bind_eq_some_iff.mp h
      cases h
      exact .inl ⟨_, _, hrecipients, rfl⟩
    · cases h
  · obtain ⟨_, -, h⟩ := Option.bind_eq_some_iff.mp h
    split at h
    · obtain ⟨_, hurl, h⟩ := Option.bind_eq_some_iff.mp h
      obtain ⟨_, hheaders, h⟩ := Option.bind_eq_some_iff.mp h
      cases h
      exact .inr (.inl ⟨_, _, _, _, hurl, hheaders, rfl⟩)
    · cases h
  · obtain ⟨_, -, h⟩ := Option.bind_eq_some_iff.mp h
    split at h
    · obtain ⟨_, hurl, h⟩ := Option.bind_eq_some_iff.mp h
      obtain ⟨_, hroom, h⟩ := Option.bind_eq_some_iff.mp h
      cases h
      exact .inr (.inr (.inl ⟨_, _, _, _, hurl, hroom, rfl⟩))
    · cases h
  · split at h
    · cases h
      exact .inr (.inr (.inr rfl))
    · cases h

end Channel

theorem AlertRule.ofDraft?_eq_some {fresh : Uuid} {v : Draft} {rule : AlertRule} :
    AlertRule.ofDraft? fresh v = some rule ↔ ∃ id name source query parameters field condition
        severity interval enabled last channels,
      v.slots? [["id"], ["name"], ["data_source"], ["query"], ["parameters"], ["metric_field"],
        ["condition"], ["severity"], ["evaluation_interval_minutes"], ["enabled"],
        ["last_evaluated_at"], ["notification_config"]]
        = some [id, name, source, query, parameters, field, condition, severity, interval, enabled,
          last, channels] ∧
      id.orElse ⟨fresh⟩ Id.ofDraft? = some rule.id ∧
      name.required readString? = some rule.name ∧
      source.required Source.ofDraft? = some rule.source ∧
      query.orNone readString? = some rule.query ∧
      parameters.orElse ∅ (readFields? readAny?) = some rule.parameters ∧
      field.orNone readString? = some rule.metricField ∧
      condition.required Condition.ofDraft? = some rule.condition ∧
      severity.orElse .warning Severity.ofDraft? = some rule.severity ∧
      interval.orElse 5 readWord32? = some rule.intervalMinutes ∧
      enabled.orElse true readBool? = some rule.enabled ∧
      last.orNone Instant.ofDraft? = some rule.lastEvaluatedAt ∧
      channels.orElse [] (readList? Channel.ofDraft?) = some rule.channels := by
  constructor
  · intro h
    obtain ⟨_, hslots, h⟩ := Option.bind_eq_some_iff.mp h
    split at h
    · obtain ⟨_, hid, h⟩ := Option.bind_eq_some_iff.mp h
      obtain ⟨_, hname, h⟩ := Option.bind_eq_some_iff.mp h
      obtain ⟨_, hsource, h⟩ := Option.bind_eq_some_iff.mp h
      obtain ⟨_, hquery, h⟩ := Option.bind_eq_some_iff.mp h
      obtain ⟨_, hparameters, h⟩ := Option.bind_eq_some_iff.mp h
      obtain ⟨_, hfield, h⟩ := Option.bind_eq_some_iff.mp h
      obtain ⟨_, hcondition, h⟩ := Option.bind_eq_some_iff.mp h
      obtain ⟨_, hseverity, h⟩ := Option.bind_eq_some_iff.mp h
      obtain ⟨_, hinterval, h⟩ := Option.bind_eq_some_iff.mp h
      obtain ⟨_, henabled, h⟩ := Option.bind_eq_some_iff.mp h
      obtain ⟨_, hlast, h⟩ := Option.bind_eq_some_iff.mp h
      obtain ⟨_, hchannels, h⟩ := Option.bind_eq_some_iff.mp h
      cases h
      exact ⟨_, _, _, _, _, _, _, _, _, _, _, _, hslots, hid, hname, hsource, hquery, hparameters,
        hfield, hcondition, hseverity, hinterval, henabled, hlast, hchannels⟩
    · cases h
  · rintro ⟨_, _, _, _, _, _, _, _, _, _, _, _, hslots, hid, hname, hsource, hquery, hparameters,
    hfield, hcondition, hseverity, hinterval, henabled, hlast, hchannels⟩
    simp only [ofDraft?, hslots, hid, hname, hsource, hquery, hparameters, hfield, hcondition,
      hseverity, hinterval, henabled, hlast, hchannels, Option.bind_eq_bind, Option.bind_some]
    rfl

theorem Alert.ofDraft?_eq_some {v : Draft} {alert : Alert} :
    Alert.ofDraft? v = some alert ↔ ∃ id rule status severity value threshold message triggered
        acknowledged person resolved reason auto,
      v.slots? [["id"], ["rule_id"], ["status"], ["severity"], ["triggered_value"],
        ["threshold_value"], ["message"], ["triggered_at"], ["acknowledged_at"],
        ["acknowledged_by"], ["resolved_at"], ["resolution_reason"], ["auto_resolved"]]
        = some [id, rule, status, severity, value, threshold, message, triggered, acknowledged,
          person, resolved, reason, auto] ∧
      id.required Id.ofDraft? = some alert.id ∧
      rule.required Id.ofDraft? = some alert.ruleId ∧
      status.required AlertStatus.ofDraft? = some alert.status ∧
      severity.required Severity.ofDraft? = some alert.severity ∧
      value.required readReal? = some alert.triggeredValue ∧
      threshold.required readReal? = some alert.threshold ∧
      message.required readString? = some alert.message ∧
      triggered.required Instant.ofDraft? = some alert.triggeredAt ∧
      acknowledged.orNone Instant.ofDraft? = some alert.acknowledgedAt ∧
      person.orNone readString? = some alert.acknowledgedBy ∧
      resolved.orNone Instant.ofDraft? = some alert.resolvedAt ∧
      reason.orNone readString? = some alert.resolutionReason ∧
      auto.orElse false readBool? = some alert.autoResolved := by
  constructor
  · intro h
    obtain ⟨_, hslots, h⟩ := Option.bind_eq_some_iff.mp h
    split at h
    · obtain ⟨_, hid, h⟩ := Option.bind_eq_some_iff.mp h
      obtain ⟨_, hrule, h⟩ := Option.bind_eq_some_iff.mp h
      obtain ⟨_, hstatus, h⟩ := Option.bind_eq_some_iff.mp h
      obtain ⟨_, hseverity, h⟩ := Option.bind_eq_some_iff.mp h
      obtain ⟨_, hvalue, h⟩ := Option.bind_eq_some_iff.mp h
      obtain ⟨_, hthreshold, h⟩ := Option.bind_eq_some_iff.mp h
      obtain ⟨_, hmessage, h⟩ := Option.bind_eq_some_iff.mp h
      obtain ⟨_, htriggered, h⟩ := Option.bind_eq_some_iff.mp h
      obtain ⟨_, hacknowledged, h⟩ := Option.bind_eq_some_iff.mp h
      obtain ⟨_, hperson, h⟩ := Option.bind_eq_some_iff.mp h
      obtain ⟨_, hresolved, h⟩ := Option.bind_eq_some_iff.mp h
      obtain ⟨_, hreason, h⟩ := Option.bind_eq_some_iff.mp h
      obtain ⟨_, hauto, h⟩ := Option.bind_eq_some_iff.mp h
      cases h
      exact ⟨_, _, _, _, _, _, _, _, _, _, _, _, _, hslots, hid, hrule, hstatus, hseverity, hvalue,
        hthreshold, hmessage, htriggered, hacknowledged, hperson, hresolved, hreason, hauto⟩
    · cases h
  · rintro ⟨_, _, _, _, _, _, _, _, _, _, _, _, _, hslots, hid, hrule, hstatus, hseverity, hvalue,
    hthreshold, hmessage, htriggered, hacknowledged, hperson, hresolved, hreason, hauto⟩
    refine Option.bind_eq_some_iff.mpr ⟨_, hslots, Option.bind_eq_some_iff.mpr ⟨_, hid,
      Option.bind_eq_some_iff.mpr ⟨_, hrule, Option.bind_eq_some_iff.mpr ⟨_, hstatus,
      Option.bind_eq_some_iff.mpr ⟨_, hseverity, Option.bind_eq_some_iff.mpr ⟨_, hvalue,
      Option.bind_eq_some_iff.mpr ⟨_, hthreshold, Option.bind_eq_some_iff.mpr ⟨_, hmessage,
      Option.bind_eq_some_iff.mpr ⟨_, htriggered, Option.bind_eq_some_iff.mpr ⟨_, hacknowledged,
      Option.bind_eq_some_iff.mpr ⟨_, hperson, Option.bind_eq_some_iff.mpr ⟨_, hresolved,
      Option.bind_eq_some_iff.mpr ⟨_, hreason, Option.bind_eq_some_iff.mpr ⟨_, hauto, ?_⟩⟩⟩⟩⟩⟩⟩⟩⟩⟩⟩⟩⟩⟩
    rfl

end Bulletin
