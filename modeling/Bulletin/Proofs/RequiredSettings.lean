import Bulletin.Dashboard.View
import Bulletin.Proofs.Queries

/-!
# Settings that a source needs

The check of a source and the query of it look for the same setting, each by rules of its own. They
agree: a source that passes the check is never found to lack a setting when it is queried, and one
that is refused for a setting is found to lack the same one, before any connector is asked.

A connector may answer by itself that a setting is missing. Then the query says so too, so the
first part is about connectors that do not answer so.

* `Query.execute_of_missing`, `Query.avoids_execute` — one source
* `Engine.avoids_pipeline`, `Engine.avoids_refreshWidget` — reports and widgets
* `settings_checked_as_asked` — both checks agree
-/

namespace Bulletin

/-! ## Errors that do not occur -/

namespace Action

variable {ε ε' α β : Type} {expected : Event → Prop} {bad : ε → Prop} {bad' : ε' → Prop}
  {action : Action ε α} {f : α → Action ε β}

/-- The action does not fail with a bad error, as long as it is answered as expected. -/
def Avoids (expected : Event → Prop) (bad : ε → Prop) (action : Action ε α) : Prop :=
  ∀ events e, action.Yields events (.error e) → (∀ event ∈ events, expected event) → ¬ bad e

theorem avoids_pure (a : α) : (pure a : Action ε α).Avoids expected bad := by
  intro events e h
  obtain ⟨-, ⟨⟩⟩ := yields_pure.mp h

theorem avoids_crash (c : Crash) : (crash c : Action ε α).Avoids expected bad := by
  intro events e h
  obtain ⟨-, ⟨⟩⟩ := yields_stop.mp h

theorem avoids_fail {e : ε} (he : ¬ bad e) : (fail e : Action ε α).Avoids expected bad := by
  intro events e' h
  obtain ⟨-, ⟨⟩⟩ := yields_stop.mp h
  exact fun _ => he

theorem Avoids.bind (h : action.Avoids expected bad) (hf : ∀ a, (f a).Avoids expected bad) :
    (action >>= f).Avoids expected bad := by
  intro events e hyields hexpected
  obtain ⟨first, second, middle, rfl, hfirst, hsecond⟩ := yields_andThen.mp hyields
  cases middle with
  | value a =>
    exact hf a second e hsecond fun event he => hexpected event (List.mem_append_right _ he)
  | error e' =>
    obtain ⟨-, ⟨⟩⟩ := yields_stop.mp hsecond
    exact h first e hfirst fun event he => hexpected event (List.mem_append_left _ he)
  | crash c => obtain ⟨-, ⟨⟩⟩ := yields_stop.mp hsecond

theorem Avoids.mapError {g : ε → ε'} (h : action.Avoids expected fun e => bad' (g e)) :
    (action.mapError g).Avoids expected bad' := by
  intro events e hyields hexpected
  obtain ⟨first, second, middle, rfl, hfirst, hsecond⟩ := yields_andThen.mp hyields
  cases middle with
  | value a => obtain ⟨-, ⟨⟩⟩ := yields_stop.mp hsecond
  | error e' =>
    obtain ⟨-, ⟨⟩⟩ := yields_stop.mp hsecond
    exact h first e' hfirst fun event he => hexpected event (List.mem_append_left _ he)
  | crash c => obtain ⟨-, ⟨⟩⟩ := yields_stop.mp hsecond

theorem avoids_request_bind {r : Request} {next : r.Answer → Action ε β}
    (h : ∀ answer, expected ⟨r, answer⟩ → (next answer).Avoids expected bad) :
    (request r >>= next).Avoids expected bad := by
  intro events e hyields hexpected
  obtain ⟨answer, rest, rfl, hrest⟩ := yields_request_bind.mp hyields
  obtain ⟨hanswer, hexpected⟩ := List.forall_mem_cons.mp hexpected
  exact h answer hanswer rest e hrest hexpected

theorem avoids_call {wrap : StorageError → ε} {c : Call} (h : ∀ e, ¬ bad (wrap e)) :
    (call wrap c).Avoids expected bad := by
  intro events e hyields hexpected
  cases hyields with
  | @ask _ _ answer _ _ hrest =>
    cases answer with
    | ok a => cases hrest
    | error e' =>
      cases hrest
      exact h e'

theorem avoids_inCalendar (found : Option α) :
    (inCalendar found : Action ε α).Avoids expected bad := by
  cases found with
  | none => exact avoids_crash _
  | some a => exact avoids_pure a

end Action

/-! ## Settings in the check -/

namespace Source

variable {source : Source} {query : Option String}

/-- The check of a source with a name refuses it for the missing setting, and for nothing else. -/
theorem validate_of_name (hname : Text.blank source.name = false) :
    source.validate query = match source.missingSetting? query with
      | none => .ok ()
      | some field =>
        .error (.validation ("data_source." ++ source.name ++ "." ++ field)
          ("required for " ++ source.kind.tag ++ " sources")) := by
  unfold validate missingSetting?
  rw [hname, if_neg Bool.false_ne_true]
  cases source.requiredSetting query with
  | none => rfl
  | some field =>
    simp only [Option.filter_some]
    cases source.setting? field <;> rfl

theorem missingSetting?_of_validate (h : source.validate query = .ok ()) :
    source.missingSetting? query = none := by
  cases hname : Text.blank source.name with
  | true =>
    rw [validate, if_pos hname] at h
    cases h
  | false =>
    rw [validate_of_name hname] at h
    split at h
    · assumption
    · cases h

/-- Sources that pass the check one after the other pass it each. -/
theorem validate_of_validateAll {sources : List Source}
    (h : (sources.forM fun source => source.validate query) = .ok ()) :
    ∀ source ∈ sources, source.validate query = .ok () := by
  induction sources with
  | nil => exact List.forall_mem_nil _
  | cons source rest ih =>
    change (source.validate query >>= fun _ => rest.forM _) = _ at h
    cases hs : source.validate query with
    | error e =>
      rw [hs] at h
      cases h
    | ok _ =>
      rw [hs] at h
      exact List.forall_mem_cons.mpr ⟨hs, ih h⟩

end Source

theorem Report.validate_sources {report : Report} (h : report.validate = .ok ()) :
    ∀ source ∈ report.sources, source.validate report.query.query = .ok () := by
  unfold Report.validate at h
  split at h
  · cases h
  · split at h
    · cases h
    · cases hs : (report.sources.forM fun source => source.validate report.query.query) with
      | error e =>
        rw [hs] at h
        cases h
      | ok _ => exact Source.validate_of_validateAll hs

theorem Widget.validate_source {widget : Widget} (h : widget.validate = .ok ()) :
    widget.source.validate widget.query.query = .ok () := by
  unfold Widget.validate at h
  split at h
  · cases h
  · exact h

/-! ## Settings in a query -/

/-- A setting was found missing. -/
def QueryError.MissesSetting : QueryError → Prop
  | .missingField _ _ => True
  | _ => False

/-- A query has found a setting missing. -/
def EngineError.MissesSetting : EngineError → Prop
  | .query e => e.MissesSetting
  | _ => False

/-- If a connector was asked, its answer is not that a setting is missing. -/
def Event.MissesNoSetting (event : Event) : Prop := ∀ e, event.Fails e → ¬ e.MissesSetting

/-- There is a connector for sources of a kind. -/
def Connectors.Serves (connectors : Connectors) : SourceKind → Prop
  | .relational => connectors.relational = true
  | .dataset => True
  | .externalApi => connectors.api = true
  | .unsupported _ => False

namespace Query

variable {connectors : Connectors} {source : Source} {input : QueryInput} {field : String}

/-- A setting that the check finds missing is missed by the query, which then asks for nothing. -/
theorem execute_of_missing (hserves : connectors.Serves source.kind)
    (h : source.missingSetting? input.query = some field) :
    execute connectors source input = .fail (.missingField source.name field) := by
  obtain ⟨hrequired, hmissing⟩ := Option.filter_eq_some_iff.mp h
  unfold execute
  cases hkind : source.kind with
  | relational =>
    have hthere : connectors.relational = true := by
      rw [hkind] at hserves
      exact hserves
    rw [Source.requiredSetting, hkind] at hrequired
    obtain ⟨-, ⟨⟩⟩ := Option.ite_none_left_eq_some.mp hrequired
    simp only [relational, if_pos hthere, (queryText?_eq_none_iff hkind).mpr h]
  | dataset =>
    rw [Source.requiredSetting, hkind] at hrequired
    cases hrequired
    simp only [dataset, Option.isNone_iff_eq_none.mp hmissing]
  | externalApi =>
    have hthere : connectors.api = true := by
      rw [hkind] at hserves
      exact hserves
    rw [Source.requiredSetting, hkind] at hrequired
    cases hrequired
    simp only [api, if_pos hthere, Option.isNone_iff_eq_none.mp hmissing]
  | unsupported kind =>
    rw [hkind] at hserves
    cases hserves

/-- Where the check finds no setting missing, the query does not either. -/
theorem avoids_execute (connectors : Connectors)
    (h : source.missingSetting? input.query = none) :
    (execute connectors source input).Avoids Event.MissesNoSetting QueryError.MissesSetting := by
  rcases execute_cases connectors source input with ⟨e, he, hmissing⟩ | ⟨r, conclude, hasks⟩
  · rw [he]
    refine Action.avoids_fail ?_
    cases e with
    | missingField name field => exact nomatch h.symm.trans (hmissing name field rfl)
    | unsupportedSourceKind | notFound | connectorUnavailable | connector | invalidResponse =>
      exact not_false
  · rw [hasks.eq_ask]
    intro events e hyields hexpected
    cases hyields with
    | @ask _ _ answer _ _ hstop =>
      obtain ⟨rfl, hend⟩ := Action.yields_stop.mp hstop
      rcases hasks.error answer e hend.symm with hfails | ⟨id, rfl⟩
      · exact hexpected _ List.mem_cons_self e hfails
      · exact not_false

theorem avoids_executeAll (connectors : Connectors) {sources : List Source}
    (h : ∀ source ∈ sources, source.missingSetting? input.query = none) :
    (executeAll connectors input sources).Avoids Event.MissesNoSetting
      QueryError.MissesSetting := by
  induction sources with
  | nil => exact Action.avoids_pure []
  | cons source rest ih =>
    obtain ⟨hsource, hrest⟩ := List.forall_mem_cons.mp h
    exact (avoids_execute connectors hsource).bind fun rows =>
      (ih hrest).bind fun others => Action.avoids_pure _

end Query

/-! ## Reports and widgets -/

namespace Engine

/-- The run of a report that passes its check finds no setting missing. -/
theorem avoids_pipeline (engine : Engine) {report : Report} (execution : ExecutionId)
    (h : report.validate = .ok ()) :
    (engine.pipeline report execution).Avoids Event.MissesNoSetting
      EngineError.MissesSetting := by
  have hsources : ∀ source ∈ report.sources,
      source.missingSetting? report.query.input.query = none := fun source hmem =>
    Source.missingSetting?_of_validate (report.validate_sources h source hmem)
  refine Action.Avoids.bind (Action.Avoids.mapError ?_) fun rows => ?_
  · exact Query.avoids_executeAll engine.connectors hsources
  · -- no setting is needed to write the files
    refine Action.Avoids.bind (Action.Avoids.mapError ?_) fun artifacts => Action.avoids_pure _
    exact fun _ _ _ _ => not_false

/-- The chart of a widget that passes its check is built without finding a setting missing. -/
theorem avoids_widgetChart (engine : Engine) {widget : Widget} (h : widget.validate = .ok ()) :
    (engine.widgetChart widget).Avoids Event.MissesNoSetting EngineError.MissesSetting := by
  have hsource : widget.source.missingSetting? widget.query.input.query = none :=
    Source.missingSetting?_of_validate (widget.validate_source h)
  refine Action.Avoids.bind (Action.Avoids.mapError ?_) fun rows => Action.avoids_pure _
  exact Query.avoids_execute engine.connectors hsource

/-- A widget is checked before it is refreshed, so no refresh finds a setting missing. -/
theorem avoids_refreshWidget (engine : Engine) (id : WidgetId) :
    (engine.refreshWidget id).Avoids Event.MissesNoSetting EngineError.MissesSetting := by
  unfold refreshWidget
  refine (Action.avoids_call fun _ => not_false).bind fun found => ?_
  cases found with
  | none => exact Action.avoids_fail not_false
  | some widget =>
    cases hvalid : widget.validate with
    | error e =>
      simp only [hvalid]
      refine Action.avoids_fail (e := EngineError.ofDomain e) ?_
      cases e <;> exact not_false
    | ok _ =>
      simp only [hvalid]
      refine Action.avoids_request_bind fun now _ => ?_
      refine (Action.avoids_inCalendar _).bind fun shown => ?_
      cases shown with
      | some chart => exact Action.avoids_pure _
      | none =>
        refine (engine.avoids_widgetChart hvalid).bind fun chart => ?_
        refine (Action.avoids_call fun _ => not_false).bind fun latest => ?_
        refine Action.avoids_request_bind fun written _ => ?_
        exact (Action.avoids_call fun _ => not_false).bind fun _ => Action.avoids_pure _

end Engine

/-! ## Both checks -/

/-- **The check and the query agree.** A source that passes its check with some query text is not
found to lack a setting by any query with that text, unless a connector says so. A source with a
name that is refused is found to lack the setting that the check names, if there is a connector
for its kind, and no connector is asked. So a run of a report that passes its check, and the chart
of a widget that does, never fail for a missing setting. A refresh never does, whatever widget is
stored, as it checks the widget first. -/
theorem settings_checked_as_asked :
    (∀ (connectors : Connectors) (source : Source) (input : QueryInput),
      source.validate input.query = .ok () →
        (Query.execute connectors source input).Avoids Event.MissesNoSetting
          QueryError.MissesSetting) ∧
    (∀ (source : Source) (query : Option String) (e : DomainError),
      Text.blank source.name = false → source.validate query = .error e →
        ∃ field, e = .validation ("data_source." ++ source.name ++ "." ++ field)
            ("required for " ++ source.kind.tag ++ " sources") ∧
          ∀ (connectors : Connectors) (parameters filters : Fields Json),
            connectors.Serves source.kind →
              Query.execute connectors source ⟨query, parameters, filters⟩
                = .fail (.missingField source.name field)) ∧
    (∀ (engine : Engine) (report : Report) (execution : ExecutionId), report.validate = .ok () →
      (engine.pipeline report execution).Avoids Event.MissesNoSetting
        EngineError.MissesSetting) ∧
    (∀ (engine : Engine) (widget : Widget), widget.validate = .ok () →
      (engine.widgetChart widget).Avoids Event.MissesNoSetting EngineError.MissesSetting) ∧
    ∀ (engine : Engine) (id : WidgetId),
      (engine.refreshWidget id).Avoids Event.MissesNoSetting EngineError.MissesSetting := by
  refine ⟨fun connectors source input h =>
    Query.avoids_execute connectors (Source.missingSetting?_of_validate h), ?_,
    fun engine _ execution h => engine.avoids_pipeline execution h,
    fun engine _ h => engine.avoids_widgetChart h, Engine.avoids_refreshWidget⟩
  intro source query e hname h
  rw [Source.validate_of_name hname] at h
  cases hmissing : source.missingSetting? query with
  | none =>
    rw [hmissing] at h
    cases h
  | some field =>
    rw [hmissing] at h
    cases h
    exact ⟨field, rfl, fun _ _ _ hserves => Query.execute_of_missing hserves hmissing⟩

/-- A blank query text does not stand in for the one that a relational source lacks; another one
does. -/
theorem settings_checked_of_override :
    let orders := Source.plain "orders" .relational
    let connectors : Connectors := ⟨true, false⟩
    orders.validate (some " ")
        = .error (.validation "data_source.orders.query" "required for relational sources") ∧
      Query.execute connectors orders ⟨some " ", ∅, ∅⟩ = .fail (.missingField "orders" "query") ∧
      orders.validate (some "SELECT 1") = .ok () ∧
      (Query.execute connectors orders ⟨some "SELECT 1", ∅, ∅⟩).Avoids Event.MissesNoSetting
        QueryError.MissesSetting := by
  intro orders connectors
  obtain ⟨haccepted, hrefused, -, -, -⟩ := settings_checked_as_asked
  have hblank : orders.validate (some " ")
      = .error (.validation "data_source.orders.query" "required for relational sources") := by
    decide +kernel
  have htext : orders.validate (some "SELECT 1") = .ok () := by decide +kernel
  obtain ⟨field, hfield, hexecute⟩ :=
    hrefused orders (some " ") _ (by decide +kernel) hblank
  have hname : field = "query" := by
    have hpath : "data_source.orders.query" = "data_source." ++ "orders" ++ "." ++ "query" := by
      decide +kernel
    injection hfield with hfield
    rw [hpath] at hfield
    exact ((String.append_right_inj _).mp hfield).symm
  subst hname
  exact ⟨hblank, hexecute connectors ∅ ∅ rfl, htext,
    haccepted connectors orders ⟨some "SELECT 1", ∅, ∅⟩ htext⟩

end Bulletin
