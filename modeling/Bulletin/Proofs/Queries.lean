import Bulletin.Proofs.FilterMeaning
import Bulletin.Proofs.Requests

/-!
# What a query asks for

A query asks the connectors for rows, and for nothing else. A query of one source asks one connector
once, and ends as it answers, or it fails without having asked.

* `execute_cases` — all that a query of one source can do
* `asksOnly_execute` — one source
* `asksOnly_executeAll` — several sources
* `yields_execute_crash` — a query breaks down if a connector does
-/

namespace Bulletin

/-! ## Connectors -/

/-- A request to a connector of rows. -/
def Request.IsQuery : Request → Prop
  | .relational _ _ => True
  | .dataset _ => True
  | .api _ => True
  | _ => False

/-- A connector breaks down instead of answering. -/
def Event.Crashes : Event → Prop
  | ⟨.relational _ _, .crash _⟩ => True
  | ⟨.dataset _, .crash _⟩ => True
  | ⟨.api _, .crash _⟩ => True
  | _ => False

/-- A connector answers with an error. -/
def Event.Fails (e : QueryError) : Event → Prop
  | ⟨.relational _ _, .failure e'⟩ => e' = e
  | ⟨.dataset _, .failure e'⟩ => e' = e
  | ⟨.api _, .failure e'⟩ => e' = e
  | _ => False

/-! ## Settings -/

/-- The needed setting of a source, if the source does not have it. -/
def Source.missingSetting? (source : Source) (query : Option String) : Option String :=
  (source.requiredSetting query).filter fun field => (source.setting? field).isNone

section

variable {source : Source} {input : QueryInput}

theorem Source.missingSetting?_of_setting {query : Option String} {field : String}
    (h : source.requiredSetting query = some field) (hnone : source.setting? field = none) :
    source.missingSetting? query = some field := by
  rw [missingSetting?, h, Option.filter_some, hnone]
  rfl

/-- A relational source has a query text, unless its setting is missing. -/
theorem Query.queryText?_eq_none_iff (hkind : source.kind = .relational) :
    queryText? source input = none ↔ source.missingSetting? input.query = some "query" := by
  unfold queryText? Source.missingSetting? Source.requiredSetting
  rw [hkind]
  cases hquery : input.query with
  | none => cases hset : source.setting? "query" <;> simp [hset]
  | some text =>
    cases hblank : Text.blank text with
    | true => cases hset : source.setting? "query" <;> simp [hblank, hset]
    | false => simp [hblank]

end

/-! ## One source -/

/-- The query asks a connector, once, and ends as it answers. -/
structure Query.Asks (query : Action QueryError (List Record)) (r : Request)
    (conclude : r.Answer → Ending QueryError (List Record)) : Prop where
  eq_ask : query = .ask r fun answer => .stop (conclude answer)
  isQuery : r.IsQuery
  crash_iff : ∀ answer, (∃ c, conclude answer = .crash c) ↔ Event.Crashes ⟨r, answer⟩
  error : ∀ answer e, conclude answer = .error e →
    Event.Fails e ⟨r, answer⟩ ∨ ∃ id, e = .notFound "dataset" id

namespace Query

/-- The end of a request that is answered with a reply. -/
def endingOf {α : Type} : Reply α → Ending QueryError α
  | .value a => .value a
  | .failure e => .error e
  | .crash c => .crash c

theorem ofReply_eq {α : Type} (reply : Reply α) : ofReply reply = .stop (endingOf reply) := by
  cases reply <;> rfl

theorem asks_relational (connection : Fields Json) (sql : String) :
    Asks (Action.request (.relational connection sql) >>= ofReply) (.relational connection sql)
      endingOf where
  eq_ask := congrArg (Action.ask _) (funext ofReply_eq)
  isQuery := trivial
  crash_iff reply := by cases reply <;> simp [endingOf, Event.Crashes]
  error reply e h := by
    cases reply <;> cases h
    exact .inl rfl

theorem asks_api (request : ApiRequest) :
    Asks (Action.request (.api request) >>= ofReply) (.api request) endingOf where
  eq_ask := congrArg (Action.ask _) (funext ofReply_eq)
  isQuery := trivial
  crash_iff reply := by cases reply <;> simp [endingOf, Event.Crashes]
  error reply e h := by
    cases reply <;> cases h
    exact .inl rfl

/-- The end of a query of a dataset: of its rows, those that pass the filters, in their order. -/
def endingOfDataset (id : String) (filters : Fields Json) :
    Reply (Option (List Record)) → Ending QueryError (List Record)
  | .value none => .error (.notFound "dataset" id)
  | .value (some rows) => .value (rows.filter fun row => Passes row filters)
  | .failure e => .error e
  | .crash c => .crash c

theorem filter_matchesFilters (filters : Fields Json) (rows : List Record) :
    rows.filter (matchesFilters · filters) = rows.filter fun row => Passes row filters :=
  List.filter_congr fun row _ => Bool.eq_iff_iff.mpr
    ((matchesFilters_iff_passes row filters).trans decide_eq_true_iff.symm)

theorem asks_dataset {source : Source} {id : String} (input : QueryInput)
    (h : source.setting? "dataset_id" = some id) :
    Asks (dataset source input) (.dataset id) (endingOfDataset id input.filters) where
  eq_ask := by
    rw [dataset, h]
    refine congrArg (Action.ask (.dataset id)) (funext fun reply => ?_)
    match reply with
    | .value (some rows) =>
      exact congrArg (Action.stop ∘ Ending.value) (filter_matchesFilters input.filters rows)
    | .value none | .failure e | .crash c => rfl
  isQuery := trivial
  crash_iff reply := by
    match reply with
    | .value none | .value (some rows) | .failure e | .crash c =>
      simp [endingOfDataset, Event.Crashes]
  error reply e h := by
    match reply with
    | .value none =>
      cases h
      exact .inr ⟨id, rfl⟩
    | .failure e' =>
      cases h
      exact .inl rfl
    | .value (some rows) | .crash c => cases h

/-- A query of one source fails without asking, where it misses no setting but one that the source
lacks, or it asks a connector. -/
theorem execute_cases (connectors : Connectors) (source : Source) (input : QueryInput) :
    (∃ e, execute connectors source input = .fail e ∧ ∀ name field,
      e = .missingField name field → source.missingSetting? input.query = some field) ∨
    ∃ r conclude, Asks (execute connectors source input) r conclude := by
  unfold execute
  cases hkind : source.kind with
  | relational =>
    cases htext : queryText? source input with
    | none =>
      have hmissing := (queryText?_eq_none_iff hkind).mp htext
      simp only [relational, htext]
      split
      · refine .inl ⟨_, rfl, ?_⟩
        rintro _ _ ⟨⟩
        exact hmissing
      · exact .inl ⟨_, rfl, nofun⟩
    | some text =>
      simp only [relational, htext]
      split
      · exact .inr ⟨_, _, asks_relational _ _⟩
      · exact .inl ⟨_, rfl, nofun⟩
  | dataset =>
    cases hset : source.setting? "dataset_id" with
    | none =>
      simp only [dataset, hset]
      refine .inl ⟨_, rfl, ?_⟩
      rintro _ _ ⟨⟩
      exact Source.missingSetting?_of_setting (by rw [Source.requiredSetting, hkind]) hset
    | some id => exact .inr ⟨_, _, asks_dataset input hset⟩
  | externalApi =>
    cases hset : source.setting? "url" with
    | none =>
      simp only [api, hset]
      split
      · refine .inl ⟨_, rfl, ?_⟩
        rintro _ _ ⟨⟩
        exact Source.missingSetting?_of_setting (by rw [Source.requiredSetting, hkind]) hset
      · exact .inl ⟨_, rfl, nofun⟩
    | some url =>
      simp only [api, hset]
      split
      · exact .inr ⟨_, _, asks_api _⟩
      · exact .inl ⟨_, rfl, nofun⟩
  | unsupported kind => exact .inl ⟨_, rfl, nofun⟩

end Query

theorem asksOnly_execute (connectors : Connectors) (source : Source) (input : QueryInput) :
    (Query.execute connectors source input).AsksOnly Request.IsQuery := by
  rcases Query.execute_cases connectors source input with ⟨e, he, -⟩ | ⟨r, conclude, h⟩
  · rw [he]
    trivial
  · rw [h.eq_ask]
    exact ⟨h.isQuery, fun _ => trivial⟩

/-- A query breaks down if and only if a connector does. -/
theorem yields_execute_crash {connectors : Connectors} {source : Source} {input : QueryInput}
    {events : List Event} {ending : Ending QueryError (List Record)}
    (h : (Query.execute connectors source input).Yields events ending) :
    (∃ c, ending = .crash c) ↔ ∃ event ∈ events, event.Crashes := by
  rcases Query.execute_cases connectors source input with ⟨e, he, -⟩ | ⟨r, conclude, hasks⟩
  · rw [he] at h
    obtain ⟨rfl, rfl⟩ := Action.yields_stop.mp h
    simp
  · rw [hasks.eq_ask] at h
    cases h with
    | ask h =>
      obtain ⟨rfl, rfl⟩ := Action.yields_stop.mp h
      simp [hasks.crash_iff]

/-! ## All sources -/

theorem asksOnly_executeAll (connectors : Connectors) (input : QueryInput)
    (sources : List Source) :
    (Query.executeAll connectors input sources).AsksOnly Request.IsQuery := by
  induction sources with
  | nil => trivial
  | cons source rest ih =>
    refine Action.asksOnly_bind (asksOnly_execute _ _ _) fun rows => ?_
    exact Action.asksOnly_bind ih fun _ => trivial

end Bulletin
