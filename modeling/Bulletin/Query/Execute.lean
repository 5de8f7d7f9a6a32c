import Bulletin.Action.Basic
import Bulletin.Sql.Query

/-!
# Querying sources

Every kind of source has its own connector. A source that lacks the connector or the setting of
its kind fails before anything is asked for. Datasets are filtered here; the other connectors get
the filters with the question, a relational one as conditions of the query text.

Several sources are queried one after the other and their rows joined. The first that fails ends
the query.
-/

namespace Bulletin

/-- Which of the connectors that may be missing are there. -/
structure Connectors where
  relational : Bool
  api : Bool
deriving DecidableEq

namespace Query

/-! ## Filters on datasets -/

/-- Whether a value passes a filter: it equals the expected value, or one of the items of an
expected array. -/
def accepts (actual expected : Json) : Bool :=
  match expected with
  | .array options => options.any actual.equal
  | v => actual.equal v

/-- Whether a row passes every filter. A field that the row lacks counts as `null`. -/
def matchesFilters (row : Record) (filters : Fields Json) : Bool :=
  filters.entries.all fun filter => accepts (row.value filter.1) filter.2

/-! ## One source -/

/-- Ends as a connector answers. -/
def ofReply {α : Type} : Reply α → Action QueryError α
  | .value a => pure a
  | .failure e => .fail e
  | .crash c => .crash c

/-- The query text: the one of the input if it is not blank, else the one of the source. -/
def queryText? (source : Source) (input : QueryInput) : Option String :=
  (input.query.filter fun q => !Text.blank q).or (source.setting? "query")

/-- Queries a relational source. -/
def relational (connectors : Connectors) (source : Source) (input : QueryInput) :
    Action QueryError (List Record) :=
  if connectors.relational then
    match queryText? source input with
    | none => .fail (.missingField source.name "query")
    | some text => do
      let connection := ((source.config.get? "connection").bind Json.fields?).getD ∅
      let reply ← Action.request
        (.relational connection (Sql.prepare text input.parameters input.filters))
      ofReply reply
  else .fail (.connectorUnavailable SourceKind.relational.tag)

/-- Queries a stored dataset. -/
def dataset (source : Source) (input : QueryInput) : Action QueryError (List Record) :=
  match source.setting? "dataset_id" with
  | none => .fail (.missingField source.name "dataset_id")
  | some id => do
    let reply ← Action.request (.dataset id)
    match ← ofReply reply with
    | none => .fail (.notFound "dataset" id)
    | some rows => return rows.filter (matchesFilters · input.filters)

/-- The string values of a setting that is an object. -/
def stringMembers (source : Source) (key : String) : Fields String :=
  match (source.config.get? key).bind Json.fields? with
  | none => ∅
  | some members => Fields.ofList (members.entries.filterMap fun member =>
      member.2.string?.map fun text => (member.1, text))

/-- The request for a source of an external interface. -/
def apiRequest (source : Source) (input : QueryInput) (url : String) : ApiRequest :=
  { sourceName := source.name
    url
    method := (source.setting? "method").getD "GET"
    headers := stringMembers source "headers"
    parameters := input.parameters
    filters := input.filters
    recordsPath := source.setting? "records_path" }

/-- Queries an external interface. -/
def api (connectors : Connectors) (source : Source) (input : QueryInput) :
    Action QueryError (List Record) :=
  if connectors.api then
    match source.setting? "url" with
    | none => .fail (.missingField source.name "url")
    | some url => do
      let reply ← Action.request (.api (apiRequest source input url))
      ofReply reply
  else .fail (.connectorUnavailable SourceKind.externalApi.tag)

/-- The rows of a source. -/
def execute (connectors : Connectors) (source : Source) (input : QueryInput) :
    Action QueryError (List Record) :=
  match source.kind with
  | .relational => relational connectors source input
  | .dataset => dataset source input
  | .externalApi => api connectors source input
  | .unsupported kind => .fail (.unsupportedSourceKind kind)

/-! ## All sources -/

/-- The rows of all sources, joined in order. -/
def executeAll (connectors : Connectors) (input : QueryInput) :
    List Source → Action QueryError (List Record)
  | [] => pure []
  | source :: rest => do
    let rows ← execute connectors source input
    let others ← executeAll connectors input rest
    return rows ++ others

end Query

end Bulletin
