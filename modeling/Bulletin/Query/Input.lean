import Bulletin.Report.Definition

/-!
# Inputs of a query

What a query is asked with, and the request that a source of an external interface is sent.
-/

namespace Bulletin

/-- A query text that stands in for the one of the source, parameters, and filters by field. -/
structure QueryInput where
  query : Option String
  parameters : Fields Json
  filters : Fields Json
deriving DecidableEq

/-- The input of a report or a widget. -/
def QueryConfig.input (config : QueryConfig) : QueryInput :=
  ⟨config.query, config.parameters, config.filters⟩

/-- A request to an external interface. -/
structure ApiRequest where
  sourceName : String
  url : String
  method : String
  headers : Fields String
  parameters : Fields Json
  filters : Fields Json
  recordsPath : Option String
deriving DecidableEq

end Bulletin
