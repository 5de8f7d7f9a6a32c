import Bulletin.Fault

/-!
# Errors of queries

What can go wrong when rows are fetched from a source, by cause.
-/

namespace Bulletin

inductive QueryError where
  /-- the kind of the source is none that can be queried -/
  | unsupportedSourceKind (kind : String)
  /-- a thing that the source names does not exist -/
  | notFound (kind id : String)
  /-- the source lacks a setting that its kind needs -/
  | missingField (source field : String)
  /-- there is no connector for the kind of the source -/
  | connectorUnavailable (kind : String)
  /-- the connector failed -/
  | connector (text : String)
  /-- the source answered with something that is not rows -/
  | invalidResponse (source reason : String)
deriving DecidableEq

namespace QueryError

def message : QueryError → String
  | .unsupportedSourceKind kind => "unsupported source kind: " ++ kind
  | .notFound kind id => kind ++ " not found: " ++ id
  | .missingField source field =>
    "source '" ++ source ++ "' is missing required field '" ++ field ++ "'"
  | .connectorUnavailable kind => "no connector configured for " ++ kind ++ " sources"
  | .connector text => "connector error: " ++ text
  | .invalidResponse source reason =>
    "invalid response from source '" ++ source ++ "': " ++ reason

/-- The common form of the error. -/
def toDomain : QueryError → DomainError
  | .unsupportedSourceKind kind => .unsupportedSourceKind kind
  | .notFound kind id => .notFound kind id
  | .missingField source field =>
    .validation ("data_source." ++ source ++ "." ++ field) "required field is missing"
  | e => .internal e.message

end QueryError

end Bulletin
