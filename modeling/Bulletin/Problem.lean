import Bulletin.Alert.Error
import Bulletin.Alert.Notification
import Bulletin.Definitions
import Bulletin.Engine.Error

/-!
# Errors as documents

An error is reported as a document that names its kind and gives its message; an error with a
common form gives the kind and the message of that too. Messages that come from outside, from the
file system or from a reader of some format, are not part of the document.
-/

namespace Bulletin

/-- What is reported of an error. -/
structure Problem where
  kind : String
  message : Option String
  common : Option (String × String)
deriving DecidableEq

namespace Problem

def toJson (problem : Problem) : Json :=
  .object (("error", .string problem.kind) :: optionalMember "message" .string problem.message
    ++ match problem.common with
      | none => []
      | some (kind, message) => [("core", .string kind), ("core_message", .string message)])

/-- An error of which nothing but its kind is reported. -/
def bare (kind : String) : Problem := ⟨kind, none, none⟩

def plain (kind message : String) : Problem := ⟨kind, some message, none⟩

end Problem

/-! ## Kinds -/

def DomainError.kind : DomainError → String
  | .validation .. => "Validation"
  | .notFound .. => "NotFound"
  | .unsupportedSourceKind _ => "UnsupportedSourceKind"
  | .invalidId _ => "InvalidId"
  | .invalidEncoding _ => "InvalidEncoding"
  | .storage _ => "Storage"
  | .internal _ => "Internal"

def QueryError.kind : QueryError → String
  | .unsupportedSourceKind _ => "UnsupportedSourceKind"
  | .notFound .. => "NotFound"
  | .missingField .. => "MissingField"
  | .connectorUnavailable _ => "ConnectorUnavailable"
  | .connector _ => "Connector"
  | .invalidResponse .. => "InvalidResponse"

def EngineError.kind : EngineError → String
  | .validation _ => "Validation"
  | .notFound .. => "NotFound"
  | .storage _ => "Storage"
  | .query _ => "Query"
  | .render _ => "Render"
  | .execution _ => "ExecutionFailure"
  | .task _ => "Task"

def AlertError.kind : AlertError → String
  | .validation _ => "Validation"
  | .notFound .. => "NotFound"
  | .query _ => "Query"
  | .noMetric _ => "NoMetric"
  | .storage _ => "Storage"

/-! ## Documents -/

namespace Problem

/-- An error with its common form. -/
def shared (kind message : String) (common : DomainError) : Problem :=
  ⟨kind, some message, some (common.kind, common.message)⟩

def ofDomain (e : DomainError) : Problem :=
  match e with
  | .invalidId _ | .invalidEncoding _ => bare e.kind
  | e => plain e.kind e.message

def ofQuery (e : QueryError) : Problem := shared e.kind e.message e.toDomain

def ofStorage (e : StorageError) : Problem :=
  match e with
  | .database _ => bare "Database"
  | .serialization _ => bare "Serialization"
  | .task _ => shared "Task" e.message e.toDomain

def ofArtifact (e : ArtifactError) : Problem :=
  match e with
  | .io _ => bare "Io"
  | .serialization _ => bare "Serialization"
  | .notFound _ => shared "NotFound" e.message e.toDomain
  | .invalidName _ => shared "InvalidName" e.message e.toDomain

def ofEngine (e : EngineError) : Problem :=
  match e with
  | .task _ => bare e.kind
  | e => shared e.kind e.message e.toDomain

def ofAlert (e : AlertError) : Problem := plain e.kind e.message

def ofDelivery (e : DeliveryError) : Problem :=
  match e with
  | .http _ => bare "Http"
  | .status .. => plain "Status" e.message
  | .mail _ => plain "Email" e.message
  | .undeliverable .. => plain "Undeliverable" e.message

def ofImport (e : Definitions.ImportError) : Problem := plain "import" e.message

end Problem

end Bulletin
