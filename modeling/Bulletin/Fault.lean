/-!
# Faults of definitions and look-ups

`DomainError` is what can be wrong with a definition, an identifier or an encoding, and the form
to which the errors of every stage can be brought. Each cause has one message.
-/

namespace Bulletin

/-- What can go wrong, by cause. -/
inductive DomainError where
  /-- a definition or a change of state is not acceptable -/
  | validation (field reason : String)
  /-- a thing that is not stored -/
  | notFound (kind id : String)
  /-- a kind of data source that cannot be queried -/
  | unsupportedSourceKind (kind : String)
  /-- a text that is no identifier -/
  | invalidId (reason : String)
  /-- a text that is not JSON of the expected form -/
  | invalidEncoding (reason : String)
  /-- a failure to store or to load -/
  | storage (text : String)
  /-- any other failure -/
  | internal (text : String)
deriving DecidableEq

namespace DomainError

def message : DomainError → String
  | .validation field reason => s!"Validation failed for {field}: {reason}"
  | .notFound kind id => s!"{kind} not found: {id}"
  | .unsupportedSourceKind kind => s!"Unsupported source kind: {kind}"
  | .invalidId reason => s!"Invalid ID: {reason}"
  | .invalidEncoding reason => s!"Invalid encoding: {reason}"
  | .storage text => s!"Storage error: {text}"
  | .internal text => s!"Internal error: {text}"

end DomainError

end Bulletin
