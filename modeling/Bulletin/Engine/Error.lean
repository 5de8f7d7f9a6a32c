import Bulletin.Artifact.Basic
import Bulletin.Query.Error
import Bulletin.Repository.Error

/-!
# Errors of the engine

Only what is wrong with a definition, a look-up or the repository reaches the caller of a trigger.
The other errors are written into the execution that they ended.
-/

namespace Bulletin

inductive EngineError where
  /-- a definition or a change of state is not acceptable -/
  | validation (e : DomainError)
  | notFound (kind id : String)
  | storage (e : StorageError)
  | query (e : QueryError)
  | render (e : ArtifactError)
  /-- any other failure of a run, crashes among them -/
  | execution (text : String)
  /-- the run in the background was lost -/
  | task (text : String)
deriving DecidableEq

namespace EngineError

def message : EngineError → String
  | .validation e => e.message
  | .notFound kind id => kind ++ " not found: " ++ id
  | .storage e => "storage error: " ++ e.message
  | .query e => "query failed: " ++ e.message
  | .render e => "render failed: " ++ e.message
  | .execution text => "execution failed: " ++ text
  | .task text => "background task failed: " ++ text

/-- The error of a failed check or look-up. -/
def ofDomain : DomainError → EngineError
  | .notFound kind id => .notFound kind id
  | e => .validation e

/-- The common form of the error. -/
def toDomain : EngineError → DomainError
  | .validation e => e
  | .notFound kind id => .notFound kind id
  | .storage e => e.toDomain
  | .query e => e.toDomain
  | .render e => e.toDomain
  | e => .internal e.message

end EngineError

end Bulletin
