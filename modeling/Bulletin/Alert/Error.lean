import Bulletin.Query.Error
import Bulletin.Repository.Error

/-!
# Errors of the evaluation of alert rules
-/

namespace Bulletin

inductive AlertError where
  /-- a rule or a change of state is not acceptable -/
  | validation (e : DomainError)
  | notFound (kind id : String)
  /-- the metric could not be queried -/
  | query (e : QueryError)
  /-- the query has no number for the metric -/
  | noMetric (rule : String)
  | storage (e : StorageError)
deriving DecidableEq

namespace AlertError

def message : AlertError → String
  | .validation e => e.message
  | .notFound kind id => kind ++ " not found: " ++ id
  | .query e => "metric query failed: " ++ e.message
  | .noMetric rule => "no metric value for rule '" ++ rule ++ "'"
  | .storage e => "storage error: " ++ e.message

/-- The error of a failed check or look-up. -/
def ofDomain : DomainError → AlertError
  | .notFound kind id => .notFound kind id
  | e => .validation e

end AlertError

end Bulletin
