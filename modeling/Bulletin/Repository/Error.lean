import Bulletin.Fault

/-!
# Errors of the repository

What can go wrong when a thing is stored or loaded, by cause.
-/

namespace Bulletin

inductive StorageError where
  /-- the database failed -/
  | database (text : String)
  /-- a stored text is not the encoding of a thing of its kind -/
  | serialization (text : String)
  /-- the call did not come to its end -/
  | task (text : String)
deriving DecidableEq

namespace StorageError

def message : StorageError → String
  | .database text => "database error: " ++ text
  | .serialization text => "serialization error: " ++ text
  | .task text => "storage task failed: " ++ text

/-- The common form of the error. -/
def toDomain (e : StorageError) : DomainError := .storage e.message

end StorageError

end Bulletin
