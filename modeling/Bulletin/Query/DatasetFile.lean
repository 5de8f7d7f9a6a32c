import Bulletin.Record
import Bulletin.Json.Value
import Bulletin.Query.Error

/-!
# Datasets in files

A dataset may lie in a JSON file that is named after it. Only letters, digits, underscores and
hyphens of ASCII may stand in such a name, so that no name leads out of the directory.
-/

namespace Bulletin.DatasetFile

/-- The name of the file of a dataset; `none` for an identifier that names no file. -/
def name? (id : String) : Option String :=
  if id ≠ "" ∧ id.toList.all fun c => c.isAlphanum || c == '_' || c == '-' then
    some (id ++ ".json")
  else none

/-- The rows in the text of a file. -/
def rows (id text : String) : Except QueryError (List Record) :=
  match Json.ofText text with
  | .ok document => .ok (Record.listOfJson document)
  | .error flaw => .error (.invalidResponse id flaw.message)

end Bulletin.DatasetFile
