import Bulletin.Document.Format
import Bulletin.Document.Csv
import Bulletin.Document.Workbook
import Bulletin.Document.Pdf

/-!
# Files of a result

The name and the text of the file that an execution writes in a format.
-/

namespace Bulletin.Document

/-- The name of the file of an execution in a format. -/
def filename? (execution : ExecutionId) (format : OutputFormat) : Option String :=
  format.extension?.map fun ending => "report_" ++ execution.display ++ "." ++ ending

/-- The text of rows and charts in a format, none for a format that is not known. -/
def encode? (rows : List Record) (charts : Fields Chart) (format : OutputFormat)
    (execution : ExecutionId) : Option (List Char) :=
  match format with
  | .csv => some (Csv.encode rows)
  | .json => some ((rowsJson rows).prettyChars 0)
  | .excel => some (Workbook.encode rows charts)
  | .pdf => some (Pdf.encode execution rows.length charts.entries.length)
  | .unsupported _ => none

end Bulletin.Document
