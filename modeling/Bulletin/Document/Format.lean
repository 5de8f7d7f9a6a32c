import Bulletin.Text.Blank
import Bulletin.Json.Decode

/-!
# Output formats

The formats in which a result can be written. A format that is not known is kept as it was
written; no file is made for it.
-/

namespace Bulletin

inductive OutputFormat where
  | csv
  | json
  | excel
  | pdf
  /-- any other format, as written -/
  | unsupported (name : String)
deriving DecidableEq

namespace OutputFormat

def tag : OutputFormat → String
  | .csv => "csv"
  | .json => "json"
  | .excel => "excel"
  | .pdf => "pdf"
  | .unsupported name => name

/-- The ending of file names. -/
def extension? : OutputFormat → Option String
  | .csv => some "csv"
  | .json => some "json"
  | .excel => some "xls"
  | .pdf => some "pdf"
  | .unsupported _ => none

def supported (format : OutputFormat) : Bool := format.extension?.isSome

/-- Reads a tag or one of its other names, in any ASCII case. -/
def ofTag (tag : String) : OutputFormat :=
  match Text.lower tag with
  | "csv" => .csv
  | "json" => .json
  | "excel" | "xls" | "xlsx" => .excel
  | "pdf" => .pdf
  | _ => .unsupported tag

def toJson (format : OutputFormat) : Json := .string format.tag

def ofDraft? (v : Draft) : Option OutputFormat := v.readString?.map ofTag

end OutputFormat

end Bulletin
