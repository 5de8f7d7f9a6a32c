import Bulletin.Record

/-!
# Comma-separated text

A header record with the names of all columns, then one record for each row. A record ends with a
line feed. A field is quoted if it holds a comma, a quote or a line break, and quotes inside are
doubled.
-/

namespace Bulletin.Csv

/-- Whether a field with this character must be quoted. -/
def special (c : Char) : Bool := c == ',' || c == '"' || c == '\n' || c == '\r'

/-- One field. -/
def field (text : List Char) : List Char :=
  if text.any special then
    '"' :: text.flatMap (fun c => if c = '"' then ['"', '"'] else [c]) ++ ['"']
  else text

/-- Fields with commas between them. -/
def fields : List (List Char) → List Char
  | [] => []
  | [text] => field text
  | text :: rest => field text ++ ',' :: fields rest

/-- Fields and the line feed that ends them. -/
def record (texts : List (List Char)) : List Char := fields texts ++ ['\n']

/-- The texts of a row, empty where the row lacks a column. -/
def cells (names : List String) (row : Record) : List (List Char) :=
  names.map fun name => (row.value name).plain.toList

/-- The header record and one record for each row. -/
def encode (rows : List Record) : List Char :=
  let names := columns rows
  record (names.map String.toList) ++ rows.flatMap fun row => record (cells names row)

end Bulletin.Csv
