import Bulletin.Record

/-!
# Literals and predicates

How a value is written in a query text, and what the filter of one field becomes. A string is
quoted and its quotes are doubled, so no value can end its own literal; arrays and objects are
quoted as their compact text.
-/

namespace Bulletin.Sql

/-- A text in single quotes, with the quotes inside doubled. -/
def quoted (text : List Char) : List Char :=
  '\'' :: text.flatMap (fun c => if c = '\'' then ['\'', '\''] else [c]) ++ ['\'']

/-- The literal of a value. -/
def literal : Json → List Char
  | .null => "NULL".toList
  | .bool true => "TRUE".toList
  | .bool false => "FALSE".toList
  | .number n => n.text
  | .string s => quoted s.toList
  | v => quoted v.chars

/-- Texts with a separator between them. -/
def joined (separator : List Char) : List (List Char) → List Char
  | [] => []
  | [text] => text
  | text :: rest => text ++ separator ++ joined separator rest

/-- The condition that a filter puts on a field. A list asks for one of its items, so an empty
list can never be met. -/
def predicate (field : String) : Json → List Char
  | .null => field.toList ++ " IS NULL".toList
  | .array [] => "1 = 0".toList
  | .array (v :: rest) =>
    field.toList ++ " IN (".toList ++ joined ", ".toList ((v :: rest).map literal) ++ [')']
  | v => field.toList ++ " = ".toList ++ literal v

/-- The conditions of all filters. -/
def conjunction (filters : Fields Json) : List Char :=
  joined " AND ".toList (filters.entries.map fun entry => predicate entry.1 entry.2)

end Bulletin.Sql
