import Bulletin.Text.Blank
import Bulletin.Json.Text

/-!
# Records and the values in them

A record is one row of data: named JSON values in order. This module holds the views that every
stage takes of a value: its number, its plain text, its place in the order of all values, and its
equality, for which `1` and `1.0` are one.

The order puts `null` first, then truth values, numbers, strings, arrays and objects. Within a
kind numbers are compared as doubles, strings by code point, and arrays and objects by their
compact text.
-/

namespace Bulletin

/-- One row of data. -/
abbrev Record := Fields Json

namespace Json

/-! ## Views of a value -/

/-- The number of a number. -/
def numeric? : Json → Option Binary64
  | .number n => some n.toBinary64
  | _ => none

/-- The number of a number or of a string that holds a numeral, blanks around it aside. -/
def coerced? : Json → Option Binary64
  | .number n => some n.toBinary64
  | .string s => readNumeral (Text.trim s.toList)
  | _ => none

/-- A value as it reads in running text: strings without quotes, nothing for `null`. -/
def plain : Json → String
  | .null => ""
  | .string s => s
  | v => v.compact

/-! ## Order and equality -/

/-- The place of a kind of values in the order. -/
def rank : Json → Nat
  | .null => 0
  | .bool _ => 1
  | .number _ => 2
  | .string _ => 3
  | .array _ => 4
  | .object _ => 5

/-- The order of all values. -/
def order (a b : Json) : Ordering :=
  match a, b with
  | .number x, .number y => (x.toBinary64.order? y.toBinary64).getD .eq
  | .string x, .string y => compare x y
  | .bool x, .bool y => compare x y
  | .array _, .array _ => compare a.compact b.compact
  | .object _, .object _ => compare a.compact b.compact
  | a, b => compare a.rank b.rank

/-- Equality of values in which numbers are compared as doubles. -/
def equal (a b : Json) : Bool :=
  match a.numeric?, b.numeric? with
  | some x, some y => x.numEq y
  | _, _ => a.same b

end Json

namespace Record

/-! ## Rows of a document -/

/-- The row of one value: an object is a row by itself, `null` is none, and anything else becomes
the only field of a row. -/
def ofJson? : Json → Option Record
  | .null => none
  | .object members => some (Fields.ofList members)
  | v => some (Fields.single "value" v)

/-- The rows of a document: one for every item of an array, else at most one. -/
def listOfJson : Json → List Record
  | .array items => items.filterMap ofJson?
  | v => (ofJson? v).toList

def toJson (row : Record) : Json := Json.ofFields row

/-- The value of a field, `null` where the row lacks it. -/
def value (row : Record) (field : String) : Json := (row.get? field).getD .null

/-- The text of a row. -/
def compact (row : Record) : String := row.toJson.compact

end Record

/-- The rows as a JSON array. -/
def rowsJson (rows : List Record) : Json := .array (rows.map Record.toJson)

/-- The names of all fields of all rows, each once, in the order in which they first come. -/
def columns (rows : List Record) : List String :=
  rows.foldl
    (fun names row => row.keys.foldl (fun names key => if key ∈ names then names else names ++ [key])
      names) []

end Bulletin
