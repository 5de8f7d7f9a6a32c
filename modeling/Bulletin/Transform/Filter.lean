import Bulletin.Record
import Bulletin.Json.Decode

/-!
# Comparing a field with a value

The operators of a filter step. Equality is the equality of values. The two strict comparisons
hold only between two numbers or two strings; between values of other kinds they are false.
-/

namespace Bulletin

inductive FilterOperator where
  | equals
  | greaterThan
  | lessThan
deriving DecidableEq

namespace FilterOperator

def name : FilterOperator → String
  | .equals => "equals"
  | .greaterThan => "greater_than"
  | .lessThan => "less_than"

def ofName? : String → Option FilterOperator
  | "equals" | "eq" => some .equals
  | "greater_than" | "gt" => some .greaterThan
  | "less_than" | "lt" => some .lessThan
  | _ => none

def toJson (operator : FilterOperator) : Json := .string operator.name

def ofDraft? (v : Draft) : Option FilterOperator := v.variant?.bind ofName?

/-- The order of two values that can be compared: two numbers or two strings. -/
def comparison? : Json → Json → Option Ordering
  | .number x, .number y => x.toBinary64.order? y.toBinary64
  | .string x, .string y => some (compare x y)
  | _, _ => none

/-- Whether the comparison of an actual with an expected value holds. -/
def holds (operator : FilterOperator) (actual expected : Json) : Bool :=
  match operator with
  | .equals => actual.equal expected
  | .greaterThan => comparison? actual expected == some .gt
  | .lessThan => comparison? actual expected == some .lt

end FilterOperator

end Bulletin
