import Bulletin.Transform.Filter
import Bulletin.Transform.Aggregate

/-!
# Transform steps

A list of steps is applied to rows strictly in order. A step of an unknown type is kept in the
list and changes nothing.
-/

namespace Bulletin

/-- One step. -/
inductive TransformStep where
  /-- group rows and aggregate fields -/
  | aggregation (groupBy : List String) (aggregations : Fields Aggregate)
  /-- keep the rows for which a comparison holds -/
  | filter (field : String) (operator : FilterOperator) (expected : Json)
  /-- sort by one field; rows with equal values keep their order -/
  | sort (field : String) (ascending : Bool)
  /-- keep the first rows -/
  | limit (count : UInt64)
  /-- a step of a type that is not known -/
  | unknown
deriving DecidableEq

namespace TransformStep

def kind : TransformStep → String
  | .aggregation .. => "aggregation"
  | .filter .. => "filter"
  | .sort .. => "sort"
  | .limit .. => "limit"
  | .unknown => "unknown"

/-! ## JSON -/

def toJson (step : TransformStep) : Json :=
  .object (("type", .string step.kind) ::
    match step with
    | .aggregation groupBy aggregations =>
      [("group_by", .array (groupBy.map .string)),
        ("aggregations", Json.ofFields (aggregations.map Aggregate.toJson))]
    | .filter field operator expected =>
      [("field", .string field), ("operator", operator.toJson), ("value", expected)]
    | .sort field ascending => [("field", .string field), ("ascending", .bool ascending)]
    | .limit count => [("n", .nat count.toNat)]
    | .unknown => [])

def readAggregation? (v : Draft) : Option TransformStep := do
  match ← v.slots? [["group_by"], ["aggregations"]] with
  | [groupBy, aggregations] =>
    return .aggregation (← groupBy.orElse [] (Draft.readList? Draft.readString?))
      (← aggregations.orElse ∅
        (Draft.readFields? fun v => v.innerVariant?.bind Aggregate.ofName?))
  | _ => none

def readFilter? (v : Draft) : Option TransformStep := do
  match ← v.slots? [["field"], ["operator"], ["value"]] with
  | [field, operator, expected] =>
    return .filter (← field.required Draft.readString?)
      (← operator.required fun v => v.innerVariant?.bind FilterOperator.ofName?)
      (← expected.required Draft.readAny?)
  | _ => none

def readSort? (v : Draft) : Option TransformStep := do
  match ← v.slots? [["field"], ["ascending"]] with
  | [field, ascending] =>
    return .sort (← field.required Draft.readString?) (← ascending.orElse true Draft.readBool?)
  | _ => none

def readLimit? (v : Draft) : Option TransformStep := do
  match ← v.slots? [["n", "count", "limit"]] with
  | [count] => return .limit (← count.required Draft.readWord64?)
  | _ => none

/-- Reads a step by its `type`; types may go by other names. -/
def ofDraft? (v : Draft) : Option TransformStep := do
  let (tag, content) ← v.tagged? "type"
  match tag with
  | "aggregation" | "aggregate" | "group_by" => readAggregation? content
  | "filter" => readFilter? content
  | "sort" => readSort? content
  | "limit" => readLimit? content
  | _ => if content.contentless then some .unknown else none

/-! ## Application -/

/-- Whether a row may stand before another in the order of a field. -/
def sortedBefore (field : String) (ascending : Bool) (a b : Record) : Bool :=
  let order := (a.value field).order (b.value field)
  if ascending then order != .gt else order != .lt

def apply (rows : List Record) : TransformStep → List Record
  | .aggregation groupBy aggregations => aggregate rows groupBy aggregations
  | .filter field operator expected =>
    rows.filter fun row => operator.holds (row.value field) expected
  | .sort field ascending => rows.mergeSort (sortedBefore field ascending)
  | .limit count => rows.take count.toNat
  | .unknown => rows

/-- Applies steps in order. -/
def applyAll (rows : List Record) (steps : List TransformStep) : List Record :=
  steps.foldl apply rows

end TransformStep

end Bulletin
