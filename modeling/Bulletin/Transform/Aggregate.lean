import Bulletin.Record
import Bulletin.Json.Decode

/-!
# Grouping and aggregating

Rows belong to one group when the values of the grouping fields are written alike, a missing
field counting as `null`. Groups come in the order of their first rows. Each group gives one row:
the grouping fields, then the aggregated ones.

## Sums

A sum stays a whole number as long as every number is a signed word and so is every partial sum.
Otherwise it is the double that adding the numbers in row order gives, or `null` if that is not
finite.
-/

namespace Bulletin

/-! ## Functions -/

inductive Aggregate where
  | sum
  | avg
  | count
  | min
  | max
deriving DecidableEq

namespace Aggregate

def name : Aggregate → String
  | .sum => "sum"
  | .avg => "avg"
  | .count => "count"
  | .min => "min"
  | .max => "max"

def ofName? : String → Option Aggregate
  | "sum" => some .sum
  | "avg" | "mean" | "average" => some .avg
  | "count" => some .count
  | "min" => some .min
  | "max" => some .max
  | _ => none

def toJson (function : Aggregate) : Json := .string function.name

def ofDraft? (v : Draft) : Option Aggregate := v.variant?.bind ofName?

end Aggregate

/-! ## The running state of a group -/

/-- What is known of the values of one field in one group so far. -/
structure Tally where
  /-- the sum of the signed words, up to the last one that fitted -/
  wholeSum : Int
  /-- the sum of all numbers as doubles -/
  realSum : Binary64
  /-- no number other than a signed word has come -/
  allWhole : Bool
  /-- a partial sum did not fit a signed word -/
  overflowed : Bool
  /-- how many numbers have come -/
  numbers : Nat
  /-- how many values other than `null` have come -/
  present : Nat
  /-- the earliest of the least values -/
  least : Option Json
  /-- the earliest of the greatest values -/
  greatest : Option Json

namespace Tally

def start : Tally := ⟨0, Binary64.zero, true, false, 0, 0, none, none⟩

/-- Adds to the whole sum, if the result is a signed word. -/
def addWhole (tally : Tally) (n : Int) : Tally :=
  if tally.allWhole then
    let total := tally.wholeSum + n
    if Json.FitsSigned total then { tally with wholeSum := total }
    else { tally with overflowed := true }
  else tally

/-- Counts a number in both sums. -/
def addNumber (tally : Tally) (n : Json.Number) : Tally :=
  let tally := { tally with
    numbers := tally.numbers + 1
    realSum := tally.realSum.add n.toBinary64 }
  match n.signed? with
  | some n => tally.addWhole n
  | none => { tally with allWhole := false }

/-- Takes a value as an extreme if there is none yet or if it lies beyond the one there is. -/
def extreme (beyond : Ordering) (current : Option Json) (v : Json) : Option Json :=
  match current with
  | none => some v
  | some c => if v.order c == beyond then some v else some c

/-- Counts one value. -/
def push (tally : Tally) (v : Json) : Tally :=
  match v with
  | .null => tally
  | v =>
    let tally := match v with
      | .number n => tally.addNumber n
      | _ => tally
    { tally with
      present := tally.present + 1
      least := extreme .lt tally.least v
      greatest := extreme .gt tally.greatest v }

/-- The tally of the values of a group in row order. -/
def ofValues (values : List Json) : Tally := values.foldl push start

/-- The result of a function. -/
def result (tally : Tally) : Aggregate → Json
  | .sum =>
    if tally.allWhole && !tally.overflowed then Json.int tally.wholeSum else Json.real tally.realSum
  | .avg =>
    if tally.numbers = 0 then .null else Json.real (tally.realSum.divNat tally.numbers)
  | .count => Json.nat tally.present
  | .min => tally.least.getD .null
  | .max => tally.greatest.getD .null

end Tally

/-! ## Groups -/

/-- The values of the grouping fields of a row. -/
def keyTuple (groupBy : List String) (row : Record) : List Json := groupBy.map row.value

/-- The text by which rows are told apart. -/
def groupKey (groupBy : List String) (row : Record) : String :=
  (Json.array (keyTuple groupBy row)).compact

/-- Each element once, in the order in which they first come. -/
def firstOccurrences (keys : List String) : List String :=
  keys.foldl (fun seen key => if key ∈ seen then seen else seen ++ [key]) []

/-- The groups of rows, in the order of their first rows. -/
def groupRows (groupBy : List String) (rows : List Record) : List (List Record) :=
  (firstOccurrences (rows.map (groupKey groupBy))).map fun key =>
    rows.filter fun row => groupKey groupBy row == key

/-- The grouping fields of a row with their values. -/
def keyFields (groupBy : List String) (row : Record) : Record :=
  Fields.ofList (groupBy.map fun field => (field, row.value field))

/-- The row of a group: its grouping fields, then the aggregated fields. -/
def summaryRow (groupBy : List String) (aggregations : Fields Aggregate) (group : List Record) :
    Record :=
  aggregations.entries.foldl
    (fun out entry =>
      out.insert entry.1 ((Tally.ofValues (group.map (·.value entry.1))).result entry.2))
    (match group with
      | [] => ∅
      | first :: _ => keyFields groupBy first)

/-- One row for each group. -/
def aggregate (rows : List Record) (groupBy : List String) (aggregations : Fields Aggregate) :
    List Record :=
  (groupRows groupBy rows).map (summaryRow groupBy aggregations)

end Bulletin
