import Bulletin.Number.Binary64

/-!
# Decimal numerals

Between doubles and their decimal text there are two rules of general use and one choice per
output.

* `Finite64.shortest` finds the decimal with the fewest digits that still rounds to the number.
  It walks decimal grids from coarse to fine and stops at the first grid that has a point inside
  the interval of values rounding to the number. If a grid has such a point, one of the two
  neighbours of the number on that grid is such a point, so only those two are looked at.
* `Decimal.digits` is the ordinary decimal text of the coefficient.
* `NumeralLayout` says how the digits are set out. There are two layouts: `json` is the one of
  every JSON text, `message` the one of sentences meant for people.

The way back is `readNumeral`.
-/

namespace Bulletin

/-! ## Digits -/

/-- The decimal text of a natural number. -/
def natText (n : Nat) : List Char := Nat.toDigits 10 n

/-- The decimal text of a whole number. -/
def intText (n : Int) : List Char :=
  if n < 0 then '-' :: natText n.natAbs else natText n.natAbs

/-- The decimal text of a natural number, filled up with zeros to a least width. -/
def paddedText (width n : Nat) : List Char :=
  List.replicate (width - (natText n).length) '0' ++ natText n

/-- The value of a run of decimal digits. -/
def digitsValue (digits : List Char) : Nat :=
  digits.foldl (fun value c => value * 10 + (c.toNat - '0'.toNat)) 0

/-- A leading run of decimal digits, and what follows it. -/
def spanDigits (text : List Char) : List Char × List Char :=
  (text.takeWhile Char.isDigit, text.dropWhile Char.isDigit)

/-- `coefficient * 10 ^ exponent`. -/
structure Decimal where
  coefficient : Nat
  exponent : Int
deriving DecidableEq

namespace Decimal

def digits (d : Decimal) : List Char := natText d.coefficient

/-- Where the point stands: the value is `0.DIGITS * 10 ^ point`. -/
def point (d : Decimal) : Int := d.digits.length + d.exponent

/-- The decimal as a ratio of quarter units, numerator and denominator. -/
def quarters (d : Decimal) : Nat × Nat :=
  if 0 ≤ d.exponent then (d.coefficient * 10 ^ d.exponent.toNat * Binary64.unit * 4, 1)
  else (d.coefficient * Binary64.unit * 4, 10 ^ (-d.exponent).toNat)

end Decimal

/-! ## The shortest decimal -/

/-- Which of two equally near decimals is taken. -/
inductive Tie where
  | toEven
  | up
deriving DecidableEq

namespace Finite64

/-- The weight of the last significant bit, in units. -/
def step (x : Finite64) : Nat := 2 ^ (x.units.log2 - 52)

/-- The lower end, in quarter units, of the values that round to the number. -/
def lowerEnd (x : Finite64) : Nat :=
  if x.units = 2 ^ x.units.log2 ∧ 1 < x.step then 4 * x.units - x.step
  else 4 * x.units - 2 * x.step

/-- The upper end, in quarter units, of the values that round to the number. -/
def upperEnd (x : Finite64) : Nat := 4 * x.units + 2 * x.step

/-- Whether a decimal rounds to the magnitude of the number. The two ends do so exactly when the
last significant bit is `0`. -/
def covers (x : Finite64) (d : Decimal) : Bool :=
  let (num, den) := d.quarters
  if x.units / x.step % 2 = 0 then
    decide (x.lowerEnd * den ≤ num ∧ num ≤ x.upperEnd * den)
  else decide (x.lowerEnd * den < num ∧ num < x.upperEnd * den)

/-- The better of the two neighbours of the number on the grid of multiples of `10 ^ exponent`,
if one of them rounds to the number. -/
def onGrid? (tie : Tie) (x : Finite64) (exponent : Int) : Option Decimal :=
  let (num, den) :=
    if 0 ≤ exponent then (x.units, Binary64.unit * 10 ^ exponent.toNat)
    else (x.units * 10 ^ (-exponent).toNat, Binary64.unit)
  let below : Decimal := ⟨num / den, exponent⟩
  let above : Decimal := ⟨num / den + 1, exponent⟩
  match x.covers below, x.covers above with
  | true, true =>
    if 2 * (num % den) < den then some below
    else if den < 2 * (num % den) then some above
    else if tie = .toEven ∧ below.coefficient % 2 = 0 then some below
    else some above
  | true, false => some below
  | false, true => some above
  | false, false => none

/-- Tries ever finer grids. Seventeen digits tell all doubles apart, so a hit comes within a
dozen and a half steps of a grid coarser than the number. -/
def firstGrid (tie : Tie) (x : Finite64) : Nat → Int → Decimal
  | 0, exponent => ⟨0, exponent⟩
  | tries + 1, exponent =>
    match x.onGrid? tie exponent with
    | some d => d
    | none => firstGrid tie x tries (exponent - 1)

/-- The decimal with the fewest digits that rounds to the magnitude of the number. -/
def shortest (tie : Tie) (x : Finite64) : Decimal :=
  firstGrid tie x 25 (((x.units.log2 : Int) - 1074) * 30103 / 100000 + 1)

end Finite64

/-! ## Layouts -/

/-- How the digits of a number are set out. -/
structure NumeralLayout where
  /-- which of two equally near decimals is written -/
  tie : Tie
  /-- the positions of the point that are written without an exponent; all, if absent -/
  positional : Option (Int × Int)
  /-- what stands after the digits of a whole number written without an exponent -/
  wholeEnding : String

namespace NumeralLayout

/-- In JSON text a number from `1e-5` up to `1e16` is written without an exponent and with at
least one decimal. Of two equally near decimals the even one is written. -/
def json : NumeralLayout := ⟨.toEven, some (-4, 16), ".0"⟩

/-- In a message there is no exponent and a whole number has no decimals. -/
def message : NumeralLayout := ⟨.up, none, ""⟩

/-- Digits without an exponent. -/
def positionalText (layout : NumeralLayout) (d : Decimal) : List Char :=
  let digits := d.digits
  if d.point ≤ 0 then '0' :: '.' :: List.replicate (-d.point).toNat '0' ++ digits
  else if digits.length ≤ d.point then
    digits ++ List.replicate (d.point.toNat - digits.length) '0' ++ layout.wholeEnding.toList
  else digits.take d.point.toNat ++ '.' :: digits.drop d.point.toNat

/-- One digit before the point, no decimals if they are not needed, and a signed exponent. -/
def scientificText (d : Decimal) : List Char :=
  let mantissa := match d.digits with
    | [] => []
    | [c] => [c]
    | c :: decimals => c :: '.' :: decimals
  let exponent := d.point - 1
  mantissa ++ 'e' :: (if exponent < 0 then '-' else '+') :: natText exponent.natAbs

def isPositional (layout : NumeralLayout) (d : Decimal) : Bool :=
  match layout.positional with
  | none => true
  | some (least, most) => decide (least ≤ d.point ∧ d.point ≤ most)

/-- The text of a magnitude. -/
def magnitudeText (layout : NumeralLayout) (x : Finite64) : List Char :=
  if x.units = 0 then '0' :: layout.wholeEnding.toList
  else
    let d := x.shortest layout.tie
    if layout.isPositional d then layout.positionalText d else scientificText d

/-- The text of a finite number. -/
def text (layout : NumeralLayout) (x : Finite64) : List Char :=
  if x.negative then '-' :: layout.magnitudeText x else layout.magnitudeText x

end NumeralLayout

/-- The text of any double in a layout, with words for the values that are not finite. -/
def Binary64.text (layout : NumeralLayout) : Binary64 → String
  | .finite x => String.ofList (layout.text x)
  | .infinite false => "inf"
  | .infinite true => "-inf"
  | .nan => "NaN"

/-! ## Reading -/

/-- An optional exponent of a numeral, which must use up the text. -/
def readExponent : List Char → Option Int
  | [] => some 0
  | c :: rest =>
    if c = 'e' ∨ c = 'E' then
      let (negative, digits) := match rest with
        | '-' :: digits => (true, digits)
        | '+' :: digits => (false, digits)
        | digits => (false, digits)
      if digits.isEmpty || !digits.all Char.isDigit then none
      else some (if negative then -(digitsValue digits : Int) else digitsValue digits)
    else none

/-- Digits with an optional point, at least one digit in all, and an optional exponent. -/
def readUnsigned (negative : Bool) (text : List Char) : Option Binary64 :=
  let (whole, rest) := spanDigits text
  let (decimals, rest) := match rest with
    | '.' :: rest => spanDigits rest
    | rest => ([], rest)
  if whole.isEmpty && decimals.isEmpty then none
  else (readExponent rest).map fun exponent =>
    Binary64.ofDecimal negative (digitsValue (whole ++ decimals)) (exponent - decimals.length)

/-- Reads a numeral: an optional sign and either a decimal or, in any case, one of the words
`inf`, `infinity` and `nan`. -/
def readNumeral (text : List Char) : Option Binary64 :=
  let (negative, rest) := match text with
    | '-' :: rest => (true, rest)
    | '+' :: rest => (false, rest)
    | rest => (false, rest)
  let word := String.ofList (rest.map Char.toLower)
  if word == "inf" || word == "infinity" then some (.infinite negative)
  else if word == "nan" then some .nan
  else readUnsigned negative rest

end Bulletin
