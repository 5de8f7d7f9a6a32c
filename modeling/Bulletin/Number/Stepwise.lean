import Bulletin.Number.Decimal

/-!
# Decimals computed in steps

A JSON text may hold a number with any count of digits. Its value is not the double next to the
decimal but what a computation in a few rounded steps gives, and the two can differ in the last
bits.

1. `gather` collects the digits in one word of 64 bits. A digit that would overflow the word is
   dropped, and with it the digits behind it: dropped digits before the point still count as tens.
2. `scale` makes the word a double and multiplies it by a power of ten or divides it by one.
   There are doubles for the powers up to `10 ^ 308`; a smaller number is first divided by
   `10 ^ 308` until the rest of the exponent has a power.

A product too large for a double has no value. `Decimal.stepwise?` is the way through both.
-/

namespace Bulletin

namespace Decimal

/-- Appends digits as long as the coefficient stays below `2 ^ 64`. Each digit kept moves the
exponent by `kept`, each digit dropped by `dropped`. -/
def gather (kept dropped : Int) (d : Decimal) : List Char → Decimal
  | [] => d
  | c :: rest =>
    let coefficient := d.coefficient * 10 + (c.toNat - '0'.toNat)
    if coefficient < UInt64.size then gather kept dropped ⟨coefficient, d.exponent + kept⟩ rest
    else ⟨d.coefficient, d.exponent + dropped * (rest.length + 1)⟩

/-- The digits before and after a point, as far as they fit one word. -/
def ofDigits (whole decimals : List Char) : Decimal :=
  gather (-1) 0 (gather 0 1 ⟨0, 0⟩ whole) decimals

end Decimal

namespace Finite64

/-- The largest power of ten that is a double. -/
def topPower : Nat := 308

/-- The double next to a power of ten. -/
def powerOfTen (n : Nat) : Finite64 :=
  match Binary64.ofDecimal false 1 n with
  | .finite x => x
  | _ => zero

/-- The number times `10 ^ exponent`, in rounded steps; `none` if that is too large. Two divisions
by the largest power of ten bring any word down to zero, so three strides are always enough. -/
def scale : (strides : Nat) → Finite64 → Int → Option Finite64
  | 0, x, _ => some x
  | strides + 1, x, exponent =>
    if exponent.natAbs ≤ topPower then
      let power := powerOfTen exponent.natAbs
      (if 0 ≤ exponent then Binary64.mul x power else Binary64.div x power).finite?
    else if x.units = 0 then some x
    else if 0 ≤ exponent then none
    else
      (Binary64.div x (powerOfTen topPower)).finite?.bind fun x =>
        scale strides x (exponent + topPower)

end Finite64

/-- The value of a decimal whose coefficient fits a word; `none` if it is too large. -/
def Decimal.stepwise? (negative : Bool) (d : Decimal) : Option Finite64 := do
  let word ← (Binary64.ofInt d.coefficient).finite?
  let x ← Finite64.scale 3 word d.exponent
  return { x with negative }

end Bulletin
