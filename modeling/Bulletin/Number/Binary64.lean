import Bulletin.Number.Power

/-!
# Binary floating point numbers of 64 bits

A finite number is a sign and a whole count of *units*, the unit being the least positive
double, `2 ^ (-1074)`. In this form comparing and adding are integer arithmetic, and the only
place where precision is lost is `roundUnits`.

## What a double can hold

A count of units is `Representable` when it has at most 53 significant bits and stays below
`2 ^ 1024`, which is `2 ^ 2098` units. `Finite64` carries the proof, so no operation can make a
number that has no 64-bit form.

## Rounding

`roundUnits num den` is the representable count next to `num / den`; a tie goes to the even
neighbour. Every operation first computes its exact result as a ratio and then rounds once.
-/

namespace Bulletin

/-! ## Counts of units -/

/-- How many bits a unit lies below one. -/
def unitBits : Nat := 1074

/-- How many bits a count of units can have. -/
def countBits : Nat := 2098

/-- At most 53 significant bits, and below the overflow threshold. -/
def Representable (units : Nat) : Prop :=
  units % 2 ^ (units.log2 - 52) = 0 ∧ units < 2 ^ countBits

instance (units : Nat) : Decidable (Representable units) :=
  inferInstanceAs (Decidable (_ ∧ _))

theorem representable_zero : Representable 0 :=
  ⟨Nat.zero_mod _, Nat.two_pow_pos countBits⟩

/-- The whole number next to `num / den`; a tie goes to the even one. -/
def roundHalfEven (num den : Nat) : Nat :=
  let quotient := num / den
  let rest := num % den
  if 2 * rest < den then quotient
  else if den < 2 * rest then quotient + 1
  else if quotient % 2 = 0 then quotient
  else quotient + 1

/-- The multiple of the last significant bit that is next to `num / den`. -/
def roundUnits (num den : Nat) : Nat :=
  let step := 2 ^ ((num / den).log2 - 52)
  roundHalfEven num (den * step) * step

/-! ## Numbers -/

/-- A finite double: a sign and a count of units of `2 ^ (-1074)`. Zero has two signs. -/
structure Finite64 where
  negative : Bool
  units : Nat
  representable : Representable units
deriving DecidableEq

/-- A double. There is one value that is not a number. -/
inductive Binary64 where
  | finite (x : Finite64)
  | infinite (negative : Bool)
  | nan
deriving DecidableEq

namespace Finite64

def zero : Finite64 := ⟨false, 0, representable_zero⟩

/-- The number as a signed count of units. Both zeros count as `0`. -/
def scaled (x : Finite64) : Int :=
  if x.negative then -(x.units : Int) else x.units

/-- The numeric order of two finite numbers; the two zeros are equal. -/
def order (x y : Finite64) : Ordering := compare x.scaled y.scaled

end Finite64

namespace Binary64

/-- The number of units in `1`. -/
def unit : Nat := 2 ^ unitBits

/-- A rounded count of units with its sign; a count too large to hold is infinite. -/
def ofUnits (negative : Bool) (units : Nat) : Binary64 :=
  if h : Representable units then .finite ⟨negative, units, h⟩ else .infinite negative

/-- The double next to `num / den` units. -/
def ofRatio (negative : Bool) (num den : Nat) : Binary64 :=
  ofUnits negative (roundUnits num den)

/-- The double next to a whole number. -/
def ofInt (n : Int) : Binary64 := ofRatio (decide (n < 0)) (n.natAbs * unit) 1

/--
The double next to `coefficient * 10 ^ exponent`.

Exponents far outside the range are settled first, so that no power of ten is larger than the
answer needs: a positive coefficient times `10 ^ 310` is above every double, and a coefficient
of `b` bits times `10 ^ (-(b + 350))` is below half a unit.
-/
def ofDecimal (negative : Bool) (coefficient : Nat) (exponent : Int) : Binary64 :=
  if coefficient = 0 then ofUnits negative 0
  else if 310 < exponent then .infinite negative
  else if exponent < -((coefficient.log2 + 350 : Nat) : Int) then ofUnits negative 0
  else if 0 ≤ exponent then ofRatio negative (coefficient * 10 ^ exponent.toNat * unit) 1
  else ofRatio negative (coefficient * unit) (10 ^ (-exponent).toNat)

def zero : Binary64 := .finite Finite64.zero

def finite? : Binary64 → Option Finite64
  | .finite x => some x
  | _ => none

def isFinite (x : Binary64) : Bool := x.finite?.isSome

/-! ## Order -/

/-- The numeric order; there is none when either side is not a number. -/
def order? : Binary64 → Binary64 → Option Ordering
  | .nan, _ | _, .nan => none
  | .infinite a, .infinite b => some (compare b a)
  | .infinite a, .finite _ => some (if a then .lt else .gt)
  | .finite _, .infinite b => some (if b then .gt else .lt)
  | .finite x, .finite y => some (x.order y)

def lessThan (x y : Binary64) : Bool := x.order? y == some .lt

def greaterThan (x y : Binary64) : Bool := x.order? y == some .gt

/-- Numeric equality: the two zeros are equal and no value equals `nan`. -/
def numEq (x y : Binary64) : Bool := x.order? y == some .eq

/-! ## Arithmetic -/

/-- The sum, exact and then rounded. A zero sum is negative only if both terms are. -/
def add : Binary64 → Binary64 → Binary64
  | .nan, _ | _, .nan => .nan
  | .infinite a, .infinite b => if a == b then .infinite a else .nan
  | .infinite a, .finite _ => .infinite a
  | .finite _, .infinite b => .infinite b
  | .finite x, .finite y =>
    let total := x.scaled + y.scaled
    if total = 0 then ofUnits (x.negative && y.negative) 0
    else ofRatio (decide (total < 0)) total.natAbs 1

/-- The product, exact and then rounded. -/
def mul (x y : Finite64) : Binary64 :=
  ofRatio (x.negative != y.negative) (x.units * y.units) unit

/-- The quotient by a number other than zero, exact and then rounded. -/
def div (x y : Finite64) : Binary64 :=
  ofRatio (x.negative != y.negative) (x.units * unit) y.units

/-- The quotient by a positive whole number, exact and then rounded. -/
def divNat : Binary64 → Nat → Binary64
  | .finite x, n => ofRatio x.negative x.units n
  | .infinite s, _ => .infinite s
  | .nan, _ => .nan

end Binary64

end Bulletin
