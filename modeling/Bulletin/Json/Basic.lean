import Bulletin.Number.Decimal
import Bulletin.Fields

/-!
# JSON values

A number is either a whole number that fits a signed or an unsigned 64-bit word, kept exactly,
or a finite double: `1` and `1.0` are different values. An object is a list of members in the
order they were written. The type lets a name occur twice; the value of a text never has such an
object.

Functions on values come in threes, for a value, a list of items and a list of members, by
structural recursion.
-/

namespace Bulletin

namespace Json

/-- A whole number that fits a signed 64-bit word, from `-2 ^ 63` up to below `2 ^ 63`. -/
def FitsSigned (n : Int) : Prop := -9223372036854775808 ≤ n ∧ n < 9223372036854775808

instance (n : Int) : Decidable (FitsSigned n) := instDecidableAnd

/-- A whole number that fits a signed or an unsigned 64-bit word, from `-2 ^ 63` up to below
`2 ^ 64`. -/
def FitsWord (n : Int) : Prop := -9223372036854775808 ≤ n ∧ n < 18446744073709551616

instance (n : Int) : Decidable (FitsWord n) := instDecidableAnd

/-- A number: a whole number of 64 bits or a finite double. -/
inductive Number where
  | int (n : Int) (fits : FitsWord n)
  | real (x : Finite64)
deriving DecidableEq

namespace Number

/-- The nearest double. -/
def toBinary64 : Number → Binary64
  | .int n _ => Binary64.ofInt n
  | .real x => .finite x

/-- The whole number, if it fits a signed word. -/
def signed? : Number → Option Int
  | .int n _ => if FitsSigned n then some n else none
  | .real _ => none

/-- The whole number, if it fits an unsigned word. -/
def unsigned? : Number → Option Nat
  | .int n _ => if 0 ≤ n then some n.toNat else none
  | .real _ => none

def text : Number → List Char
  | .int n _ => intText n
  | .real x => NumeralLayout.json.text x

/-- Equality of numbers as values: a whole number never equals a double, the two zeros of the
doubles are equal. -/
def same : Number → Number → Bool
  | .int a _, .int b _ => a == b
  | .real x, .real y => x.order y == .eq
  | _, _ => false

end Number

end Json

/-- A JSON value. -/
inductive Json where
  | null
  | bool (b : Bool)
  | number (n : Json.Number)
  | string (s : String)
  | array (items : List Json)
  | object (members : List (String × Json))

namespace Json

instance : Inhabited Json := ⟨.null⟩

/-! ## Constructors -/

/-- A whole number; one outside the 64-bit range becomes the nearest double. -/
def int (n : Int) : Json :=
  if h : FitsWord n then .number (.int n h)
  else match Binary64.ofInt n with
    | .finite x => .number (.real x)
    | _ => .null

def nat (n : Nat) : Json := int n

/-- A double; a value that is not finite has no JSON form and becomes `null`. -/
def real (x : Binary64) : Json :=
  match x with
  | .finite x => .number (.real x)
  | _ => .null

/-- The value, or `null` for none. -/
def ofOption {α : Type} (f : α → Json) : Option α → Json
  | none => .null
  | some a => f a

def ofFields (fields : Fields Json) : Json := .object fields.entries

/-! ## Equality of syntax -/

mutual

/-- Decides whether two values are written alike, member for member. -/
def decEq : (a b : Json) → Decidable (a = b)
  | .null, b => match b with
    | .null => isTrue rfl
    | .bool _ | .number _ | .string _ | .array _ | .object _ => isFalse (by simp)
  | .bool x, b => match b with
    | .bool y => decidable_of_iff (x = y) (by simp)
    | .null | .number _ | .string _ | .array _ | .object _ => isFalse (by simp)
  | .number x, b => match b with
    | .number y => decidable_of_iff (x = y) (by simp)
    | .null | .bool _ | .string _ | .array _ | .object _ => isFalse (by simp)
  | .string x, b => match b with
    | .string y => decidable_of_iff (x = y) (by simp)
    | .null | .bool _ | .number _ | .array _ | .object _ => isFalse (by simp)
  | .array xs, b => match b with
    | .array ys => match decEqItems xs ys with
      | isTrue h => isTrue (by rw [h])
      | isFalse h => isFalse (by simpa using h)
    | .null | .bool _ | .number _ | .string _ | .object _ => isFalse (by simp)
  | .object xs, b => match b with
    | .object ys => match decEqMembers xs ys with
      | isTrue h => isTrue (by rw [h])
      | isFalse h => isFalse (by simpa using h)
    | .null | .bool _ | .number _ | .string _ | .array _ => isFalse (by simp)

def decEqItems : (a b : List Json) → Decidable (a = b)
  | [], b => match b with
    | [] => isTrue rfl
    | _ :: _ => isFalse (by simp)
  | x :: xs, b => match b with
    | [] => isFalse (by simp)
    | y :: ys => match decEq x y with
      | isFalse h => isFalse (by simp [h])
      | isTrue h => match decEqItems xs ys with
        | isTrue t => isTrue (by rw [h, t])
        | isFalse t => isFalse (by simp [t])

def decEqMembers : (a b : List (String × Json)) → Decidable (a = b)
  | [], b => match b with
    | [] => isTrue rfl
    | _ :: _ => isFalse (by simp)
  | (k, x) :: xs, b => match b with
    | [] => isFalse (by simp)
    | (l, y) :: ys =>
      if hk : k = l then match decEq x y with
        | isFalse h => isFalse (by simp [h])
        | isTrue h => match decEqMembers xs ys with
          | isTrue t => isTrue (by rw [hk, h, t])
          | isFalse t => isFalse (by simp [t])
      else isFalse (by simp [hk])

end

instance : DecidableEq Json := decEq

/-! ## Equality of values -/

mutual

/-- Equality of values: members of an object are compared by name, in any order. -/
def same : Json → Json → Bool
  | .null, .null => true
  | .bool a, .bool b => a == b
  | .number a, .number b => a.same b
  | .string a, .string b => a == b
  | .array as, .array bs => sameItems as bs
  | .object as, .object bs => as.length == bs.length && sameMembers as bs
  | _, _ => false

def sameItems : List Json → List Json → Bool
  | [], [] => true
  | a :: as, b :: bs => same a b && sameItems as bs
  | _, _ => false

/-- Whether every member of the first list has an equal value under its name in the second. -/
def sameMembers : List (String × Json) → List (String × Json) → Bool
  | [], _ => true
  | (k, a) :: as, bs =>
    (match lookupValue? k bs with
      | some b => same a b
      | none => false) && sameMembers as bs

end

/-! ## Views -/

def string? : Json → Option String
  | .string s => some s
  | _ => none

/-- The members of an object as fields; of members with one name the last counts. -/
def fields? : Json → Option (Fields Json)
  | .object members => some (Fields.ofList members)
  | _ => none

/-- The value of a member of an object. -/
def member? (key : String) : Json → Option Json
  | .object members => lookupValue? key members
  | _ => none

end Json

end Bulletin
