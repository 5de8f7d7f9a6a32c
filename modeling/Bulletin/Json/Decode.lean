import Bulletin.Json.Value

/-!
# Reading structured values

A structured value is written as an object with named fields. It may also be given as an array of
its fields in order. `slots?` brings both forms to one list of slots, one for every field, and the
readers below say what a slot must hold. What no reader asks for may be unusable.

* A field named twice, also once under its name and once under another name of the same field,
  is an error. Unknown fields are passed over.
* An object may leave out fields that have a default or that may be `null`. An array may end
  early only where every field left out has a default.

A tagged value carries the name of its variant in one field; a plain variant is the name alone.
The tag may stand behind other fields, so a tagged value is read as a whole first and all of it must
be sound.
-/

namespace Bulletin.Draft

/-! ## Slots -/

/-- What a structured value gives for one field. -/
inductive Slot where
  /-- a value -/
  | filled (v : Draft)
  /-- an object without this field -/
  | absent
  /-- an array that ends before this field -/
  | ended

/-- The slot of a field among the members of an object. -/
def memberSlot? (names : List String) (members : List (String × Draft)) : Option Slot :=
  match members.filter fun m => names.contains m.1 with
  | [] => some .absent
  | [m] => some (.filled m.2)
  | _ => none

/-- The slots of the fields with the given names, each field with its other names. -/
def slots? (fields : List (List String)) : Draft → Option (List Slot)
  | .object members => fields.mapM fun names => memberSlot? names members
  | .array items =>
    if items.length ≤ fields.length then
      some (items.map .filled ++ List.replicate (fields.length - items.length) .ended)
    else none
  | _ => none

namespace Slot

variable {α : Type}

/-- A field that must be there. -/
def required (read : Draft → Option α) : Slot → Option α
  | .filled v => read v
  | .absent | .ended => none

/-- A field with a default. -/
def orElse (fallback : α) (read : Draft → Option α) : Slot → Option α
  | .filled v => read v
  | .absent | .ended => some fallback

/-- Reads `null` as no value. -/
def nullable (read : Draft → Option α) : Draft → Option (Option α)
  | .null => some none
  | v => (read v).map some

/-- A field that may be `null` or left out. -/
def orNone (read : Draft → Option α) : Slot → Option (Option α)
  | .filled v => nullable read v
  | .absent | .ended => some none

/-- A field that may be `null` or, in an object, left out. -/
def optional (read : Draft → Option α) : Slot → Option (Option α)
  | .filled v => nullable read v
  | .absent => some none
  | .ended => none

end Slot

/-! ## Leaves -/

def readString? : Draft → Option String := string?

def readBool? : Draft → Option Bool
  | .bool b => some b
  | _ => none

/-- A natural number below a bound; a double is not accepted. -/
def readNat? (bound : Nat) : Draft → Option Nat
  | .number n => n.unsigned?.bind fun n => if n < bound then some n else none
  | _ => none

def readWord32? (v : Draft) : Option UInt32 := (readNat? UInt32.size v).map UInt32.ofNat

def readWord64? (v : Draft) : Option UInt64 := (readNat? UInt64.size v).map UInt64.ofNat

/-- A whole number that fits 64 bits with a sign. -/
def readInt? : Draft → Option Int
  | .number n => n.signed?
  | _ => none

def readReal? : Draft → Option Binary64
  | .number n => some n.toBinary64
  | _ => none

/-- Any value. -/
def readAny? (v : Draft) : Option Json := v.value.toOption

def readList? {α : Type} (read : Draft → Option α) : Draft → Option (List α)
  | .array items => items.mapM read
  | _ => none

/-- An object with arbitrary names, all of whose values have one form. -/
def readFields? {α : Type} (read : Draft → Option α) : Draft → Option (Fields α)
  | .object members =>
    (members.mapM fun m => (read m.2).map fun v => (m.1, v)).map Fields.ofList
  | _ => none

/-! ## Variants -/

/-- The name of a variant without content: a string, or an object with that only name and
`null`. -/
def variant? : Draft → Option String
  | .string s => some s
  | .object [(name, .null)] => some name
  | _ => none

/-- The name of a variant inside a tagged value, where an empty object also stands for no
content. -/
def innerVariant? : Draft → Option String
  | .object [(name, .object [])] => some name
  | v => variant? v

/-- The tag of a tagged value and the value without the tag. In an array the tag is the first
item. -/
def tagged? (tag : String) (v : Draft) : Option (String × Draft) :=
  match v with
  | .object members =>
    match memberSlot? [tag] members with
    | some (.filled (.string name)) =>
      if v.sound then some (name, .object (members.filter fun m => m.1 != tag)) else none
    | _ => none
  | .array (.string name :: items) => if v.sound then some (name, .array items) else none
  | _ => none

/-- Whether a tagged value that must have no content is acceptable: an object may have any
members, an array no further items. -/
def contentless : Draft → Bool
  | .object _ => true
  | .array [] => true
  | _ => false

end Bulletin.Draft
