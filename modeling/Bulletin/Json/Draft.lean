import Bulletin.Json.Basic

/-!
# Drafts

A draft is JSON as it stands in a text, before anyone has said what its parts are for. It differs
from a value in two ways.

* A part can be `unusable`: well formed, but without a value, such as a number too large for a
  double or a text that names half a character. It does no harm where nobody looks. Whoever reads
  that part finds nothing there.
* The members of an object stand as they were written, repeated names included.

Structured values are read from drafts, so that a document may carry unknown members of any
content. Every value is a draft, with `Draft.ofJson`.
-/

namespace Bulletin

/-- JSON as it stands in a text. -/
inductive Draft where
  | null
  | bool (b : Bool)
  | number (n : Json.Number)
  | string (s : String)
  | array (items : List Draft)
  | object (members : List (String × Draft))
  /-- a well-formed part that has no value -/
  | unusable

namespace Draft

instance : Inhabited Draft := ⟨.null⟩

/-! ## Values as drafts -/

mutual

/-- A value as a draft. -/
def ofJson : Json → Draft
  | .null => .null
  | .bool b => .bool b
  | .number n => .number n
  | .string s => .string s
  | .array items => .array (ofItems items)
  | .object members => .object (ofMembers members)

def ofItems : List Json → List Draft
  | [] => []
  | v :: rest => ofJson v :: ofItems rest

def ofMembers : List (String × Json) → List (String × Draft)
  | [] => []
  | (k, v) :: rest => (k, ofJson v) :: ofMembers rest

end

/-! ## Soundness -/

mutual

/-- Whether every part, at any depth, has a value. -/
def sound : Draft → Bool
  | .unusable => false
  | .array items => soundItems items
  | .object members => soundMembers members
  | .null | .bool _ | .number _ | .string _ => true

def soundItems : List Draft → Bool
  | [] => true
  | v :: rest => v.sound && soundItems rest

def soundMembers : List (String × Draft) → Bool
  | [] => true
  | (_, v) :: rest => v.sound && soundMembers rest

end

mutual

theorem sound_ofJson : (v : Json) → (ofJson v).sound = true
  | .null | .bool _ | .number _ | .string _ => rfl
  | .array items => soundItems_ofItems items
  | .object members => soundMembers_ofMembers members

theorem soundItems_ofItems : (items : List Json) → soundItems (ofItems items) = true
  | [] => rfl
  | v :: rest => by
    rw [ofItems, soundItems, sound_ofJson v, soundItems_ofItems rest]
    rfl

theorem soundMembers_ofMembers :
    (members : List (String × Json)) → soundMembers (ofMembers members) = true
  | [] => rfl
  | (_, v) :: rest => by
    rw [ofMembers, soundMembers, sound_ofJson v, soundMembers_ofMembers rest]
    rfl

end

/-! ## Views -/

def string? : Draft → Option String
  | .string s => some s
  | _ => none

/-- The value of a member of an object. -/
def member? (key : String) : Draft → Option Draft
  | .object members => lookupValue? key members
  | _ => none

end Draft

end Bulletin
