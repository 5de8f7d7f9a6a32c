import Bulletin.Json.Parser

/-!
# The value of a draft

A draft has a value if all its parts have one. Of members with one name the last counts, in the
place of the first.

## Embedded texts

An object whose first member has the name `embeddingName` is no object. The member holds the text
of a value, and that value stands in the place of the object. Such an object has no other member.
The text is read like a whole text, with nesting counted from the start. Anywhere else the name is
a name like others.

An embedded text is shorter than the text around it, so counting down from the length of the first
one ends.
-/

namespace Bulletin

namespace Json

/-- The name of the member that holds the text of a value. -/
def embeddingName : String := "$serde_json::private::RawValue"

end Json

namespace Draft

open Json

/-- A flaw of a draft, which has lost its place. -/
def flawOf (cause : Cause) : Flaw := ⟨cause, 0, 0⟩

mutual

/-- The value of a draft, given the values of embedded texts. -/
def valueWith (embedded : String → Except Flaw Json) : Draft → Except Flaw Json
  | .null => .ok .null
  | .bool b => .ok (.bool b)
  | .number n => .ok (.number n)
  | .string s => .ok (.string s)
  | .array items => (itemsWith embedded items).map .array
  | .object [] => .ok (.object [])
  | .object ((k, v) :: rest) =>
    if k = embeddingName then
      match v, rest with
      | .string s, [] => embedded s
      | .string _, _ :: _ => .error (flawOf .trailingComma)
      | _, _ => .error (flawOf .textExpected)
    else do
      let v ← valueWith embedded v
      let rest ← membersWith embedded rest
      return .object (Fields.ofList ((k, v) :: rest)).entries
  | .unusable => .error (flawOf .valueExpected)

def itemsWith (embedded : String → Except Flaw Json) : List Draft → Except Flaw (List Json)
  | [] => .ok []
  | v :: rest => do
    let v ← valueWith embedded v
    let rest ← itemsWith embedded rest
    return v :: rest

def membersWith (embedded : String → Except Flaw Json) :
    List (String × Draft) → Except Flaw (List (String × Json))
  | [] => .ok []
  | (k, v) :: rest => do
    let v ← valueWith embedded v
    let rest ← membersWith embedded rest
    return (k, v) :: rest

end

/-- The value of an embedded text. -/
def embeddedValue : (fuel : Nat) → String → Except Flaw Json
  | 0, _ => .error (flawOf .valueExpected)
  | fuel + 1, s => do (← Draft.ofText s).valueWith (embeddedValue fuel)

/-- The value of a draft. -/
def value (v : Draft) : Except Flaw Json :=
  v.valueWith fun s => embeddedValue (s.length + 1) s

end Draft

namespace Json

/-- Reads the text of a value. -/
def ofText (text : String) : Except Flaw Json := do (← Draft.ofText text).value

/-- Reads the text of a value, if it is one. -/
def ofText? (text : String) : Option Json := (ofText text).toOption

end Json

end Bulletin
