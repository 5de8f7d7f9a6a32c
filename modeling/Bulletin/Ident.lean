import Bulletin.Json.Text
import Bulletin.Json.Parser

/-!
# Identifiers

Every stored thing is named by a 128-bit number. There are six kinds of identifiers, one for each
kind of thing, and `Id kind` keeps them apart.

## The three texts of an identifier

* the *key*: 32 small hexadecimal digits with hyphens after the 8th, 12th, 16th and 20th;
* the *JSON form*: a string that holds the key;
* the *display form*: the tag of the kind, an underscore and the key.

Reading is more liberal than writing: digits of either case, no hyphens at all, braces around the
hyphenated form and `urn:uuid:` before it.
-/

namespace Bulletin

/-! ## The number -/

/-- A 128-bit number. -/
structure Uuid where
  value : BitVec 128
deriving DecidableEq

namespace Uuid

instance : Inhabited Uuid := ⟨⟨0⟩⟩

def ofNat (n : Nat) : Uuid := ⟨BitVec.ofNat 128 n⟩

/-- A number of which all but six bits come from a random one. Those six mark the number as random:
the 13th digit is `4` and the 17th lies between `8` and `b`. -/
def ofRandom (n : Nat) : Uuid :=
  ⟨BitVec.ofNat 128 n &&& BitVec.ofNat 128 0xffffffffffff0fff3fffffffffffffff
    ||| BitVec.ofNat 128 0x00000000000040008000000000000000⟩

/-- The order of the numbers, which is also the order of their keys. -/
def order (a b : Uuid) : Ordering := compare a.value.toNat b.value.toNat

/-- The last `count` hexadecimal digits of a number, the first digit first. -/
def hexDigits : (count : Nat) → Nat → List Char
  | 0, _ => []
  | count + 1, n => Json.hexDigit (n / 16 ^ count % 16) :: hexDigits count n

/-- Puts hyphens after the 8th, 12th, 16th and 20th of 32 digits. -/
def hyphenate (digits : List Char) : List Char :=
  digits.take 8 ++ '-' :: (digits.drop 8).take 4 ++ '-' :: (digits.drop 12).take 4
    ++ '-' :: (digits.drop 16).take 4 ++ '-' :: digits.drop 20

def keyChars (u : Uuid) : List Char := hyphenate (hexDigits 32 u.value.toNat)

def key (u : Uuid) : String := String.ofList u.keyChars

/-- Reads exactly 32 hexadecimal digits. -/
def ofDigits? (digits : List Char) : Option Uuid :=
  if digits.length = 32 then
    (digits.mapM Json.hexValue?).map fun values =>
      ofNat (values.foldl (fun n d => n * 16 + d) 0)
  else none

/-- Reads 32 digits with hyphens where `hyphenate` puts them. -/
def ofHyphenated? (text : List Char) : Option Uuid :=
  let digits := text.filter (· ≠ '-')
  if text = hyphenate digits then ofDigits? digits else none

/-- The text without a given beginning, if it begins so. -/
def after? (beginning text : List Char) : Option (List Char) :=
  if beginning.isPrefixOf text then some (text.drop beginning.length) else none

/-- The name space that may stand before a hyphenated key. -/
def nameSpace : List Char := "urn:uuid:".toList

/-- Reads a key, bare or hyphenated, in braces, or after `urn:uuid:` in letters of either case. -/
def ofChars? (text : List Char) : Option Uuid :=
  match ofDigits? text with
  | some u => some u
  | none =>
    match ofHyphenated? text with
    | some u => some u
    | none =>
      if (text.take nameSpace.length).map Char.toLower = nameSpace then
        ofHyphenated? (text.drop nameSpace.length)
      else
        match text with
        | '\x7b' :: rest =>
          if rest.getLast? = some '\x7d' then ofHyphenated? rest.dropLast else none
        | _ => none

def ofString? (text : String) : Option Uuid := ofChars? text.toList

end Uuid

/-! ## Kinds -/

/-- The kinds of things that are stored. -/
inductive EntityKind where
  | report
  | execution
  | dashboard
  | widget
  | rule
  | alert
deriving DecidableEq

/-- The tag in front of a displayed identifier. -/
def EntityKind.tag : EntityKind → String
  | .report => "rpt"
  | .execution => "exec"
  | .dashboard => "dash"
  | .widget => "wgt"
  | .rule => "rule"
  | .alert => "alert"

/-- The identifier of a thing of one kind. -/
structure Id (kind : EntityKind) where
  uuid : Uuid
deriving DecidableEq

namespace Id

variable {kind : EntityKind}

instance : Inhabited (Id kind) := ⟨⟨default⟩⟩

def order (a b : Id kind) : Ordering := a.uuid.order b.uuid

/-- The text under which a thing is stored. -/
def key (id : Id kind) : String := id.uuid.key

def display (id : Id kind) : String := kind.tag ++ "_" ++ id.key

/-- Reads a key in any of its forms, with or without the tag of this kind in front. -/
def ofString? (text : String) : Option (Id kind) :=
  let text := text.toList
  let bare := (Uuid.after? (kind.tag ++ "_").toList text).getD text
  (Uuid.ofChars? bare).map Id.mk

def toJson (id : Id kind) : Json := .string id.key

/-- Reads the JSON form, which has no tag. -/
def ofDraft? : Draft → Option (Id kind)
  | .string s => (Uuid.ofString? s).map Id.mk
  | _ => none

end Id

abbrev ReportId := Id .report
abbrev ExecutionId := Id .execution
abbrev DashboardId := Id .dashboard
abbrev WidgetId := Id .widget
abbrev RuleId := Id .rule
abbrev AlertId := Id .alert

end Bulletin
