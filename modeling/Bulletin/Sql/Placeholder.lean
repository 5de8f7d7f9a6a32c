import Bulletin.Record

/-!
# Placeholders

A placeholder is a dollar sign and a name in braces; the name is a letter or underscore followed
by letters, digits and underscores, all ASCII. `substitute` replaces the placeholders that have a
value by its plain text. What is put in is not read again.

The scan is by structural recursion: when a placeholder is found, the number of characters that
it still covers is carried along and they are passed over one by one.
-/

namespace Bulletin.Sql

/-- Whether a character may begin the name of a placeholder. -/
def startsName (c : Char) : Bool := c.isAlpha || c == '_'

/-- Whether a character may continue the name of a placeholder. -/
def continuesName (c : Char) : Bool := c.isAlphanum || c == '_'

/-- The name of the placeholder with which a text begins. -/
def placeholder? : List Char → Option (List Char)
  | '$' :: '\x7b' :: c :: rest =>
    if startsName c then
      match rest.dropWhile continuesName with
      | '\x7d' :: _ => some (c :: rest.takeWhile continuesName)
      | _ => none
    else none
  | _ => none

/-- Replaces the placeholders after passing over `covered` characters. -/
def substituteFrom (parameters : Fields Json) : (covered : Nat) → List Char → List Char
  | _, [] => []
  | covered + 1, _ :: rest => substituteFrom parameters covered rest
  | 0, c :: rest =>
    match placeholder? (c :: rest) with
    | none => c :: substituteFrom parameters 0 rest
    | some name =>
      match parameters.get? (String.ofList name) with
      | none => c :: substituteFrom parameters 0 rest
      | some v => v.plain.toList ++ substituteFrom parameters (name.length + 2) rest

/-- Replaces every placeholder that has a value. -/
def substitute (query : String) (parameters : Fields Json) : String :=
  String.ofList (substituteFrom parameters 0 query.toList)

end Bulletin.Sql
