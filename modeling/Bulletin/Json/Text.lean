import Bulletin.Json.Basic

/-!
# JSON text

Two texts of a value: `compact`, without any space, and `pretty`, with two spaces for each level.
Both escape in a string the quote, the backslash and the control characters, and write
everything else as it is.
-/

namespace Bulletin.Json

/-! ## Strings -/

/-- One small hexadecimal digit. -/
def hexDigit (n : Nat) : Char := "0123456789abcdef".toList.getD n '0'

/-- A character inside a quoted string. -/
def escapeChar (c : Char) : List Char :=
  match c with
  | '"' => ['\\', '"']
  | '\\' => ['\\', '\\']
  | '\n' => ['\\', 'n']
  | '\r' => ['\\', 'r']
  | '\t' => ['\\', 't']
  | '\x08' => ['\\', 'b']
  | '\x0c' => ['\\', 'f']
  | c =>
    if c.toNat < 0x20 then
      ['\\', 'u', '0', '0', hexDigit (c.toNat / 16), hexDigit (c.toNat % 16)]
    else [c]

def quotedChars (s : String) : List Char := '"' :: s.toList.flatMap escapeChar ++ ['"']

/-! ## Compact text -/

mutual

def chars : Json → List Char
  | .null => ['n', 'u', 'l', 'l']
  | .bool true => ['t', 'r', 'u', 'e']
  | .bool false => ['f', 'a', 'l', 's', 'e']
  | .number n => n.text
  | .string s => quotedChars s
  | .array items => '[' :: itemChars items ++ [']']
  | .object members => '\x7b' :: memberChars members ++ ['\x7d']

/-- Items with commas between them. -/
def itemChars : List Json → List Char
  | [] => []
  | [v] => v.chars
  | v :: rest => v.chars ++ ',' :: itemChars rest

/-- Members with commas between them. -/
def memberChars : List (String × Json) → List Char
  | [] => []
  | [(k, v)] => quotedChars k ++ ':' :: v.chars
  | (k, v) :: rest => quotedChars k ++ ':' :: v.chars ++ ',' :: memberChars rest

end

/-- The text of a value without any space. -/
def compact (v : Json) : String := String.ofList v.chars

/-! ## Pretty text -/

/-- A line break and the indentation of a level. -/
def lineBreak (level : Nat) : List Char := '\n' :: List.replicate (2 * level) ' '

mutual

def prettyChars (level : Nat) : Json → List Char
  | .array [] => ['[', ']']
  | .array (v :: rest) =>
    '[' :: prettyItems (level + 1) (v :: rest) ++ lineBreak level ++ [']']
  | .object [] => ['\x7b', '\x7d']
  | .object ((k, v) :: rest) =>
    '\x7b' :: prettyMembers (level + 1) ((k, v) :: rest) ++ lineBreak level ++ ['\x7d']
  | .null => ['n', 'u', 'l', 'l']
  | .bool true => ['t', 'r', 'u', 'e']
  | .bool false => ['f', 'a', 'l', 's', 'e']
  | .number n => n.text
  | .string s => quotedChars s

def prettyItems (level : Nat) : List Json → List Char
  | [] => []
  | [v] => lineBreak level ++ v.prettyChars level
  | v :: rest => lineBreak level ++ v.prettyChars level ++ ',' :: prettyItems level rest

def prettyMembers (level : Nat) : List (String × Json) → List Char
  | [] => []
  | [(k, v)] => lineBreak level ++ quotedChars k ++ ':' :: ' ' :: v.prettyChars level
  | (k, v) :: rest =>
    lineBreak level ++ quotedChars k ++ ':' :: ' ' :: v.prettyChars level
      ++ ',' :: prettyMembers level rest

end

/-- The text of a value with two spaces for each level. -/
def pretty (v : Json) : String := String.ofList (v.prettyChars 0)

end Bulletin.Json
