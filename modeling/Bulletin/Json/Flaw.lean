/-!
# Flaws of a JSON text

Why a text was refused, and where. The place is the line and, within it, the count of bytes up to
and including the one at which reading stopped; an empty line has column `0`.
-/

namespace Bulletin.Json

/-- Why a text is not JSON, or holds a part without a value. -/
inductive Cause where
  | endInList
  | endInObject
  | endInString
  | endInValue
  | colonExpected
  | listEndExpected
  | objectEndExpected
  | wordExpected
  | valueExpected
  | invalidEscape
  | invalidNumber
  | outOfRange
  | controlCharacter
  | keyExpected
  | unpairedSurrogate
  | pairBroken
  | trailingComma
  | trailingCharacters
  | tooDeep
  /-- the one member of an embedded text is not a text -/
  | textExpected
deriving DecidableEq

def Cause.message : Cause → String
  | .endInList => "EOF while parsing a list"
  | .endInObject => "EOF while parsing an object"
  | .endInString => "EOF while parsing a string"
  | .endInValue => "EOF while parsing a value"
  | .colonExpected => "expected `:`"
  | .listEndExpected => "expected `,` or `]`"
  | .objectEndExpected => "expected `,` or `\x7d`"
  | .wordExpected => "expected ident"
  | .valueExpected => "expected value"
  | .invalidEscape => "invalid escape"
  | .invalidNumber => "invalid number"
  | .outOfRange => "number out of range"
  | .controlCharacter => "control character (\\u0000-\\u001F) found while parsing a string"
  | .keyExpected => "key must be a string"
  | .unpairedSurrogate => "lone leading surrogate in hex escape"
  | .pairBroken => "unexpected end of hex escape"
  | .trailingComma => "trailing comma"
  | .trailingCharacters => "trailing characters"
  | .tooDeep => "recursion limit exceeded"
  | .textExpected => "expected raw value"

/-- A cause with its place. -/
structure Flaw where
  cause : Cause
  line : Nat
  column : Nat
deriving DecidableEq

def Flaw.message (flaw : Flaw) : String :=
  if flaw.line = 0 then flaw.cause.message
  else
    flaw.cause.message ++ " at line " ++ toString flaw.line ++ " column " ++ toString flaw.column

/-- The line and column after some bytes of a text, counted on from a place. -/
def placeAfter : (bytes : Nat) → List Char → Nat × Nat → Nat × Nat
  | _, [], place => place
  | bytes, c :: rest, (line, column) =>
    if bytes = 0 then (line, column)
    else if c = '\n' then placeAfter (bytes - 1) rest (line + 1, 0)
    else placeAfter (bytes - c.utf8Size) rest (line, column + min bytes c.utf8Size)

end Bulletin.Json
