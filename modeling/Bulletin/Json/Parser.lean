import Bulletin.Json.Draft
import Bulletin.Json.Flaw
import Bulletin.Number.Stepwise

/-!
# Reading JSON

A recursive descent over the characters. Each reader takes the text that is left and gives back
what it read with the text after it, or a `Stop`.

## Two ways to read

A text can be well formed and still hold parts without a value: a number too large for a double,
a lone half of a character, an array or object with more than 127 others around it. `Draft.ofText`
refuses such a text at its first such part. `Draft.skim?` makes these parts `unusable` and reads
on; it refuses only what is not well formed. The readers take this choice as `strict`.

## Termination

`readValue` recurses on the nesting depth that is still allowed. What lies deeper is passed over by
`skipOpen`, which keeps the open brackets in a list. The loops take a `limit`, the number of
characters of the whole text and one more; each turn takes at least one character.
-/

namespace Bulletin.Json

/-! ## Stops -/

/-- A cause, with the text that was left and how many of its bytes had been looked at. -/
structure Stop where
  cause : Cause
  rest : List Char
  bytes : Nat

/-- How many bytes some characters take. -/
def byteCount (text : List Char) : Nat := text.foldl (fun n c => n + c.utf8Size) 0

/-- The place of a stop in a text. -/
def Stop.flaw (text : List Char) (stop : Stop) : Flaw :=
  let total := byteCount text
  let (line, column) := placeAfter (min total (total - byteCount stop.rest + stop.bytes)) text (1, 0)
  ⟨stop.cause, line, column⟩

/-- A stop before the text that is left. -/
def stopped {α : Type} (cause : Cause) (rest : List Char) : Except Stop α := .error ⟨cause, rest, 0⟩

/-- A stop at the first character of the text that is left. -/
def stoppedAt {α : Type} (cause : Cause) (rest : List Char) : Except Stop α :=
  .error ⟨cause, rest, 1⟩

/-! ## Blanks and words -/

/-- The four characters that may stand between tokens. -/
def isSpace (c : Char) : Bool := c == ' ' || c == '\n' || c == '\t' || c == '\r'

def skipSpace (text : List Char) : List Char := text.dropWhile isSpace

/-- A fixed word, and the text after it. -/
def readWord (v : Draft) : (word : List Char) → List Char → Except Stop (Draft × List Char)
  | [], text => .ok (v, text)
  | _ :: _, [] => stopped .endInValue []
  | w :: word, c :: rest =>
    if c = w then readWord v word rest else stoppedAt .wordExpected (c :: rest)

/-! ## Strings -/

/-- The value of a hexadecimal digit of either case. -/
def hexValue? (c : Char) : Option Nat :=
  if c.isDigit then some (c.toNat - '0'.toNat)
  else if 'a' ≤ c ∧ c ≤ 'f' then some (c.toNat - 'a'.toNat + 10)
  else if 'A' ≤ c ∧ c ≤ 'F' then some (c.toNat - 'A'.toNat + 10)
  else none

/-- The unit of four hexadecimal digits. -/
def hexUnit? : List Char → Option (Nat × List Char)
  | a :: b :: c :: d :: rest => do
    let a ← hexValue? a
    let b ← hexValue? b
    let c ← hexValue? c
    let d ← hexValue? d
    return (((a * 16 + b) * 16 + c) * 16 + d, rest)
  | _ => none

/-- Four hexadecimal digits; the next four bytes are looked at together. -/
def readUnit (text : List Char) : Except Stop (Nat × List Char) :=
  match hexUnit? text with
  | some found => .ok found
  | none =>
    if byteCount (text.take 4) < 4 then stopped .endInString []
    else .error ⟨.invalidEscape, text, 4⟩

/-- The character of a one-letter escape. -/
def simpleEscape? : Char → Option Char
  | '"' => some '"'
  | '\\' => some '\\'
  | '/' => some '/'
  | 'b' => some '\x08'
  | 'f' => some '\x0c'
  | 'n' => some '\n'
  | 'r' => some '\r'
  | 't' => some '\t'
  | _ => none

/-- Whether a unit is the first half of a pair. -/
def isLeading (unit : Nat) : Bool := 0xD800 ≤ unit && unit ≤ 0xDBFF

/-- Whether a unit is the second half of a pair. -/
def isTrailing (unit : Nat) : Bool := 0xDC00 ≤ unit && unit ≤ 0xDFFF

/-- What an escape stands for: a character, or half of one. -/
inductive Escaped where
  | char (c : Char)
  | half (stop : Stop)

/-- The escape of a unit, after its letter. A first half must be followed by the second. -/
def readUnitEscape (text : List Char) : Except Stop (Escaped × List Char) := do
  let (unit, rest) ← readUnit text
  if isTrailing unit then return (.half ⟨.unpairedSurrogate, rest, 0⟩, rest)
  else if isLeading unit then
    match rest with
    | [] | ['\\'] => stopped .endInString []
    | '\\' :: 'u' :: after =>
      let (low, after) ← readUnit after
      if isTrailing low then
        return (.char (Char.ofNat (0x10000 + (unit - 0xD800) * 0x400 + (low - 0xDC00))), after)
      else return (.half ⟨.unpairedSurrogate, after, 0⟩, after)
    | '\\' :: _ => return (.half ⟨.pairBroken, rest, 2⟩, rest)
    | _ => return (.half ⟨.pairBroken, rest, 1⟩, rest)
  else return (.char (Char.ofNat unit), rest)

/-- An escape, after its backslash. -/
def readEscape : List Char → Except Stop (Escaped × List Char)
  | [] => stopped .endInString []
  | 'u' :: rest => readUnitEscape rest
  | c :: rest =>
    match simpleEscape? c with
    | some e => .ok (.char e, rest)
    | none => stoppedAt .invalidEscape (c :: rest)

/-- The rest of a string after its opening quote, and the text after its closing quote. Half
characters leave no string. -/
def readString (strict : Bool) : (limit : Nat) → (passed : Option (List Char)) → List Char →
    Except Stop (Option String × List Char)
  | 0, _, text => stopped .endInString text
  | limit + 1, passed, text =>
    match text with
    | [] => stopped .endInString []
    | '"' :: rest => .ok (passed.map fun cs => String.ofList cs.reverse, rest)
    | '\\' :: rest =>
      match readEscape rest with
      | .error stop => .error stop
      | .ok (.char c, rest) => readString strict limit (passed.map (c :: ·)) rest
      | .ok (.half stop, rest) =>
        if strict then .error stop else readString strict limit none rest
    | c :: rest =>
      if c.toNat < 0x20 then stoppedAt .controlCharacter (c :: rest)
      else readString strict limit (passed.map (c :: ·)) rest

/-! ## Numbers -/

/-- The parts of a written number. -/
structure Numeral where
  negative : Bool
  whole : List Char
  /-- the digits after a point -/
  decimals : Option (List Char)
  exponent : Option Int

/-- The number that a numeral stands for. Without point and exponent it is a whole number if it
fits a word; `-0` is the double. Nothing stands for a number too large for a double. -/
def Numeral.value? (numeral : Numeral) : Option Number :=
  let decimal := Decimal.ofDigits numeral.whole (numeral.decimals.getD [])
  let n : Int := if numeral.negative then -(decimal.coefficient : Int) else decimal.coefficient
  if h : FitsWord n ∧ ¬(numeral.negative = true ∧ n = 0)
      ∧ numeral.decimals = none ∧ numeral.exponent = none ∧ decimal.exponent = 0 then
    some (.int n h.1)
  else
    (Decimal.stepwise? numeral.negative
      ⟨decimal.coefficient, decimal.exponent + numeral.exponent.getD 0⟩).map .real

/-- At least one digit. -/
def readDigits (text : List Char) : Except Stop (List Char × List Char) :=
  match spanDigits text with
  | ([], []) => stopped .endInValue []
  | ([], rest) => stoppedAt .invalidNumber rest
  | found => .ok found

/-- The whole part of a number: `0`, or digits that do not start with `0`. -/
def readWhole (text : List Char) : Except Stop (List Char × List Char) := do
  let (digits, rest) ← readDigits text
  match text, digits with
  | _ :: tail, '0' :: _ :: _ => stoppedAt .invalidNumber tail
  | _, _ => return (digits, rest)

/-- An optional point with decimals. -/
def readDecimals : List Char → Except Stop (Option (List Char) × List Char)
  | '.' :: rest => do
    let (digits, rest) ← readDigits rest
    return (some digits, rest)
  | rest => .ok (none, rest)

/-- The greatest exponent that is told from greater ones. -/
def exponentLimit : Nat := 2147483647

/-- The text after the first digit with which a run of digits exceeds the limit of exponents. -/
def excess (value : Nat) : List Char → Option (List Char)
  | [] => none
  | c :: rest =>
    let value := value * 10 + (c.toNat - '0'.toNat)
    if !c.isDigit then none
    else if exponentLimit < value then some rest
    else excess value rest

/-- The sign, if there is one, of an exponent. -/
def readSign : List Char → Bool × List Char
  | '-' :: rest => (true, rest)
  | '+' :: rest => (false, rest)
  | rest => (false, rest)

/-- An optional exponent, the text after it, and the text where its size was settled. -/
def readExponent? (text : List Char) : Except Stop (Option Int × List Char × List Char) :=
  match text with
  | 'e' :: rest | 'E' :: rest => do
    let (negative, rest) := readSign rest
    let (digits, after) ← readDigits rest
    let (size, settled) := match excess 0 rest with
      | none => (digitsValue digits, after)
      | some settled => (exponentLimit + 1, settled)
    return (some (if negative then -(size : Int) else size), after, settled)
  | rest => .ok (none, rest, rest)

/-- A number after its sign. -/
def readNumber (strict negative : Bool) (text : List Char) : Except Stop (Draft × List Char) := do
  let (whole, rest) ← readWhole text
  let (decimals, rest) ← readDecimals rest
  let (exponent, rest, settled) ← readExponent? rest
  match Numeral.value? ⟨negative, whole, decimals, exponent⟩ with
  | some n => return (.number n, rest)
  | none => if strict then stopped .outOfRange settled else return (.unusable, rest)

/-! ## Leaves and names -/

/-- A value that is no array and no object, without blanks before it. -/
def readLeaf (strict : Bool) (limit : Nat) : List Char → Except Stop (Draft × List Char)
  | [] => stopped .endInValue []
  | 'n' :: rest => readWord .null ['u', 'l', 'l'] rest
  | 't' :: rest => readWord (.bool true) ['r', 'u', 'e'] rest
  | 'f' :: rest => readWord (.bool false) ['a', 'l', 's', 'e'] rest
  | '"' :: rest => do
    let (s, rest) ← readString strict limit (some []) rest
    return (s.elim .unusable .string, rest)
  | '-' :: rest => readNumber strict true rest
  | c :: rest =>
    if c.isDigit then readNumber strict false (c :: rest)
    else stoppedAt .valueExpected (c :: rest)

/-- A member's name and the colon after it. -/
def readName (strict : Bool) (limit : Nat) (text : List Char) :
    Except Stop (Option String × List Char) :=
  match text with
  | '"' :: rest => do
    let (name, rest) ← readString strict limit (some []) rest
    match skipSpace rest with
    | ':' :: rest => return (name, rest)
    | [] => stopped .endInObject []
    | rest => stoppedAt .colonExpected rest
  | text => stoppedAt .keyExpected text

/-! ## What lies too deep -/

/-- An open bracket and what may come next in it. -/
inductive Turn where
  /-- the bracket was just opened -/
  | opened
  /-- an item must come -/
  | item
  /-- an item was just read -/
  | read
deriving DecidableEq

/-- Passes over the rest of some open arrays and objects, the innermost first; an object is
`true`. -/
def skipOpen : (limit : Nat) → (brackets : List Bool) → Turn → List Char →
    Except Stop (List Char)
  | 0, _, _, text => stopped .endInValue text
  | _ + 1, [], _, text => .ok text
  | limit + 1, inObject :: outer, turn, text =>
    let item (text : List Char) : Except Stop (List Char) := do
      let text ← if inObject then (readName false (limit + 1) text).map Prod.snd else pure text
      match skipSpace text with
      | '[' :: rest => skipOpen limit (false :: inObject :: outer) .opened rest
      | '\x7b' :: rest => skipOpen limit (true :: inObject :: outer) .opened rest
      | text =>
        let (_, rest) ← readLeaf false (limit + 1) text
        skipOpen limit (inObject :: outer) .read rest
    match skipSpace text with
    | [] => stopped (if inObject then .endInObject else .endInList) []
    | c :: rest =>
      if turn ≠ .item ∧ c = (if inObject then '\x7d' else ']') then skipOpen limit outer .read rest
      else if turn = .read then
        if c = ',' then skipOpen limit (inObject :: outer) .item rest
        else stoppedAt (if inObject then .objectEndExpected else .listEndExpected) (c :: rest)
      else item (c :: rest)

/-! ## Values -/

/-- Items after the opening bracket and the first blanks, at least one. -/
def readItems (readOne : List Char → Except Stop (Draft × List Char)) :
    (limit : Nat) → (passed : List Draft) → List Char → Except Stop (Draft × List Char)
  | 0, _, text => stopped .endInList text
  | limit + 1, passed, text => do
    let (v, rest) ← readOne text
    match skipSpace rest with
    | ']' :: rest => return (.array (v :: passed).reverse, rest)
    | ',' :: rest =>
      match skipSpace rest with
      | ']' :: rest => stoppedAt .trailingComma (']' :: rest)
      | rest => readItems readOne limit (v :: passed) rest
    | [] => stopped .endInList []
    | rest => stoppedAt .listEndExpected rest

/-- Members after the opening brace and the first blanks, at least one. An object in which a name
has no value has none itself. -/
def readMembers (strict : Bool) (nameLimit : Nat)
    (readOne : List Char → Except Stop (Draft × List Char)) :
    (limit : Nat) → (passed : Option (List (String × Draft))) → List Char →
    Except Stop (Draft × List Char)
  | 0, _, text => stopped .endInObject text
  | limit + 1, passed, text => do
    let (name, rest) ← readName strict nameLimit text
    let (v, rest) ← readOne rest
    let passed := do return (← name, v) :: (← passed)
    match skipSpace rest with
    | '\x7d' :: rest => return (passed.elim .unusable fun ms => .object ms.reverse, rest)
    | ',' :: rest =>
      match skipSpace rest with
      | '\x7d' :: rest => stoppedAt .trailingComma ('\x7d' :: rest)
      | [] => stopped .endInValue []
      | rest => readMembers strict nameLimit readOne limit passed rest
    | [] => stopped .endInObject []
    | rest => stoppedAt .objectEndExpected rest

/-- An array or object for which there is no depth left. -/
def readTooDeep (strict : Bool) (limit : Nat) (inObject : Bool) (text rest : List Char) :
    Except Stop (Draft × List Char) :=
  if strict then stoppedAt .tooDeep text
  else (skipOpen limit [inObject] .opened rest).map fun rest => (.unusable, rest)

/-- A value and the text after it, with at most `depth` arrays and objects around its parts. -/
def readValue (strict : Bool) (limit : Nat) : (depth : Nat) → List Char →
    Except Stop (Draft × List Char)
  | depth, text =>
    match skipSpace text with
    | '[' :: rest =>
      match depth with
      | 0 => readTooDeep strict limit false ('[' :: rest) rest
      | depth + 1 =>
        match skipSpace rest with
        | ']' :: rest => .ok (.array [], rest)
        | [] => stopped .endInList []
        | rest => readItems (readValue strict limit depth) limit [] rest
    | '\x7b' :: rest =>
      match depth with
      | 0 => readTooDeep strict limit true ('\x7b' :: rest) rest
      | depth + 1 =>
        match skipSpace rest with
        | '\x7d' :: rest => .ok (.object [], rest)
        | [] => stopped .endInObject []
        | rest => readMembers strict limit (readValue strict limit depth) limit (some []) rest
    | text => readLeaf strict limit text

/-- How many arrays and objects may stand around a value. -/
def depthLimit : Nat := 127

/-- Reads a whole text. -/
def readText (strict : Bool) (text : List Char) : Except Stop Draft := do
  let (v, rest) ← readValue strict (text.length + 1) depthLimit text
  match skipSpace rest with
  | [] => return v
  | rest => stoppedAt .trailingCharacters rest

end Bulletin.Json

namespace Bulletin.Draft

open Json

/-- Reads a text all of whose parts have values. -/
def ofText (text : String) : Except Flaw Draft :=
  (readText true text.toList).mapError (Stop.flaw text.toList)

/-- Reads a well-formed text. -/
def skim? (text : String) : Option Draft := (readText false text.toList).toOption

end Bulletin.Draft
