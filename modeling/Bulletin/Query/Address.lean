import Bulletin.Number.Decimal
import Bulletin.Text.Blank

/-!
# Addresses

The address of an external interface, taken apart. Addresses that mean the same have one text:

* scheme and host are in small letters, and the standard socket number of a scheme is left out;
* a name and a password in front of the host are no part of the text;
* the path starts with a slash, and its dots are followed;
* a character that has no place in a part is written as the bytes of its code, each as a percent
  sign and two hexadecimal digits.

Only `http` and `https` can be asked. The text of any other address is only good for saying so.
-/

namespace Bulletin

/-! ## Characters -/

namespace Address

def hexUpper (n : Nat) : Char := "0123456789ABCDEF".toList.getD n '0'

/-- A byte as a percent sign and two digits. -/
def percent (b : UInt8) : List Char := ['%', hexUpper (b.toNat / 16), hexUpper (b.toNat % 16)]

/-- A character in a part of an address: itself, unless it is reserved or not visible ASCII. -/
def encodeChar (reserved : List Char) (c : Char) : List Char :=
  if '!' ≤ c ∧ c ≤ '~' ∧ c ∉ reserved then [c]
  else (String.singleton c).toUTF8.toList.flatMap percent

def encode (reserved : List Char) (text : List Char) : List Char :=
  text.flatMap (encodeChar reserved)

def reservedInFragment : List Char := ['"', '<', '>', '\x60']

def reservedInPath : List Char := reservedInFragment ++ ['#', '?', '\x7b', '\x7d']

def reservedInQuery : List Char := ['"', '#', '<', '>', '\'']

/-- The characters that cannot stand in a host. -/
def forbiddenInHost : List Char :=
  [' ', '#', '%', '/', ':', '<', '>', '?', '@', '[', '\\', ']', '^', '|']

end Address

/-! ## The type -/

/-- An address of the web. -/
structure Address where
  scheme : String
  host : String
  /-- the number of the socket, unless it is the standard one -/
  socket : Option Nat
  path : String
  query : Option String
  fragment : Option String
deriving DecidableEq

/-- Why nothing can be asked at an address. -/
inductive AddressFlaw where
  | malformed
  /-- the scheme is not one of the web -/
  | foreign (text : String)
deriving DecidableEq

def AddressFlaw.message : AddressFlaw → String
  | .malformed => "builder error"
  | .foreign text => "builder error for url (" ++ text ++ ")"

namespace Address

/-- A part with the mark in front of it. -/
def markedText (mark : String) : Option String → String
  | none => ""
  | some part => mark ++ part

def text (address : Address) : String :=
  address.scheme ++ "://" ++ address.host ++ markedText ":" (address.socket.map toString)
    ++ address.path ++ markedText "?" address.query ++ markedText "#" address.fragment

/-- The address with more in its query, which is left out if nothing is in it. -/
def withQuery (address : Address) (more : String) : Address :=
  let old := address.query.getD ""
  let query := if more = "" then old else if old = "" then more else old ++ "&" ++ more
  { address with query := if query = "" then none else some query }

/-! ## Reading -/

/-- The standard socket of a scheme that is written with a host. -/
def standardSocket? : String → Option Nat
  | "http" | "ws" => some 80
  | "https" | "wss" => some 443
  | "ftp" => some 21
  | _ => none

/-- The schemes that can be asked. -/
def isWeb (scheme : String) : Bool := scheme = "http" || scheme = "https"

def isSlash (c : Char) : Bool := c == '/' || c == '\\'

/-- Splits off a part that ends before one of some marks. -/
def splitBefore (isMark : Char → Bool) (text : List Char) : List Char × List Char :=
  (text.takeWhile (!isMark ·), text.dropWhile (!isMark ·))

/-- The scheme and what follows its colon. -/
def readScheme (text : List Char) : Option (String × List Char) :=
  match splitBefore (· == ':') text with
  | (first :: others, ':' :: rest) =>
    if first.isAlpha && others.all fun c => c.isAlphanum || c == '+' || c == '-' || c == '.' then
      some (Text.lower (String.ofList (first :: others)), rest)
    else none
  | _ => none

/-- A host: a name, or a number in brackets. -/
def readHost (text : List Char) : Option (String × List Char) :=
  match text with
  | '[' :: inner =>
    match splitBefore (· == ']') inner with
    | (number, ']' :: rest) => some (Text.lower (String.ofList ('[' :: number ++ [']'])), rest)
    | _ => none
  | text =>
    let (name, rest) := splitBefore (· == ':') text
    if name = [] ∨ name.any (fun c => c.toNat < 0x20 || c ∈ forbiddenInHost) then none
    else some (Text.lower (String.ofList name), rest)

/-- The socket behind a host, if there is one. -/
def readSocket : List Char → Option (Option Nat)
  | [] | [':'] => some none
  | ':' :: digits =>
    if digits.all Char.isDigit && digitsValue digits < 65536 then some (some (digitsValue digits))
    else none
  | _ => none

/-- Whether a segment of a path is a dot. -/
def isDot (segment : List Char) : Bool :=
  Text.lower (String.ofList segment) ∈ [".", "%2e"]

/-- Whether a segment of a path is two dots. -/
def isDots (segment : List Char) : Bool :=
  Text.lower (String.ofList segment) ∈ ["..", ".%2e", "%2e.", "%2e%2e"]

/-- Follows the dots among segments. What was passed comes last segment first; dots at the end
leave an empty segment. -/
def followDots : (passed : List (List Char)) → List (List Char) → List (List Char)
  | passed, [] => passed.reverse
  | passed, segment :: rest =>
    let ending : List (List Char) := if rest = [] then [[]] else []
    if isDots segment then followDots (ending ++ passed.drop 1) rest
    else if isDot segment then followDots (ending ++ passed) rest
    else followDots (encode reservedInPath segment :: passed) rest

/-- A path, which is empty or starts with a slash of either kind. -/
def readPath (text : List Char) : List Char :=
  let slashed := text.map fun c => if c = '\\' then '/' else c
  (followDots [] (Text.splitOn '/' (slashed.drop 1))).flatMap ('/' :: ·)

/-- What stands behind a mark at the start, if the mark is there. -/
def readMarked (mark : Char) (reserved : List Char) : List Char → Option String
  | [] => none
  | c :: rest => if c = mark then some (String.ofList (encode reserved rest)) else none

/-- An address behind the colon of its scheme. -/
def readRest (scheme : String) (text : List Char) : Option Address := do
  let (authority, rest) :=
    splitBefore (fun c => isSlash c || c == '?' || c == '#') (text.dropWhile isSlash)
  let (host, behind) ← readHost ((Text.splitOn '@' authority).getLast?.getD [])
  let socket ← readSocket behind
  let (path, rest) := splitBefore (fun c => c == '?' || c == '#') rest
  let (query, fragment) := splitBefore (· == '#') rest
  return {
    scheme
    host
    socket := socket.filter fun number => standardSocket? scheme ≠ some number
    path := String.ofList (readPath path)
    query := readMarked '?' reservedInQuery query
    fragment := readMarked '#' reservedInFragment fragment }

/-- The characters that count: line breaks and tabs never do, nor do controls and spaces at either
end. -/
def significant (text : List Char) : List Char :=
  let isOuter (c : Char) : Bool := c.toNat ≤ 0x20
  let inner := ((text.dropWhile isOuter).reverse.dropWhile isOuter).reverse
  inner.filter fun c => !(c == '\t' || c == '\n' || c == '\r')

/-- Reads an address of the web. -/
def ofString? (text : String) : Except AddressFlaw Address :=
  match readScheme (significant text.toList) with
  | none => .error .malformed
  | some (scheme, rest) =>
    if (standardSocket? scheme).isSome then
      match readRest scheme rest with
      | none => .error .malformed
      | some address => if isWeb scheme then .ok address else .error (.foreign address.text)
    else .error (.foreign (scheme ++ ":" ++ String.ofList rest))

end Address

end Bulletin
