import Bulletin.Json.Value
import Bulletin.Query.Address
import Bulletin.Query.Error
import Bulletin.Query.Input
import Bulletin.Record

/-!
# External interfaces over HTTP

A `GET` request carries parameters and filters as pairs of the query string, a `POST` request as a
JSON document; no other method is sent. The response has to be a success and a JSON document.
Where the rows lie in it, a dotted path says: a segment names a member of an object or, as a
number, an item of an array.
-/

namespace Bulletin

structure HttpRequest where
  method : String
  url : String
  headers : Fields String
  body : Option Json
deriving DecidableEq

structure HttpResponse where
  status : Nat
  body : String
deriving DecidableEq

namespace Http

/-! ## Query strings -/

/-- Whether a byte stands for itself in a query string. -/
def isPlainByte (b : UInt8) : Bool :=
  let c := Char.ofNat b.toNat
  c.isAlphanum || c == '*' || c == '-' || c == '.' || c == '_'

def encodeByte (b : UInt8) : List Char :=
  if b = 32 then ['+'] else if isPlainByte b then [Char.ofNat b.toNat] else Address.percent b

/-- A text as it stands in a query string: letters and digits for themselves, a plus sign for a
space, and two hexadecimal digits for any other byte. -/
def encodeText (text : String) : List Char := text.toUTF8.toList.flatMap encodeByte

/-- The pairs of a query string. -/
def queryString : List (String × String) → List Char
  | [] => []
  | [pair] => encodeText pair.1 ++ '=' :: encodeText pair.2
  | pair :: rest => encodeText pair.1 ++ '=' :: encodeText pair.2 ++ '&' :: queryString rest

/-! ## Requests -/

/-- Whether a character may stand in the name of a header. -/
def isHeaderNameChar (c : Char) : Bool := c.isAlphanum || "!#$%&'*+-.^_|~\x60".toList.contains c

/-- Whether a character may stand in the value of a header. -/
def isHeaderValueChar (c : Char) : Bool := c == '\t' || (' ' ≤ c && c ≠ '\x7f')

/-- Whether headers can be sent. -/
def validHeaders (headers : Fields String) : Bool :=
  headers.entries.all fun header =>
    header.1 ≠ "" && header.1.toList.all isHeaderNameChar && header.2.toList.all isHeaderValueChar

/-- A request to an address, if the address and the headers can be used. -/
def ofParts (method address : String) (more : Address → Address) (headers : Fields String)
    (body : Option Json) : Except QueryError HttpRequest :=
  match Address.ofString? address with
  | .error flaw => .error (.connector flaw.message)
  | .ok address =>
    if validHeaders headers then .ok { method, url := (more address).text, headers, body }
    else .error (.connector AddressFlaw.malformed.message)

/-- The request that is sent for the question to a source. -/
def ofApiRequest (request : ApiRequest) : Except QueryError HttpRequest :=
  let method := Text.upper request.method
  if method = "POST" then
    ofParts method request.url id request.headers
      (some (.object [("params", Json.ofFields request.parameters),
        ("filters", Json.ofFields request.filters)]))
  else if method = "GET" then
    let pairs := (request.parameters.entries ++ request.filters.entries).map fun pair =>
      (pair.1, pair.2.plain)
    ofParts method request.url (·.withQuery (String.ofList (queryString pairs))) request.headers none
  else .error (.invalidResponse request.sourceName ("unsupported HTTP method " ++ method))

/-! ## Paths -/

/-- The number of an index: digits, after a plus sign or not. -/
def index? (segment : List Char) : Option Nat :=
  let digits := match segment with
    | '+' :: rest => rest
    | segment => segment
  if digits ≠ [] ∧ digits.all Char.isDigit then some (digitsValue digits) else none

/-- Takes the element at a place out of a list and gives it with what is left, in which the last
element fills the gap. -/
def takeOut? {α : Type} (place : Nat) (list : List α) : Option (α × List α) :=
  list[place]?.map fun taken => (taken, (list.set place (list.getLastD taken)).dropLast)

/-- Follows one segment into a document. The part that it names is taken out and the rest of the
document is given up. -/
def selectSegment (document : Json) (segment : List Char) : Option Json :=
  match document with
  | .object members =>
    (takeOut? (members.findIdx (·.1 = String.ofList segment)) members).map fun taken => taken.1.2
  | .array items => (index? segment).bind fun place => (takeOut? place items).map Prod.fst
  | _ => none

/-- Follows segments into a document. -/
def selectSegments (document : Json) : List (List Char) → Option Json
  | [] => some document
  | segment :: rest => (selectSegment document segment).bind fun inner => selectSegments inner rest

/-- Follows a dotted path into a document; no path and the empty one stay at the top. -/
def selectPath (document : Json) (path : Option String) : Option Json :=
  match path with
  | none => some document
  | some path =>
    if path = "" then some document else selectSegments document (Text.splitOn '.' path.toList)

/-! ## Responses -/

/-- The standard word for a status. -/
def reason? : Nat → Option String
  | 100 => some "Continue"
  | 101 => some "Switching Protocols"
  | 102 => some "Processing"
  | 300 => some "Multiple Choices"
  | 301 => some "Moved Permanently"
  | 302 => some "Found"
  | 303 => some "See Other"
  | 304 => some "Not Modified"
  | 305 => some "Use Proxy"
  | 307 => some "Temporary Redirect"
  | 308 => some "Permanent Redirect"
  | 400 => some "Bad Request"
  | 401 => some "Unauthorized"
  | 402 => some "Payment Required"
  | 403 => some "Forbidden"
  | 404 => some "Not Found"
  | 405 => some "Method Not Allowed"
  | 406 => some "Not Acceptable"
  | 407 => some "Proxy Authentication Required"
  | 408 => some "Request Timeout"
  | 409 => some "Conflict"
  | 410 => some "Gone"
  | 411 => some "Length Required"
  | 412 => some "Precondition Failed"
  | 413 => some "Payload Too Large"
  | 414 => some "URI Too Long"
  | 415 => some "Unsupported Media Type"
  | 416 => some "Range Not Satisfiable"
  | 417 => some "Expectation Failed"
  | 418 => some "I'm a teapot"
  | 421 => some "Misdirected Request"
  | 422 => some "Unprocessable Entity"
  | 423 => some "Locked"
  | 424 => some "Failed Dependency"
  | 425 => some "Too Early"
  | 426 => some "Upgrade Required"
  | 428 => some "Precondition Required"
  | 429 => some "Too Many Requests"
  | 431 => some "Request Header Fields Too Large"
  | 451 => some "Unavailable For Legal Reasons"
  | 500 => some "Internal Server Error"
  | 501 => some "Not Implemented"
  | 502 => some "Bad Gateway"
  | 503 => some "Service Unavailable"
  | 504 => some "Gateway Timeout"
  | 505 => some "HTTP Version Not Supported"
  | 506 => some "Variant Also Negotiates"
  | 507 => some "Insufficient Storage"
  | 508 => some "Loop Detected"
  | 510 => some "Not Extended"
  | 511 => some "Network Authentication Required"
  | _ => none

/-- A status with its word. -/
def statusText (status : Nat) : String :=
  toString status ++ " " ++ (reason? status).getD "<unknown status code>"

def isSuccess (status : Nat) : Bool := 200 ≤ status && status < 300

/-- The rows in the response to a request. -/
def rowsOf (request : ApiRequest) (response : HttpResponse) : Except QueryError (List Record) :=
  if !isSuccess response.status then
    .error (.connector (request.url ++ " returned HTTP " ++ statusText response.status))
  else
    match Json.ofText? response.body with
    | none => .error (.invalidResponse request.sourceName "error decoding response body")
    | some document =>
      match selectPath document request.recordsPath with
      | some selected => .ok (Record.listOfJson selected)
      | none =>
        .error (.invalidResponse request.sourceName
          ("records path '" ++ request.recordsPath.getD "" ++ "' not present in response"))

/-- Fetches rows over a transport that answers a request or fails with a text. -/
def fetch (transport : HttpRequest → Except String HttpResponse) (request : ApiRequest) :
    Except QueryError (List Record) :=
  match ofApiRequest request with
  | .error e => .error e
  | .ok sent =>
    match transport sent with
    | .error text => .error (.connector text)
    | .ok response => rowsOf request response

end Http

end Bulletin
