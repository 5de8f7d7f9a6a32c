import Bulletin.Action.Request

/-!
# Scripted connectors

A scripted connector answers from a list of responses, one after the other, and fails when there
is none left. What it was asked is written down.
-/

namespace Bulletin

/-- One response of a scripted connector. -/
inductive Response where
  | rows (rows : List Record)
  | fail (text : String)
  | invalid (reason : String)
  | crash (c : Crash)

namespace Response

/-- Reads a response, told apart by the field that it has. -/
def ofDraft? (v : Draft) : Option Response :=
  if let some found := v.member? "rows" then
    (Draft.readAny? found).map fun found => .rows (Record.listOfJson found)
  else if let some (.string why) := v.member? "fail" then some (.fail why)
  else if let some (.string why) := v.member? "invalid" then some (.invalid why)
  else if let some (.string why) := v.member? "panic" then some (.crash (.text why))
  else if (v.member? "panic_static").isSome then some (.crash (.text "static message"))
  else if (v.member? "panic_other").isSome then some (.crash .silent)
  else none

/-- The response as the answer of a source. -/
def reply (source : String) : Response → Reply (List Record)
  | .rows found => .value found
  | .fail text => .failure (.connector text)
  | .invalid reason => .failure (.invalidResponse source reason)
  | .crash cause => .crash cause

/-- The answer of a source by the first of some responses, and the others. -/
def take (source : String) : List Response → Reply (List Record) × List Response
  | [] => (.failure (.connector "no scripted response"), [])
  | response :: rest => (response.reply source, rest)

end Response

/-- What a connector was asked. -/
inductive ConnectorCall where
  | relational (connection : Fields Json) (sql : String)
  | api (request : ApiRequest)
deriving DecidableEq

namespace ConnectorCall

def toJson : ConnectorCall → Json
  | .relational connection sql =>
    .object [("call", .string "relational"), ("connection", Json.ofFields connection),
      ("sql", .string sql)]
  | .api r =>
    .object [("call", .string "api"), ("source_name", .string r.sourceName),
      ("url", .string r.url), ("method", .string r.method),
      ("headers", Json.ofFields (r.headers.map .string)),
      ("params", Json.ofFields r.parameters), ("filters", Json.ofFields r.filters),
      ("records_path", Json.ofOption .string r.recordsPath)]

end ConnectorCall

end Bulletin
