import Bulletin.Text.Word
import Bulletin.Sql.Placeholder
import Bulletin.Sql.Predicate

/-!
# Adding filters to a query

The conditions of the filters go into the outer query: into its `WHERE`, or after its tables if
it has none, and in front of the first clause that must stand behind a `WHERE`. A keyword counts
only as a whole word outside parentheses and quotes; between its letters case does not matter,
and the long s folds to `s`.

`Scan` is the state of the walk that tells outside from inside. An unmatched closing parenthesis
is passed over.
-/

namespace Bulletin.Sql

/-! ## Inside and outside -/

/-- How deep in parentheses a position is, and whether it is in a string. -/
structure Scan where
  depth : Nat
  inString : Bool
deriving DecidableEq

namespace Scan

def start : Scan := ⟨0, false⟩

/-- Whether the position is outside parentheses and strings. -/
def outer (scan : Scan) : Bool := scan.depth == 0 && !scan.inString

/-- The state after a character. -/
def next (scan : Scan) (c : Char) : Scan :=
  if c = '\'' then { scan with inString := !scan.inString }
  else if scan.inString then scan
  else if c = '(' then { scan with depth := scan.depth + 1 }
  else if c = ')' then { scan with depth := scan.depth - 1 }
  else scan

end Scan

/-! ## Keywords -/

/-- A letter without case. -/
def folded (c : Char) : Char := if c = '\u017f' then 's' else c.toLower

/-- The text after a word, if it begins with the word in any case. -/
def afterWord? : (word : List Char) → List Char → Option (List Char)
  | [], text => some text
  | _ :: _, [] => none
  | w :: word, c :: text => if folded c = w then afterWord? word text else none

/-- Whether a word can end in front of a text. -/
def endsWord : List Char → Bool
  | [] => true
  | c :: _ => !Text.isWord c

/-- The text after a keyword that may consist of two words with blanks between them. -/
def afterKeyword? (keyword : String × Option String) (text : List Char) : Option (List Char) := do
  let rest ← afterWord? keyword.1.toList text
  let rest ← match keyword.2 with
    | none => some rest
    | some second =>
      if rest.head?.any Text.isBlank then afterWord? second.toList (Text.trimStart rest) else none
  if endsWord rest then some rest else none

/-- The keyword of the condition. -/
def whereKeywords : List (String × Option String) := [("where", none)]

/-- The keywords of the clauses behind the condition. -/
def trailingKeywords : List (String × Option String) :=
  [("group", some "by"), ("having", none), ("order", some "by"), ("limit", none), ("offset", none)]

/-- The length of the first keyword of a list with which a text begins. -/
def keywordLength? (keywords : List (String × Option String)) (text : List Char) : Option Nat :=
  (keywords.findSome? fun keyword => afterKeyword? keyword text).map fun rest =>
    text.length - rest.length

/-- Position and length of the first keyword outside parentheses and strings, at a position no
less than `least`. `before` is the character in front of the text. -/
def findKeyword (keywords : List (String × Option String)) (least : Nat) :
    (position : Nat) → (before : Option Char) → Scan → List Char → Option (Nat × Nat)
  | _, _, _, [] => none
  | position, before, scan, c :: rest =>
    let here :=
      if scan.outer && decide (least ≤ position) && !before.any Text.isWord then
        keywordLength? keywords (c :: rest)
      else none
    match here with
    | some length => some (position, length)
    | none => findKeyword keywords least (position + 1) (some c) (scan.next c) rest

/-- The position behind the condition keyword of the outer query. -/
def conditionStart? (query : List Char) : Option Nat :=
  (findKeyword whereKeywords 0 0 none Scan.start query).map fun found => found.1 + found.2

/-- The position of the first clause behind the condition, or the end of the query. -/
def tailStart (query : List Char) (least : Nat) : Nat :=
  match findKeyword trailingKeywords least 0 none Scan.start query with
  | some found => found.1
  | none => query.length

/-! ## Queries -/

/-- A query without the blanks around it and the semicolons at its end. -/
def cleaned (query : List Char) : List Char :=
  Text.trimEnd ((Text.trim query).reverse.dropWhile (· == ';')).reverse

/-- Adds conditions to a cleaned query. An existing condition is kept in parentheses. -/
def withCondition (query conditions : List Char) : List Char :=
  let start := conditionStart? query
  let tailAt := tailStart query (start.getD 0)
  let head := query.take tailAt
  let tail := Text.trim (query.drop tailAt)
  let filtered := match start with
    | some stop =>
      head.take stop ++ " (".toList ++ Text.trim (head.drop stop) ++ ") AND ".toList ++ conditions
    | none => Text.trimEnd head ++ " WHERE ".toList ++ conditions
  if tail.isEmpty then filtered else filtered ++ ' ' :: tail

/-- Adds the conditions of filters to a query. -/
def appendFilters (query : String) (filters : Fields Json) : String :=
  let base := cleaned query.toList
  if filters.isEmpty then String.ofList base
  else String.ofList (withCondition base (conjunction filters))

/-- The text that is sent for a query: placeholders first, then filters. -/
def prepare (query : String) (parameters filters : Fields Json) : String :=
  appendFilters (substitute query parameters) filters

end Bulletin.Sql
