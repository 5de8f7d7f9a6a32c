import Bulletin.Repository.Call
import Bulletin.Repository.Tables

/-!
# The repository over text

A table is a map from keys to texts: under the key of its identifier stands the compact JSON text
of an entity. A listing reads the texts in the order of their keys; one text that cannot be read
makes the whole listing fail. A number that is not finite has no JSON text and is written as
`null`, so an entity with such a number is saved and cannot be read again.
-/

namespace Bulletin

/-- The texts of one kind by key. -/
abbrev TextTable := Fields String

namespace TextTable

/-- Reads the text of an entity. -/
def decode (kind : EntityKind) (text : String) : Except StorageError kind.Entity :=
  match Draft.ofText text with
  | .error flaw => .error (.serialization flaw.message)
  | .ok draft =>
    match kind.ofDraft? default draft with
    | some entity => .ok entity
    | none => .error (.serialization ("not a stored " ++ kind.noun))

/-- The texts in the order of their keys. -/
def scan (table : TextTable) : List String :=
  (table.entries.mergeSort fun a b => compare a.1 b.1 != .gt).map Prod.snd

def get (table : TextTable) (kind : EntityKind) (id : Id kind) :
    Except StorageError (Option kind.Entity) :=
  match table.get? id.key with
  | none => .ok none
  | some text => (decode kind text).map some

def save (table : TextTable) (kind : EntityKind) (entity : kind.Entity) : TextTable :=
  Fields.insert table (kind.id entity).key (kind.toJson entity).compact

def list (table : TextTable) (kind : EntityKind) (scope : kind.Scope) :
    Except StorageError (List kind.Entity) :=
  (table.scan.mapM (decode kind)).map (kind.listing scope)

/-- Whether one of the texts is an alert of a kind, looked for from the first text on. -/
def anyAlert (test : Alert → Bool) : List String → Except StorageError Bool
  | [] => .ok false
  | text :: rest =>
    match decode .alert text with
    | .error e => .error e
    | .ok alert => if test alert then .ok true else anyAlert test rest

end TextTable

/-- The texts of all kinds. -/
abbrev KeyedRepository := Tables fun _ => TextTable

namespace KeyedRepository

def empty : KeyedRepository := Tables.all fun _ => ∅

/-! ## One document for all tables -/

/-- The member of a table. -/
def tableMember (repository : KeyedRepository) (kind : EntityKind) : String × Json :=
  (kind.noun, Json.ofFields (Fields.map Json.string (repository.get kind)))

/-- All texts of all tables. -/
def toJson (repository : KeyedRepository) : Json :=
  .object ([.report, .execution, .dashboard, .widget, .rule, .alert].map repository.tableMember)

/-- Reads a table from its member. -/
def readTable? (v : Draft) (kind : EntityKind) : Option TextTable :=
  (v.member? kind.noun).bind (Draft.readFields? Draft.readString?)

def ofDraft? (v : Draft) : Option KeyedRepository := do
  return {
    reports := ← readTable? v .report
    executions := ← readTable? v .execution
    dashboards := ← readTable? v .dashboard
    widgets := ← readTable? v .widget
    rules := ← readTable? v .rule
    alerts := ← readTable? v .alert }

/-! ## Calls -/

/-- Answers a call. -/
def answer (repository : KeyedRepository) : (call : Call) → call.Answer × KeyedRepository
  | .get kind id => (TextTable.get (repository.get kind) kind id, repository)
  | .save kind entity =>
    (.ok (), repository.set kind (TextTable.save (repository.get kind) kind entity))
  | .list kind scope => (TextTable.list (repository.get kind) kind scope, repository)
  | .createActive alert =>
    match TextTable.anyAlert (Alert.blocks alert.ruleId) (TextTable.scan repository.alerts) with
    | .error e => (.error e, repository)
    | .ok true => (.ok false, repository)
    | .ok false =>
      (.ok true, repository.set .alert (TextTable.save repository.alerts .alert alert))

end KeyedRepository

end Bulletin
