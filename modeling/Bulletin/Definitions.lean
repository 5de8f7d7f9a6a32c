import Bulletin.Action.Call

/-!
# Definitions

A document of definitions lists reports, dashboards, widgets and alert rules. It is stored as a
whole: everything is checked before anything is written, and then the four lists are saved one
after the other, so that the later of two entries with one identifier counts.

An entry without an identifier gets a fresh one. Fresh identifiers are given in the order in which
the entries stand in the document.
-/

namespace Bulletin

/-! ## Identifiers of entries -/

/-- Gives the next fresh identifier to an entry that has none. -/
def identifyEntry (fresh : Nat → Uuid) (count : Nat) : Draft → Draft × Nat
  | .object members =>
    if members.any fun member => member.1 == "id" then (.object members, count)
    else (.object (("id", .string (fresh count).key) :: members), count + 1)
  | v => (v, count)

/-- Gives identifiers to the entries of a list. -/
def identifyEntries (fresh : Nat → Uuid) : Nat → List Draft → List Draft × Nat
  | count, [] => ([], count)
  | count, entry :: rest =>
    let (entry, count) := identifyEntry fresh count entry
    let (rest, count) := identifyEntries fresh count rest
    (entry :: rest, count)

/-- Gives identifiers to the entries of one list of a document. -/
def identifyList (fresh : Nat → Uuid) (count : Nat) : Draft → Draft × Nat
  | .array entries =>
    let (entries, count) := identifyEntries fresh count entries
    (.array entries, count)
  | v => (v, count)

namespace Definitions

/-- The names of the lists of a document. -/
def listNames : List String := ["reports", "dashboards", "widgets", "alert_rules"]

/-- Gives identifiers to the entries of the lists among some members. -/
def identifyMembers (fresh : Nat → Uuid) :
    Nat → List (String × Draft) → List (String × Draft) × Nat
  | count, [] => ([], count)
  | count, (key, v) :: rest =>
    let (v, count) := if key ∈ listNames then identifyList fresh count v else (v, count)
    let (rest, count) := identifyMembers fresh count rest
    ((key, v) :: rest, count)

/-- Gives identifiers to the entries of a document that have none, and counts them. -/
def identify (fresh : Nat → Uuid) : Draft → Draft × Nat
  | .object members =>
    let (members, count) := identifyMembers fresh 0 members
    (.object members, count)
  | .array lists =>
    let (members, count) := identifyMembers fresh 0 (lists.map fun v => ("reports", v))
    (.array (members.map Prod.snd), count)
  | v => (v, 0)

end Definitions

/-! ## Documents -/

structure Definitions where
  reports : List Report
  dashboards : List Dashboard
  widgets : List Widget
  rules : List AlertRule
deriving DecidableEq

namespace Definitions

def toJson (d : Definitions) : Json :=
  .object [("reports", .array (d.reports.map Report.toJson)),
    ("dashboards", .array (d.dashboards.map Dashboard.toJson)),
    ("widgets", .array (d.widgets.map Widget.toJson)),
    ("alert_rules", .array (d.rules.map AlertRule.toJson))]

/-- Reads a document all of whose entries have identifiers. -/
def ofIdentified? (v : Draft) : Option Definitions := do
  match ← v.slots? (listNames.map fun name => [name]) with
  | [reports, dashboards, widgets, rules] =>
    return {
      reports := ← reports.orElse [] (Draft.readList? (Report.ofDraft? default))
      dashboards := ← dashboards.orElse [] (Draft.readList? (Dashboard.ofDraft? default))
      widgets := ← widgets.orElse [] (Draft.readList? (Widget.ofDraft? default))
      rules := ← rules.orElse [] (Draft.readList? (AlertRule.ofDraft? default)) }
  | _ => none

/-- Reads a document. -/
def ofDraft? (fresh : Nat → Uuid) (v : Draft) : Option Definitions :=
  ofIdentified? (identify fresh v).1

/-- Reads the text of a document. -/
def ofText? (fresh : Nat → Uuid) (text : String) : Option Definitions :=
  (Draft.skim? text).bind (ofDraft? fresh)

/-! ## Checking -/

/-- The first fault among some entries, named after the entry. -/
def checkEach {α : Type} (kind : String) (name : α → String)
    (validate : α → Except DomainError Unit) (entries : List α) : Except String Unit :=
  entries.forM fun entry =>
    (validate entry).mapError fun e => kind ++ " '" ++ name entry ++ "': " ++ e.message

/-- Checks the reports, the widgets and the rules. -/
def validate (d : Definitions) : Except String Unit := do
  checkEach "report" Report.name Report.validate d.reports
  checkEach "widget" Widget.title Widget.validate d.widgets
  checkEach "alert rule" AlertRule.name AlertRule.validate d.rules

/-! ## Storing -/

/-- Why definitions were not stored. -/
inductive ImportError where
  /-- an entry is not acceptable -/
  | invalid (text : String)
  | storage (e : StorageError)
deriving DecidableEq

def ImportError.message : ImportError → String
  | .invalid text => text
  | .storage e => e.message

/-- How many entries were stored. -/
structure Summary where
  reports : Nat
  dashboards : Nat
  widgets : Nat
  rules : Nat
deriving DecidableEq

def Summary.toJson (summary : Summary) : Json :=
  .object [("reports", .nat summary.reports), ("dashboards", .nat summary.dashboards),
    ("widgets", .nat summary.widgets), ("alert_rules", .nat summary.rules)]

def summary (d : Definitions) : Summary :=
  ⟨d.reports.length, d.dashboards.length, d.widgets.length, d.rules.length⟩

/-- Saves entities of a kind one after the other. -/
def saveEach (kind : EntityKind) : List kind.Entity → Action ImportError Unit
  | [] => pure ()
  | entity :: rest => do
    Action.call .storage (.save kind entity)
    saveEach kind rest

/-- Checks everything, then saves everything. -/
def store (d : Definitions) : Action ImportError Summary := do
  Action.ofExcept (d.validate.mapError ImportError.invalid)
  saveEach .report d.reports
  saveEach .dashboard d.dashboards
  saveEach .widget d.widgets
  saveEach .rule d.rules
  return d.summary

end Definitions

end Bulletin
