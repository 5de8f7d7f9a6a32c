import Bulletin.Alert.Delivery
import Bulletin.Alert.Evaluate
import Bulletin.Bench.Counter
import Bulletin.CommandLine.Arguments
import Bulletin.CommandLine.Files
import Bulletin.Dashboard.View
import Bulletin.Definitions
import Bulletin.Query.DatasetFile
import Bulletin.Repository.Keyed
import Bulletin.Settings

/-!
# Commands at work

A command reads its settings, opens the database, makes the directory of artifacts, does its work
and prints a JSON document. `Command.perform` is that work as an action. A desk holds what a
command works on, as values: the files, databases among them, the time and counted identifiers;
`Desk.run` runs one invocation on it.
-/

namespace Bulletin

namespace CommandLine.Command

/-! ## The work of a command -/

/-- The work of a command, up to the document that it prints. Definitions are read beforehand. -/
def perform (engine : Engine) (evaluator : Evaluator) (definitions : Option Definitions) :
    Command → Action String Json
  | .importFile _ =>
    match definitions with
    | none => .fail "the definitions cannot be read"
    | some d => Definitions.Summary.toJson <$> d.store.mapError Definitions.ImportError.message
  | .reports => do
    let reports ← Action.call StorageError.message (.list .report ())
    return .array (reports.map Report.toJson)
  | .run id => Execution.toJson <$> (engine.run id .manual).mapError EngineError.message
  | .executions id => do
    match ← Action.call StorageError.message (.get .report id) with
    | none => .fail ("report not found: " ++ id.display)
    | some _ =>
      let executions ← Action.call StorageError.message (.list .execution id)
      return .array (executions.map Execution.toJson)
  | .dashboard id => DashboardView.toJson <$> (engine.loadDashboard id).mapError EngineError.message
  | .evaluate => do
    let outcomes ← evaluator.tick.mapError AlertError.message
    return .object [("outcomes", .array (outcomes.map RuleOutcome.toJson))]
  | .alerts rule => do
    let alerts ← Action.call StorageError.message (.list .alert rule)
    return .array (alerts.map Alert.toJson)
  | .acknowledge id person =>
    Alert.toJson <$> (Evaluator.acknowledge id person).mapError AlertError.message
  | .resolve id reason => Alert.toJson <$> (Evaluator.resolve id reason).mapError AlertError.message

/-- The file of definitions that a command reads. -/
def definitionsFile? : Command → Option String
  | .importFile file => some file
  | _ => none

end CommandLine.Command

/-! ## The desk -/

structure Desk where
  tree : FileTree
  clock : Instant
  ids : IdCounter

/-- What a command leaves behind besides files: its status and the text of what it printed. -/
structure Outcome where
  status : Nat
  printed : Option String

namespace Desk

open CommandLine

/-- The connectors of the program: no relational database comes with it. -/
def connectors : Connectors := ⟨false, true⟩

/-- The answer of the datasets in a directory. -/
def dataset (tree : FileTree) (directory id : String) : Except QueryError (Option (List Record)) :=
  match DatasetFile.name? id with
  | none => .ok none
  | some name =>
    let path := DirectoryStore.joinPath directory name
    match tree.read path with
    | .error .notFound => .ok none
    | .error e => .error (.connector ("failed to read dataset " ++ path ++ ": " ++ e.message))
    | .ok entry => (DatasetFile.rows id entry.leadingText).map some

/-- What a request over HTTP is answered with: the desk has no line to the outside. -/
def unreachable (request : HttpRequest) : Except String HttpResponse :=
  .error ("error sending request for url (" ++ request.url ++ ")")

/-- The answer of an external interface. -/
def api (request : ApiRequest) : Reply (List Record) :=
  Reply.ofExcept (Http.fetch unreachable request)

/-- The world of a command with its settings, over the desk and the open repository. Mails are
written to a log and count as sent. -/
def answer (settings : Settings) : World (Desk × KeyedRepository)
  | .call c, (desk, repository) =>
    let (answer, repository) := repository.answer c
    (answer, desk, repository)
  | .relational _ _, s => (.failure (.connectorUnavailable SourceKind.relational.tag), s)
  | .dataset id, (desk, repository) =>
    (.ofExcept (dataset desk.tree settings.datasetsDirectory id), desk, repository)
  | .api request, s => (api request, s)
  | .now, (desk, repository) => (desk.clock, desk, repository)
  | .freshId, (desk, repository) =>
    let (id, ids) := desk.ids.next
    (id, { desk with ids }, repository)
  | .putArtifact name bytes, (desk, repository) =>
    let (result, tree) := desk.tree.putArtifact settings.outputDirectory name bytes
    (result, { desk with tree }, repository)
  | .notify channel notification, s =>
    (Delivery.tell unreachable (fun _ => .ok ()) channel notification, s)
  | .launch _ _, s => ((), s)

/-- The status and the text of an ended command. -/
def outcomeOf : Ending String Json → Outcome
  | .value document => ⟨0, some document.pretty⟩
  | .error _ => ⟨1, none⟩
  | .crash _ => ⟨101, none⟩

/-- Reads the settings of a file, standard ones if there is none. -/
def settings? (desk : Desk) (file : String) : Option Settings :=
  match desk.tree.read file with
  | .error .notFound => Settings.ofText? none
  | _ => (desk.tree.text? file).bind fun text => Settings.ofText? (some text)

/-- Reads the definitions that a command needs. -/
def definitions? (desk : Desk) (command : Command) : Option Definitions := do
  let text ← desk.tree.text? (← command.definitionsFile?)
  Definitions.ofText? desk.ids.sequence text

/-- Runs a command with its settings. The database is there also if the directory of artifacts
cannot be made. -/
def runCommand (desk : Desk) (settings : Settings) (command : Command) : Outcome × Desk :=
  match desk.tree.openDatabase? settings.databasePath with
  | none => (⟨1, none⟩, desk)
  | some (place, repository, tree) =>
    let (made, tree) := tree.makeDirectoriesAt settings.outputDirectory
    let desk := { desk with tree }
    if made then
      let action := command.perform ⟨connectors, settings.engine⟩ ⟨connectors, settings.alerts⟩
        (desk.definitions? command)
      let (ending, desk, repository) := action.run (answer settings) (desk, repository)
      (outcomeOf ending, { desk with tree := desk.tree.keepDatabase place repository })
    else (⟨1, none⟩, desk)

/-- Runs the words of an invocation as the next step of the desk. -/
def run (desk : Desk) (words : List String) : Outcome × Desk :=
  let desk := { desk with ids := desk.ids.nextStep }
  match readWords words with
  | .error .help => (⟨0, none⟩, desk)
  | .error .usage => (⟨2, none⟩, desk)
  | .ok invocation =>
    match desk.settings? invocation.config with
    | none => (⟨1, none⟩, desk)
    | some settings => desk.runCommand settings invocation.command

end Desk

end Bulletin
