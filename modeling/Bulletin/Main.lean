import Std.Time.DateTime.Timestamp
import Bulletin.CommandLine.Desk

/-!
# The program

Reads the words of an invocation, does the work of its command on the files of the machine, and
prints the document that the command gives. The repository is one file, which holds the document of
all its tables.

The status is 0 for a printed document or help, 1 for an error, 2 for wrong words, and 101 if an
instant lies beyond the calendar.
-/

namespace Bulletin.Program

open CommandLine

/-! ## Time and chance -/

/-- The time of the clock on the wall. -/
def now : IO Instant := do
  let nanos := (← Std.Time.Timestamp.now).toNanosecondsSinceUnixEpoch.val
  return (Instant.ofParts? (nanos.fdiv 1000000000) (nanos.fmod 1000000000).toNat).getD default

def freshId : IO Uuid := do
  let bytes ← IO.getRandomBytes 16
  return .ofRandom (bytes.toList.foldl (fun n b => n * 256 + b.toNat) 0)

/-- As many identifiers as are asked for. -/
def freshIds : Nat → IO (List Uuid)
  | 0 => return []
  | count + 1 => do
    let id ← freshId
    return id :: (← freshIds count)

/-! ## Files -/

/-- The text of a file; `none` if there is no such file. -/
def readText? (path : String) : IO (Option String) := do
  try
    return some (← IO.FS.readFile path)
  catch
    | .noFileOrDirectory .. => return none
    | e => throw e

/-- Writes a file beside its place and moves it there, so that no reader finds half of it. -/
def writeWhole (path temporary : String) (bytes : ByteArray) : IO Unit := do
  IO.FS.writeBinFile temporary bytes
  IO.FS.rename temporary path

def readDatabase (path : String) : IO KeyedRepository := do
  match ← readText? path with
  | none => return .empty
  | some text =>
    match (Draft.skim? text).bind KeyedRepository.ofDraft? with
    | some repository => return repository
    | none => throw (.userError s!"cannot open {path}")

def writeDatabase (path : String) (repository : KeyedRepository) : IO Unit :=
  writeWhole path (path ++ ".tmp") repository.toJson.compact.toUTF8

def readSettings (path : String) : IO Settings := do
  match Settings.ofText? (← readText? path) with
  | some settings => return settings
  | none => throw (.userError s!"invalid config {path}")

def readDefinitions (path : String) : IO Definitions := do
  match ← readText? path with
  | none => throw (.userError s!"cannot read definitions {path}")
  | some text =>
    let document := (Draft.skim? text).getD .null
    let ids ← freshIds (Definitions.identify (fun _ => default) document).2
    match Definitions.ofDraft? (fun n => ids.getD n default) document with
    | some definitions => return definitions
    | none => throw (.userError s!"invalid definitions {path}")

/-- The rows of a dataset in a directory. -/
def dataset (directory id : String) : IO (Except QueryError (Option (List Record))) := do
  match DatasetFile.name? id with
  | none => return .ok none
  | some name =>
    let path := DirectoryStore.joinPath directory name
    try
      match ← readText? path with
      | none => return .ok none
      | some text => return (DatasetFile.rows id text).map some
    catch e => return .error (.connector s!"failed to read dataset {path}: {e}")

/-- Writes an artifact into a directory, and gives its location. -/
def putArtifact (directory name : String) (bytes : ByteArray) :
    IO (Except ArtifactError String) := do
  match Artifact.checkName name with
  | .error e => return .error e
  | .ok () =>
    let path := DirectoryStore.joinPath directory name
    let temporary := DirectoryStore.joinPath directory (DirectoryStore.temporaryName name)
    try
      writeWhole path temporary bytes
      return .ok path
    catch e => return .error (.io (toString e))

/-! ## Commands -/

/-- The world of a command. The program has no line to the outside, and mails count as sent. -/
def answer (settings : Settings) (repository : IO.Ref KeyedRepository) :
    (request : Request) → IO request.Answer
  | .call c => repository.modifyGet fun tables => tables.answer c
  | .relational _ _ => return .failure (.connectorUnavailable SourceKind.relational.tag)
  | .dataset id => return .ofExcept (← dataset settings.datasetsDirectory id)
  | .api request => return Desk.api request
  | .now => now
  | .freshId => freshId
  | .putArtifact name bytes => putArtifact settings.outputDirectory name bytes
  | .notify channel notification =>
    return Delivery.tell Desk.unreachable (fun _ => .ok ()) channel notification
  | .launch _ _ => return ()

/-- Prints the document of an ended command, and gives the status. -/
def report : Ending String Json → IO UInt32
  | .value document => do
    IO.println document.pretty
    return 0
  | .error message => do
    IO.eprintln s!"Error: {message}"
    return 1
  | .crash c => do
    IO.eprintln c.message
    return 101

/-- Does the work of a command. -/
def perform (invocation : Invocation) : IO UInt32 := do
  let settings ← readSettings invocation.config
  let tables ← readDatabase settings.databasePath
  writeDatabase settings.databasePath tables
  IO.FS.createDirAll settings.outputDirectory
  let definitions ← invocation.command.definitionsFile?.mapM readDefinitions
  let repository ← IO.mkRef tables
  let action := invocation.command.perform ⟨Desk.connectors, settings.engine⟩
    ⟨Desk.connectors, settings.alerts⟩ definitions
  let ending ← action.runIn (answer settings repository)
  writeDatabase settings.databasePath (← repository.get)
  report ending

/-- What the words of an invocation may be. -/
def usage : String :=
  "Usage: bulletin [-c FILE] COMMAND\n\n" ++
  "  import -f FILE                      store the definitions of a file\n" ++
  "  reports                             list the reports\n" ++
  "  run -r REPORT                       run a report\n" ++
  "  executions -r REPORT                list the executions of a report\n" ++
  "  dashboard -i DASHBOARD              load a dashboard\n" ++
  "  alerts evaluate                     evaluate the alert rules\n" ++
  "  alerts list [-r RULE]               list the alerts\n" ++
  "  alerts ack -i ALERT [-b PERSON]     acknowledge an alert\n" ++
  "  alerts resolve -i ALERT [-r REASON] resolve an alert\n"

/-- Does what the words say; an error of a file ends it. -/
def start (words : List String) : IO UInt32 := do
  match readWords words with
  | .error .help =>
    IO.println usage
    return 0
  | .error .usage =>
    IO.eprintln usage
    return 2
  | .ok invocation =>
    try
      perform invocation
    catch e =>
      IO.eprintln s!"Error: {e}"
      return 1

end Bulletin.Program

def main (words : List String) : IO UInt32 := Bulletin.Program.start words
