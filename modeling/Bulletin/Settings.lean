import Bulletin.Alert.Config
import Bulletin.Engine.Config

/-!
# Settings

The settings of the command line program. Every setting has a standard value, and so has the whole
if there is no file of settings.
-/

namespace Bulletin

structure Settings where
  databasePath : String
  outputDirectory : String
  datasetsDirectory : String
  logFilter : String
  httpTimeoutSecs : UInt64
  engine : EngineConfig
  alerts : AlertConfig
deriving DecidableEq

namespace Settings

def standard : Settings :=
  { databasePath := "prism.redb"
    outputDirectory := "artifacts"
    datasetsDirectory := "datasets"
    logFilter := "prism=info"
    httpTimeoutSecs := 30
    engine := .standard
    alerts := .standard }

def toJson (settings : Settings) : Json :=
  .object [("database_path", .string settings.databasePath),
    ("output_dir", .string settings.outputDirectory),
    ("datasets_dir", .string settings.datasetsDirectory),
    ("log_filter", .string settings.logFilter),
    ("http_timeout_secs", .nat settings.httpTimeoutSecs.toNat),
    ("engine", settings.engine.toJson), ("alerts", settings.alerts.toJson)]

def ofDraft? (v : Draft) : Option Settings := do
  match ← v.slots? [["database_path"], ["output_dir"], ["datasets_dir"], ["log_filter"],
    ["http_timeout_secs"], ["engine"], ["alerts"]] with
  | [database, output, datasets, log, timeout, engine, alerts] =>
    return {
      databasePath := ← database.orElse standard.databasePath Draft.readString?
      outputDirectory := ← output.orElse standard.outputDirectory Draft.readString?
      datasetsDirectory := ← datasets.orElse standard.datasetsDirectory Draft.readString?
      logFilter := ← log.orElse standard.logFilter Draft.readString?
      httpTimeoutSecs := ← timeout.orElse standard.httpTimeoutSecs Draft.readWord64?
      engine := ← engine.orElse standard.engine EngineConfig.ofDraft?
      alerts := ← alerts.orElse standard.alerts AlertConfig.ofDraft? }
  | _ => none

/-- Reads the settings in the text of a file, if there is one. -/
def ofText? : Option String → Option Settings
  | none => some standard
  | some text => (Draft.skim? text).bind ofDraft?

end Settings

end Bulletin
