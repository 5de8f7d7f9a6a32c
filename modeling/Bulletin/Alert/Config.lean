import Bulletin.Json.Decode
import Bulletin.Query.Execute

/-!
# The evaluator of alert rules

How the evaluator is set up: which connectors it has, how often rules are evaluated, whether an
alert ends by itself when its metric is back, and how long a delivery may take.
-/

namespace Bulletin

structure AlertConfig where
  tickSecs : UInt64
  autoResolve : Bool
  notifyTimeoutSecs : UInt64
deriving DecidableEq

namespace AlertConfig

def standard : AlertConfig := ⟨60, false, 10⟩

def toJson (config : AlertConfig) : Json :=
  .object [("tick_secs", .nat config.tickSecs.toNat), ("auto_resolve", .bool config.autoResolve),
    ("notify_timeout_secs", .nat config.notifyTimeoutSecs.toNat)]

def ofDraft? (v : Draft) : Option AlertConfig := do
  match ← v.slots? [["tick_secs"], ["auto_resolve"], ["notify_timeout_secs"]] with
  | [tick, resolve, timeout] =>
    return {
      tickSecs := ← tick.orElse standard.tickSecs Draft.readWord64?
      autoResolve := ← resolve.orElse standard.autoResolve Draft.readBool?
      notifyTimeoutSecs := ← timeout.orElse standard.notifyTimeoutSecs Draft.readWord64? }
  | _ => none

end AlertConfig

/-- The evaluator of alert rules. -/
structure Evaluator where
  connectors : Connectors
  config : AlertConfig
deriving DecidableEq

end Bulletin
