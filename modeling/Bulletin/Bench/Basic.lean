import Bulletin.Alert.Evaluate
import Bulletin.Artifact.Store
import Bulletin.Bench.Counter
import Bulletin.Bench.Script
import Bulletin.Dashboard.View
import Bulletin.Engine.Schedule
import Bulletin.Repository.Faulty

/-!
# The bench

A bench holds everything that the services ask for, as values: a repository that can be made to
fail, datasets, scripted connectors, a store of artifacts, a clock that moves by hand, counted
identifiers, and a record of what was notified. Runs in the background wait until they are drained.

`Bench.answer` is the world of the bench, and `Bench.perform` runs an action in it.
-/

namespace Bulletin

/-- What was told to a channel. -/
structure Told where
  kind : String
  failed : Bool
  notification : Notification
deriving DecidableEq

structure Bench where
  engine : Engine
  evaluator : Evaluator
  repository : FaultyRepository
  datasets : Fields (List Record)
  relational : List Response
  api : List Response
  calls : List ConnectorCall
  artifacts : ArtifactStore
  clock : Instant
  ids : IdCounter
  /-- the kinds of channels that cannot be reached -/
  unreachable : List String
  told : List Told
  /-- the runs that wait in the background -/
  pending : List (Report × Execution)
  /-- the final executions of drained runs -/
  ended : List Execution
  /-- the triggers whose executions were not asked for yet -/
  triggers : List Engine.Triggered

namespace Bench

/-- The instant at which the clock starts, the noon of the first day of 2024. -/
def startTime : Instant := (Instant.ofParts? 1704110400 0).getD default

/-- A bench with nothing on it. -/
def empty : Bench :=
  let connectors : Connectors := ⟨false, false⟩
  { engine := ⟨connectors, .standard⟩
    evaluator := ⟨connectors, .standard⟩
    repository := .sound (.memory .empty)
    datasets := ∅
    relational := []
    api := []
    calls := []
    artifacts := .memory .empty
    clock := startTime
    ids := .start
    unreachable := []
    told := []
    pending := []
    ended := []
    triggers := [] }

/-- Begins the next step; its identifiers are counted from one. -/
def nextStep (bench : Bench) : Bench := { bench with ids := bench.ids.nextStep }

/-! ## The world -/

/-- Tells a channel, or fails to. -/
def tell (bench : Bench) (channel : Channel) (notification : Notification) :
    Except DeliveryError Unit × Bench :=
  let failed := bench.unreachable.contains channel.kind
  let told := bench.told ++ [⟨channel.kind, failed, notification⟩]
  (if failed then .error (.undeliverable channel.kind "out of reach") else .ok (),
    { bench with told })

def answer : World Bench
  | .call c, bench =>
    let (answer, repository) := bench.repository.answer c
    (answer, { bench with repository })
  | .relational connection sql, bench =>
    let (reply, relational) := Response.take "relational" bench.relational
    (reply, { bench with relational, calls := bench.calls ++ [.relational connection sql] })
  | .dataset id, bench => (.value (bench.datasets.get? id), bench)
  | .api request, bench =>
    let (reply, api) := Response.take request.sourceName bench.api
    (reply, { bench with api, calls := bench.calls ++ [.api request] })
  | .now, bench => (bench.clock, bench)
  | .freshId, bench =>
    let (id, ids) := bench.ids.next
    (id, { bench with ids })
  | .putArtifact name bytes, bench =>
    let (result, artifacts) := bench.artifacts.put name bytes
    (result, { bench with artifacts })
  | .notify channel notification, bench => bench.tell channel notification
  | .launch report execution, bench =>
    ((), { bench with pending := bench.pending ++ [(report, execution)] })

/-- Runs an action on the bench. -/
def perform {ε α : Type} (bench : Bench) (action : Action ε α) : Ending ε α × Bench :=
  action.run answer bench

end Bench

end Bulletin
