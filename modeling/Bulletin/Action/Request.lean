import Bulletin.Alert.Notification
import Bulletin.Artifact.Basic
import Bulletin.Query.Error
import Bulletin.Query.Input
import Bulletin.Repository.Call

/-!
# Requests

What the services ask of the world around them: calls of the repository, rows, the time, fresh
identifiers, a place for artifacts, the delivery of a notification, and a run in the background.
`Request.Answer` says what each is answered with.
-/

namespace Bulletin

/-- The breakdown of a connector: with a text that says why, or without. -/
inductive Crash where
  | text (text : String)
  | silent
deriving DecidableEq

def Crash.message : Crash → String
  | .text why => "panicked: " ++ why
  | .silent => "panicked"

/-- What a connector answers. Any connector may break down instead. -/
inductive Reply (α : Type) where
  | value (a : α)
  | failure (e : QueryError)
  | crash (c : Crash)

/-- The answer of a connector that does not break down. -/
def Reply.ofExcept {α : Type} : Except QueryError α → Reply α
  | .ok a => .value a
  | .error e => .failure e

inductive Request where
  /-- a call of the repository -/
  | call (call : Call)
  /-- rows of a relational database -/
  | relational (connection : Fields Json) (sql : String)
  /-- rows of a stored dataset, if there is one -/
  | dataset (id : String)
  /-- rows of an external interface -/
  | api (request : ApiRequest)
  | now
  | freshId
  /-- a place for an artifact -/
  | putArtifact (name : String) (bytes : ByteArray)
  | notify (channel : Channel) (notification : Notification)
  /-- a run of a report in the background -/
  | launch (report : Report) (execution : Execution)

/-- What a request is answered with. -/
@[reducible] def Request.Answer : Request → Type
  | .call c => c.Answer
  | .relational _ _ => Reply (List Record)
  | .dataset _ => Reply (Option (List Record))
  | .api _ => Reply (List Record)
  | .now => Instant
  | .freshId => Uuid
  | .putArtifact _ _ => Except ArtifactError String
  | .notify _ _ => Except DeliveryError Unit
  | .launch _ _ => Unit

end Bulletin
