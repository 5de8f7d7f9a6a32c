import Bulletin.Repository.Entity
import Bulletin.Repository.Error

/-!
# Calls of the repository

The repository answers four calls, the first three for every kind of entity. Each call is one
step: nobody sees it half done. Saving replaces the entity with the same identifier.

`createActive` stores an alert unless its rule has an active one, and tells whether it did.
-/

namespace Bulletin

inductive Call where
  | get (kind : EntityKind) (id : Id kind)
  | save (kind : EntityKind) (entity : kind.Entity)
  | list (kind : EntityKind) (scope : kind.Scope)
  | createActive (alert : Alert)

namespace Call

/-- What a call is answered with if it succeeds. -/
@[reducible] def Result : Call → Type
  | .get kind _ => Option kind.Entity
  | .save _ _ => Unit
  | .list kind _ => List kind.Entity
  | .createActive _ => Bool

/-- What a call is answered with. -/
abbrev Answer (call : Call) : Type := Except StorageError call.Result

/-- The name of a call. -/
def name : Call → String
  | .get kind _ => "get_" ++ kind.noun
  | .save kind _ => "save_" ++ kind.noun
  | .list kind _ => "list_" ++ kind.noun ++ "s"
  | .createActive _ => "create_active_instance"

end Call

/-- Whether an alert is active and belongs to a rule. -/
def Alert.blocks (rule : RuleId) (alert : Alert) : Bool := alert.ruleId = rule && alert.active

end Bulletin
