import Bulletin.Action.Basic

/-!
# Asking the repository

Short forms for the requests that services make most: a call whose error ends the action, a call
whose error is ignored, and a result that may lie beyond the calendar.
-/

namespace Bulletin.Action

variable {ε α : Type}

/-- Calls the repository; an error, wrapped, ends the action. -/
def call (wrap : StorageError → ε) (c : Call) : Action ε c.Result :=
  .ask (.call c) fun
    | .ok a => .stop (.value a)
    | .error e => .stop (.error (wrap e))

/-- Calls the repository and gives what it answers, an error too. -/
def tryCall (c : Call) : Action ε c.Answer := request (.call c)

/-- Ends as the result says; one beyond the calendar is a crash. -/
def inCalendar : Option α → Action ε α
  | some a => .stop (.value a)
  | none => crash (.text "the end of an interval lies beyond the calendar")

end Bulletin.Action
