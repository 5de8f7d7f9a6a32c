import Bulletin.Action.Request

/-!
# Actions

An action is what a service does, as a value: it has come to an end, or it asks for something and
goes on with the answer. An end is a value, an error, or a crash that no service meant.

Nothing is fixed about who answers. `run` lets a world answer over a state, one request after the
other; several actions can also be stepped in turns, since each request is one step.

* `run_bind` — running two actions in sequence
* `runIn_stateM` — the two ways of running agree
* the laws of sequencing (`LawfulMonad`)
-/

namespace Bulletin

/-! ## Endings -/

/-- How an action ends. -/
inductive Ending (ε α : Type) where
  | value (a : α)
  | error (e : ε)
  | crash (c : Crash)

/-! ## Actions -/

inductive Action (ε α : Type) where
  | stop (ending : Ending ε α)
  | ask (request : Request) (next : request.Answer → Action ε α)

namespace Action

variable {ε ε' α β σ : Type}

/-- Goes on at every end of an action. -/
def andThen (f : Ending ε α → Action ε' β) : Action ε α → Action ε' β
  | .stop ending => f ending
  | .ask request next => .ask request fun answer => (next answer).andThen f

/-- Goes on where an action ends with a value. -/
def bind (action : Action ε α) (f : α → Action ε β) : Action ε β :=
  action.andThen fun
    | .value a => f a
    | .error e => .stop (.error e)
    | .crash c => .stop (.crash c)

instance : Monad (Action ε) where
  pure a := .stop (.value a)
  bind := bind

def fail (e : ε) : Action ε α := .stop (.error e)

def crash (c : Crash) : Action ε α := .stop (.crash c)

/-- Asks for something and ends with the answer. -/
def request (request : Request) : Action ε request.Answer :=
  .ask request fun answer => .stop (.value answer)

/-! ## Errors and crashes -/

/-- Ends as a result does. -/
def ofExcept : Except ε α → Action ε α
  | .ok a => .stop (.value a)
  | .error e => fail e

/-- The action with `f` applied to every error. -/
def mapError (f : ε → ε') (action : Action ε α) : Action ε' α :=
  action.andThen fun
    | .value a => .stop (.value a)
    | .error e => fail (f e)
    | .crash c => crash c

/-- The action with its errors as values; a crash stays a crash. -/
def result (action : Action ε α) : Action ε' (Except ε α) :=
  action.andThen fun
    | .value a => .stop (.value (.ok a))
    | .error e => .stop (.value (.error e))
    | .crash c => crash c

/-- The action with its end as a value. -/
def ending (action : Action ε α) : Action ε' (Ending ε α) :=
  action.andThen fun e => .stop (.value e)

end Action

/-! ## Running -/

/-- Answers every request over a state. -/
abbrev World (σ : Type) := (request : Request) → σ → request.Answer × σ

namespace Action

variable {ε ε' α β σ : Type}

/-- Runs an action to its end. -/
def run (world : World σ) : Action ε α → σ → Ending ε α × σ
  | .stop ending, s => (ending, s)
  | .ask request next, s => (next (world request s).1).run world (world request s).2

/-- Runs an action to its end, the answers coming from the effects of a monad. -/
def runIn {m : Type → Type} [Monad m] (world : (request : Request) → m request.Answer) :
    Action ε α → m (Ending ε α)
  | .stop ending => pure ending
  | .ask request next => do
    let answer ← world request
    (next answer).runIn world

/-! ## Laws -/

/-- Running over a state is running in its monad. -/
theorem runIn_stateM (world : World σ) (action : Action ε α) (s : σ) :
    (action.runIn (m := StateM σ) (fun request s => world request s)).run s
      = action.run world s := by
  induction action generalizing s with
  | stop ending => rfl
  | ask request next ih => exact ih _ _

theorem andThen_andThen (action : Action ε α) {γ ε'' : Type} (f : Ending ε α → Action ε' β)
    (g : Ending ε' β → Action ε'' γ) :
    (action.andThen f).andThen g = action.andThen fun ending => (f ending).andThen g := by
  induction action with
  | stop ending => rfl
  | ask request next ih =>
    simp only [andThen]
    congr 1
    funext answer
    exact ih answer

theorem andThen_stop (action : Action ε α) : action.andThen .stop = action := by
  induction action with
  | stop ending => rfl
  | ask request next ih =>
    simp only [andThen]
    congr 1
    funext answer
    exact ih answer

/-- Running on from an end is running from the state at that end. -/
theorem run_andThen (world : World σ) (action : Action ε α) (f : Ending ε α → Action ε' β)
    (s : σ) :
    (action.andThen f).run world s
      = (f (action.run world s).1).run world (action.run world s).2 := by
  induction action generalizing s with
  | stop ending => rfl
  | ask request next ih => exact ih _ _

theorem run_bind (world : World σ) (action : Action ε α) (f : α → Action ε β) (s : σ) :
    (action >>= f).run world s =
      match action.run world s with
      | (.value a, s) => (f a).run world s
      | (.error e, s) => (.error e, s)
      | (.crash c, s) => (.crash c, s) := by
  show (action.andThen _).run world s = _
  rw [run_andThen]
  rcases action.run world s with ⟨_ | _ | _, _⟩ <;> rfl

@[simp] theorem run_pure (world : World σ) (a : α) (s : σ) :
    (pure a : Action ε α).run world s = (.value a, s) := rfl

instance : LawfulMonad (Action ε) :=
  LawfulMonad.mk' (Action ε)
    (fun action => by
      show action.andThen _ = action
      refine Eq.trans ?_ action.andThen_stop
      congr 1
      funext ending
      cases ending <;> rfl)
    (fun _ _ => rfl)
    (fun action f g => by
      show (action.andThen _).andThen _ = action.andThen _
      rw [andThen_andThen]
      congr 1
      funext ending
      cases ending <;> rfl)

end Action

end Bulletin
