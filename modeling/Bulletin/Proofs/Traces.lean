import Bulletin.Proofs.Requests
import Bulletin.Proofs.Tables

/-!
# Runs and their events

A run gives an ending and a state. `Action.trace` gives what was asked and answered on the way, in
order, so that one can say what an action did and not only what it came to.

`MemoryRepository.world` puts a repository in memory beside a world of which nothing is known: its
answers to anything but a call, the clock among them, may depend on all that it was asked before.

* `Action.trace_bind` — the events of two actions in a row
* `run_call`, `trace_call` — one call of the repository
* `run_outside` — without calls there might be no repository
* `visit_bind_value`, `visit_bind_error` — what two actions in a row did
-/

namespace Bulletin

variable {σ ε ε' α β : Type}

namespace Action

/-! ## Events of a run -/

/-- What is asked and answered while an action runs, in order. -/
def trace (world : World σ) : Action ε α → σ → List Event
  | .stop _, _ => []
  | .ask request next, s =>
    ⟨request, (world request s).1⟩ ::
      (next (world request s).1).trace world (world request s).2

variable {world : World σ}

theorem trace_andThen (action : Action ε α) (f : Ending ε α → Action ε' β) (s : σ) :
    (action.andThen f).trace world s
      = action.trace world s ++
        (f (action.run world s).1).trace world (action.run world s).2 := by
  induction action generalizing s with
  | stop e => rfl
  | ask request next ih => exact congrArg (_ :: ·) (ih _ _)

theorem trace_bind (action : Action ε α) (f : α → Action ε β) (s : σ) :
    (action >>= f).trace world s = action.trace world s ++
      match action.run world s with
      | (.value a, s) => (f a).trace world s
      | (.error _, _) => []
      | (.crash _, _) => [] := by
  refine (trace_andThen action _ s).trans (congrArg _ ?_)
  rcases action.run world s with ⟨_ | _ | _, _⟩ <;> rfl

/-- A check that is passed. -/
theorem run_ofExcept_mapError_ok (a : α) (g : ε' → ε) (f : α → Action ε β) (s : σ) :
    (ofExcept ((Except.ok a).mapError g) >>= f).run world s = (f a).run world s := rfl

theorem trace_ofExcept_mapError_ok (a : α) (g : ε' → ε) (f : α → Action ε β) (s : σ) :
    (ofExcept ((Except.ok a).mapError g) >>= f).trace world s = (f a).trace world s := rfl

/-- What an action asks for only has a property in every event of a run. -/
theorem AsksOnly.trace {P : Request → Prop} {action : Action ε α} (h : action.AsksOnly P) (s : σ) :
    ∀ event ∈ action.trace world s, P event.request := by
  induction action generalizing s with
  | stop e => exact fun _ he => nomatch he
  | ask request next ih =>
    intro event he
    rcases List.mem_cons.mp he with rfl | he
    · exact h.1
    · exact ih _ (h.2 _) _ event he

/-- All events of a run are answered by its world. -/
theorem trace_answered (action : Action ε α) (s : σ) :
    ∀ event ∈ action.trace world s, ∃ s', event.answer = (world event.request s').1 := by
  induction action generalizing s with
  | stop e => exact fun _ he => nomatch he
  | ask request next ih =>
    intro event he
    rcases List.mem_cons.mp he with rfl | he
    · exact ⟨s, rfl⟩
    · exact ih _ _ event he

/-- A run comes to its ending after its events. -/
theorem yields_trace (world : World σ) (action : Action ε α) (s : σ) :
    action.Yields (action.trace world s) (action.run world s).1 := by
  induction action generalizing s with
  | stop e => exact .stop
  | ask request next ih => exact .ask (ih _ _)

theorem run_ending_bind (action : Action ε α) (f : Ending ε α → Action ε' β) (s : σ) :
    (action.ending >>= f).run world s
      = (f (action.run world s).1).run world (action.run world s).2 := by
  show ((action.andThen _).andThen _).run world s = _
  rw [andThen_andThen, run_andThen]
  rfl

theorem trace_ending_bind (action : Action ε α) (f : Ending ε α → Action ε' β) (s : σ) :
    (action.ending >>= f).trace world s = action.trace world s ++
      (f (action.run world s).1).trace world (action.run world s).2 := by
  show ((action.andThen _).andThen _).trace world s = _
  rw [andThen_andThen, trace_andThen]
  rfl

theorem run_result_bind (action : Action ε α) (f : Except ε α → Action ε' β) (s : σ) :
    (action.result >>= f).run world s =
      match action.run world s with
      | (.value a, s) => (f (.ok a)).run world s
      | (.error e, s) => (f (.error e)).run world s
      | (.crash c, s) => (.crash c, s) := by
  show ((action.andThen _).andThen _).run world s = _
  rw [andThen_andThen, run_andThen]
  rcases action.run world s with ⟨_ | _ | _, _⟩ <;> rfl

theorem trace_result_bind (action : Action ε α) (f : Except ε α → Action ε' β) (s : σ) :
    (action.result >>= f).trace world s = action.trace world s ++
      match action.run world s with
      | (.value a, s) => (f (.ok a)).trace world s
      | (.error e, s) => (f (.error e)).trace world s
      | (.crash _, _) => [] := by
  show ((action.andThen _).andThen _).trace world s = _
  rw [andThen_andThen, trace_andThen]
  refine congrArg _ ?_
  rcases action.run world s with ⟨_ | _ | _, _⟩ <;> rfl

end Action

/-! ## A repository in memory -/

namespace MemoryRepository

/-- The repository after an entity was saved. -/
def put (r : MemoryRepository) (kind : EntityKind) (entity : kind.Entity) : MemoryRepository :=
  r.set kind ((r.get kind).save entity)

theorem answer_save (r : MemoryRepository) (kind : EntityKind) (entity : kind.Entity) :
    r.answer (.save kind entity) = (.ok (), r.put kind entity) := rfl

/-- A repository in memory, in a world that answers whatever else is asked. -/
def world (outside : World σ) : World (MemoryRepository × σ)
  | .call c, (r, s) => ((r.answer c).1, (r.answer c).2, s)
  | request, (r, s) => ((outside request s).1, r, (outside request s).2)

variable {outside : World σ} {r : MemoryRepository} {s : σ}

section

variable {c : Call} {wrap : StorageError → ε} {a : c.Result} {r' : MemoryRepository}
  {f : c.Result → Action ε β}

/-- A call that succeeds. -/
theorem run_call (h : r.answer c = (.ok a, r')) :
    (Action.call wrap c >>= f).run (world outside) (r, s) = (f a).run (world outside) (r', s) := by
  show (Action.bind (Action.call wrap c) f).run (world outside) (r, s) = _
  simp only [Action.bind, Action.call, Action.andThen, Action.run, world, h]

theorem trace_call (h : r.answer c = (.ok a, r')) :
    (Action.call wrap c >>= f).trace (world outside) (r, s)
      = ⟨.call c, .ok a⟩ :: (f a).trace (world outside) (r', s) := by
  show (Action.bind (Action.call wrap c) f).trace (world outside) (r, s) = _
  simp only [Action.bind, Action.call, Action.andThen, Action.trace, world, h]

theorem run_tryCall {g : c.Answer → Action ε β} {answer : c.Answer}
    (h : r.answer c = (answer, r')) :
    (Action.tryCall c >>= g).run (world outside) (r, s)
      = (g answer).run (world outside) (r', s) := by
  show (Action.bind (Action.tryCall c) g).run (world outside) (r, s) = _
  simp only [Action.bind, Action.tryCall, Action.request, Action.andThen, Action.run, world, h]

theorem trace_tryCall {g : c.Answer → Action ε β} {answer : c.Answer}
    (h : r.answer c = (answer, r')) :
    (Action.tryCall c >>= g).trace (world outside) (r, s)
      = ⟨.call c, answer⟩ :: (g answer).trace (world outside) (r', s) := by
  show (Action.bind (Action.tryCall c) g).trace (world outside) (r, s) = _
  simp only [Action.bind, Action.tryCall, Action.request, Action.andThen, Action.trace, world, h]

end

theorem run_now {f : Instant → Action ε β} :
    (Action.request .now >>= f).run (world outside) (r, s)
      = (f (outside .now s).1).run (world outside) (r, (outside .now s).2) := rfl

theorem trace_now {f : Instant → Action ε β} :
    (Action.request .now >>= f).trace (world outside) (r, s)
      = ⟨.now, (outside .now s).1⟩ ::
        (f (outside .now s).1).trace (world outside) (r, (outside .now s).2) := rfl

/-- Requests of which none is a call are answered as if there were no repository. -/
theorem run_outside {P : Request → Prop} (hP : ∀ c, ¬ P (.call c)) {action : Action ε α}
    (h : action.AsksOnly P) : action.run (world outside) (r, s)
      = ((action.run outside s).1, r, (action.run outside s).2) := by
  induction action generalizing s with
  | stop e => rfl
  | ask request next ih =>
    obtain ⟨hrequest, hnext⟩ := h
    cases request with
    | call c => exact absurd hrequest (hP c)
    | now | freshId | relational | dataset | api | putArtifact | notify | launch =>
      exact ih _ (hnext _)

/-- Requests of which none is a call leave the repository as it is. -/
theorem run_of_asksOnly {P : Request → Prop} (hP : ∀ c, ¬ P (.call c)) {action : Action ε α}
    (h : action.AsksOnly P) : (action.run (world outside) (r, s)).2.1 = r := by
  rw [run_outside hP h]

end MemoryRepository

/-! ## Visits -/

/-- What an action did in a world with a repository in memory. -/
structure Visit (ε α : Type) where
  before : MemoryRepository
  ending : Ending ε α
  events : List Event
  after : MemoryRepository

namespace Action

/-- The visit of an action to a repository in a world that stands at `s`. -/
def visit (action : Action ε α) (outside : World σ) (r : MemoryRepository) (s : σ) :
    Visit ε α where
  before := r
  ending := (action.run (MemoryRepository.world outside) (r, s)).1
  events := action.trace (MemoryRepository.world outside) (r, s)
  after := (action.run (MemoryRepository.world outside) (r, s)).2.1

variable {outside : World σ} {r r' : MemoryRepository} {s s' : σ} {action : Action ε α}

@[simp] theorem visit_pure (a : α) (outside : World σ) (r : MemoryRepository) (s : σ) :
    (pure a : Action ε α).visit outside r s = ⟨r, .value a, [], r⟩ := rfl

/-- After a value the second action goes on. -/
theorem visit_bind_value {a : α}
    (h : action.run (MemoryRepository.world outside) (r, s) = (.value a, r', s'))
    (f : α → Action ε β) :
    (action >>= f).visit outside r s =
      ⟨r, ((f a).visit outside r' s').ending,
        action.trace (MemoryRepository.world outside) (r, s)
          ++ ((f a).visit outside r' s').events,
        ((f a).visit outside r' s').after⟩ := by
  unfold visit
  rw [run_bind, trace_bind, h]

/-- After an error it does not. -/
theorem visit_bind_error {e : ε}
    (h : action.run (MemoryRepository.world outside) (r, s) = (.error e, r', s'))
    (f : α → Action ε β) :
    (action >>= f).visit outside r s =
      ⟨r, .error e, action.trace (MemoryRepository.world outside) (r, s), r'⟩ := by
  unfold visit
  rw [run_bind, trace_bind, h]
  simp only [List.append_nil]

end Action

end Bulletin
