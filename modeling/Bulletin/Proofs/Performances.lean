import Bulletin.Proofs.StoredAlerts
import Bulletin.Proofs.Traces

/-!
# Actions over a repository in memory

What an action does that has a repository in memory to itself: all that it asked and was answered,
how it ended, and the repository after it. The repository answers the calls; whatever else is asked
for may be answered in any way.

* `Action.Performs` — an action with its events, its ending, and the repository before and after it
* `performs_andThen`, `performs_bind_cases`, `performs_call_bind` — an action taken apart
* `Obeys.visit_of` — a visit to a repository is a performance
-/

namespace Bulletin

variable {ε ε' α β : Type}

/-! ## Events of a repository -/

/-- An event that does not call a repository, and gives out no identifier of an alert in it. -/
def Event.Outside (r : MemoryRepository) : Event → Prop
  | ⟨.call _, _⟩ => False
  | ⟨.freshId, id⟩ => r.Free id
  | _ => True

/-- A repository answers the calls among some events, the oldest first, as they say, and is then
another. -/
inductive MemoryRepository.Through : MemoryRepository → List Event → MemoryRepository → Prop
  | nil {r : MemoryRepository} : Through r [] r
  | call {r r₁ r' : MemoryRepository} {c : Call} {answer : c.Answer} {events : List Event}
      (h : r.answer c = (answer, r₁)) :
      Through r₁ events r' → Through r (⟨.call c, answer⟩ :: events) r'
  | other {r r' : MemoryRepository} {event : Event} {events : List Event}
      (h : event.Outside r) : Through r events r' → Through r (event :: events) r'

namespace MemoryRepository

variable {r r' : MemoryRepository} {events : List Event}

theorem through_append {first second : List Event} :
    r.Through (first ++ second) r' ↔ ∃ m, r.Through first m ∧ m.Through second r' := by
  constructor
  · intro h
    induction first generalizing r with
    | nil => exact ⟨r, .nil, h⟩
    | cons event rest ih =>
      cases h with
      | call ha h =>
        obtain ⟨m, hrest, hsecond⟩ := ih h
        exact ⟨m, .call ha hrest, hsecond⟩
      | other ha h =>
        obtain ⟨m, hrest, hsecond⟩ := ih h
        exact ⟨m, .other ha hrest, hsecond⟩
  · rintro ⟨m, hfirst, hsecond⟩
    induction hfirst with
    | nil => exact hsecond
    | call ha _ ih => exact .call ha (ih hsecond)
    | other ha _ ih => exact .other ha (ih hsecond)

/-- Without calls the repository stays as it is. -/
theorem Through.eq_of_no_call (h : r.Through events r')
    (hevents : ∀ event ∈ events, ∀ c, event.request ≠ .call c) : r' = r := by
  induction h with
  | nil => rfl
  | call => exact absurd rfl (hevents _ List.mem_cons_self _)
  | other _ _ ih => exact ih fun event he => hevents event (List.mem_cons_of_mem _ he)

end MemoryRepository

/-! ## Performances -/

/-- An action that has a repository to itself comes to its end. -/
structure Action.Performs (action : Action ε α) (r : MemoryRepository) (events : List Event)
    (ending : Ending ε α) (r' : MemoryRepository) : Prop where
  yields : action.Yields events ending
  through : r.Through events r'

namespace Action

variable {r r' : MemoryRepository} {events : List Event}

theorem performs_stop {e ending : Ending ε α} :
    (stop e).Performs r events ending r' ↔ events = [] ∧ ending = e ∧ r' = r := by
  constructor
  · rintro ⟨⟨⟩, ⟨⟩⟩
    exact ⟨rfl, rfl, rfl⟩
  · rintro ⟨rfl, rfl, rfl⟩
    exact ⟨.stop, .nil⟩

theorem performs_pure {a : α} {ending : Ending ε α} :
    (pure a : Action ε α).Performs r events ending r' ↔
      events = [] ∧ ending = .value a ∧ r' = r := performs_stop

theorem performs_andThen {action : Action ε α} {f : Ending ε α → Action ε' β}
    {ending : Ending ε' β} :
    (action.andThen f).Performs r events ending r' ↔
      ∃ first second middle m, events = first ++ second ∧ action.Performs r first middle m ∧
        (f middle).Performs m second ending r' := by
  constructor
  · rintro ⟨hyields, hthrough⟩
    obtain ⟨first, second, middle, rfl, hfirst, hsecond⟩ := yields_andThen.mp hyields
    obtain ⟨m, hr, hm⟩ := MemoryRepository.through_append.mp hthrough
    exact ⟨first, second, middle, m, rfl, ⟨hfirst, hr⟩, ⟨hsecond, hm⟩⟩
  · rintro ⟨first, second, middle, m, rfl, hfirst, hsecond⟩
    exact ⟨yields_andThen.mpr ⟨first, second, middle, rfl, hfirst.yields, hsecond.yields⟩,
      MemoryRepository.through_append.mpr ⟨m, hfirst.through, hsecond.through⟩⟩

/-- Two actions in a row: the second goes on where the first has ended with a value. -/
theorem performs_bind_cases {action : Action ε α} {f : α → Action ε β} {ending : Ending ε β}
    (h : (action >>= f).Performs r events ending r') :
    (∃ first second a m, events = first ++ second ∧ action.Performs r first (.value a) m ∧
      (f a).Performs m second ending r') ∨
    (∃ e, ending = .error e ∧ action.Performs r events (.error e) r') ∨
    (∃ c, ending = .crash c ∧ action.Performs r events (.crash c) r') := by
  obtain ⟨first, second, middle, m, rfl, hfirst, hsecond⟩ := performs_andThen.mp h
  cases middle with
  | value a => exact .inl ⟨first, second, a, m, rfl, hfirst, hsecond⟩
  | error e =>
    obtain ⟨rfl, rfl, rfl⟩ := performs_stop.mp hsecond
    rw [List.append_nil]
    exact .inr (.inl ⟨e, rfl, hfirst⟩)
  | crash c =>
    obtain ⟨rfl, rfl, rfl⟩ := performs_stop.mp hsecond
    rw [List.append_nil]
    exact .inr (.inr ⟨c, rfl, hfirst⟩)

/-- The second action goes on where the first one always ends with a value. -/
theorem performs_bind_of_value {action : Action ε α} {f : α → Action ε β} {ending : Ending ε β}
    {P : List Event → α → MemoryRepository → Prop}
    (h : (action >>= f).Performs r events ending r')
    (hvalue : ∀ {events e m}, action.Performs r events e m → ∃ a, e = .value a ∧ P events a m) :
    ∃ first second a m, events = first ++ second ∧ P first a m ∧
      (f a).Performs m second ending r' := by
  rcases performs_bind_cases h with ⟨first, second, a, m, rfl, hfirst, hsecond⟩ |
    ⟨e, -, hfirst⟩ | ⟨c, -, hfirst⟩
  · obtain ⟨a', ha, hP⟩ := hvalue hfirst
    cases ha
    exact ⟨first, second, a, m, rfl, hP, hsecond⟩
  · obtain ⟨_, ha, -⟩ := hvalue hfirst
    cases ha
  · obtain ⟨_, ha, -⟩ := hvalue hfirst
    cases ha

/-- An action whose errors are values goes on, unless it crashes. -/
theorem performs_result_bind_cases {action : Action ε α} {f : Except ε α → Action ε' β}
    {ending : Ending ε' β} (h : (action.result >>= f).Performs r events ending r') :
    (∃ first second a m, events = first ++ second ∧ action.Performs r first (.value a) m ∧
      (f (.ok a)).Performs m second ending r') ∨
    (∃ first second e m, events = first ++ second ∧ action.Performs r first (.error e) m ∧
      (f (.error e)).Performs m second ending r') ∨
    (∃ c, ending = .crash c ∧ action.Performs r events (.crash c) r') := by
  change ((action.andThen _).andThen _).Performs r events ending r' at h
  rw [andThen_andThen] at h
  obtain ⟨first, second, middle, m, rfl, hfirst, hsecond⟩ := performs_andThen.mp h
  cases middle with
  | value a => exact .inl ⟨first, second, a, m, rfl, hfirst, hsecond⟩
  | error e => exact .inr (.inl ⟨first, second, e, m, rfl, hfirst, hsecond⟩)
  | crash c =>
    obtain ⟨rfl, rfl, rfl⟩ := performs_stop.mp hsecond
    rw [List.append_nil]
    exact .inr (.inr ⟨c, rfl, hfirst⟩)

/-- The errors of an action that always ends with a value need no care. -/
theorem performs_result_bind_of_value {action : Action ε α} {f : Except ε α → Action ε' β}
    {ending : Ending ε' β} {P : List Event → α → MemoryRepository → Prop}
    (h : (action.result >>= f).Performs r events ending r')
    (hvalue : ∀ {events e m}, action.Performs r events e m → ∃ a, e = .value a ∧ P events a m) :
    ∃ first second a m, events = first ++ second ∧ P first a m ∧
      (f (.ok a)).Performs m second ending r' := by
  rcases performs_result_bind_cases h with ⟨first, second, a, m, rfl, hfirst, hsecond⟩ |
    ⟨_, _, e, _, -, hfirst, -⟩ | ⟨c, -, hfirst⟩
  · obtain ⟨a', ha, hP⟩ := hvalue hfirst
    cases ha
    exact ⟨first, second, a, m, rfl, hP, hsecond⟩
  · obtain ⟨_, ha, -⟩ := hvalue hfirst
    cases ha
  · obtain ⟨_, ha, -⟩ := hvalue hfirst
    cases ha

/-- A call that succeeds. -/
theorem performs_call_bind {wrap : StorageError → ε} {c : Call} {f : c.Result → Action ε β}
    {ending : Ending ε β} {a : c.Result} {m : MemoryRepository}
    (h : (call wrap c >>= f).Performs r events ending r') (ha : r.answer c = (.ok a, m)) :
    ∃ rest, events = ⟨.call c, .ok a⟩ :: rest ∧ (f a).Performs m rest ending r' := by
  obtain ⟨hyields, hthrough⟩ := h
  cases hyields with
  | ask hyields =>
    cases hthrough with
    | other ha => exact ha.elim
    | call hc hthrough =>
      obtain ⟨rfl, rfl⟩ := Prod.mk.inj (ha.symm.trans hc)
      exact ⟨_, rfl, hyields, hthrough⟩

/-- A call that succeeds, and nothing after it. -/
theorem performs_call {wrap : StorageError → ε} {c : Call} {ending : Ending ε c.Result}
    {a : c.Result} {m : MemoryRepository} (h : (call wrap c).Performs r events ending r')
    (ha : r.answer c = (.ok a, m)) :
    events = [⟨.call c, .ok a⟩] ∧ ending = .value a ∧ r' = m := by
  rw [← bind_pure (call wrap c)] at h
  obtain ⟨rest, rfl, hrest⟩ := performs_call_bind h ha
  obtain ⟨rfl, rfl, rfl⟩ := performs_pure.mp hrest
  exact ⟨rfl, rfl, rfl⟩

/-- A request that is no call. -/
theorem performs_request_bind {request : Request} {f : request.Answer → Action ε β}
    {ending : Ending ε β} (h : (Action.request request >>= f).Performs r events ending r')
    (hne : ∀ c, request ≠ .call c) :
    ∃ answer rest, events = ⟨request, answer⟩ :: rest ∧ Event.Outside r ⟨request, answer⟩ ∧
      (f answer).Performs r rest ending r' := by
  obtain ⟨hyields, hthrough⟩ := h
  obtain ⟨answer, rest, rfl, hrest⟩ := yields_request_bind.mp hyields
  cases hthrough with
  | other ha hthrough => exact ⟨answer, rest, rfl, ha, hrest, hthrough⟩
  | call => exact absurd rfl (hne _)

/-- Requests of which none is a call leave the repository as it is. -/
theorem Performs.eq_of_asksOnly {P : Request → Prop} (hP : ∀ c, ¬ P (.call c))
    {action : Action ε α} {ending : Ending ε α} (h : action.Performs r events ending r')
    (hasks : action.AsksOnly P) : r' = r := by
  refine h.through.eq_of_no_call fun event he c hc => hP c ?_
  exact hc ▸ h.yields.forall_mem hasks event he

end Action

/-! ## Visits -/

/-- An action did what a visit says. -/
def Visit.Of (v : Visit ε α) (action : Action ε α) : Prop :=
  action.Performs v.before v.events v.ending v.after

/-- An identifier is drawn first of all, or not at all. -/
def drawsFirst : Protocol := fun past request => request = .freshId → past = []

namespace Action

variable {σ : Type} {outside : World σ} {r : MemoryRepository} {s : σ}

theorem visit_of_ask {request : Request} {next : request.Answer → Action ε α}
    (hfree : request = .freshId → r.Free (outside .freshId s).1)
    (hnext : ∀ answer r s, ((next answer).visit outside r s).Of (next answer)) :
    ((ask request next).visit outside r s).Of (ask request next) := by
  cases request with
  | call c =>
    have hrest := hnext (r.answer c).1 (r.answer c).2 s
    exact ⟨.ask hrest.yields, .call rfl hrest.through⟩
  | freshId =>
    have hrest := hnext (outside .freshId s).1 r (outside .freshId s).2
    exact ⟨.ask hrest.yields, .other (hfree rfl) hrest.through⟩
  | now | relational | dataset | api | putArtifact | notify | launch =>
    exact ⟨.ask (hnext _ r (outside _ s).2).yields,
      .other trivial (hnext _ r (outside _ s).2).through⟩

/-- Who draws no identifier performs in every visit. -/
theorem AsksOnly.visit_of {action : Action ε α} (h : action.AsksOnly (· ≠ .freshId)) :
    (action.visit outside r s).Of action := by
  induction action generalizing r s with
  | stop e => exact performs_stop.mpr ⟨rfl, rfl, rfl⟩
  | ask request next ih =>
    exact visit_of_ask (fun hdraw => absurd hdraw h.1) fun answer _ _ => ih answer (h.2 answer)

/-- Later on no identifier is drawn any more. -/
theorem Obeys.asksOnly_of_drawsFirst {action : Action ε α} {past : List Event}
    {post : List Event → Ending ε α → Prop} (h : action.Obeys drawsFirst post past)
    (hpast : past ≠ []) : action.AsksOnly (· ≠ .freshId) := by
  induction action generalizing past with
  | stop e => trivial
  | ask request next ih =>
    exact ⟨fun hdraw => hpast (h.1 hdraw), fun answer => ih answer (h.2 answer) nofun⟩

/-- A visit is a performance, if an identifier is only drawn first of all, and is not taken. -/
theorem Obeys.visit_of {action : Action ε α} {post : List Event → Ending ε α → Prop}
    (h : action.Obeys drawsFirst post []) (hfree : r.Free (outside .freshId s).1) :
    (action.visit outside r s).Of action := by
  cases action with
  | stop e => exact performs_stop.mpr ⟨rfl, rfl, rfl⟩
  | ask request next =>
    exact visit_of_ask (fun _ => hfree) fun answer _ _ =>
      ((h.2 answer).asksOnly_of_drawsFirst nofun).visit_of

end Action

end Bulletin
