import Bulletin.Action.Call
import Mathlib.Data.List.Forall2

/-!
# What an action asks for

Two ways to say something about all that an action may ever ask for, whatever it is answered.

* `AsksOnly` — every request has a property.
* `Obeys` — every request is allowed by a protocol, which sees the events of the action so far, and
  a condition holds at every end. It is a Hoare triple whose state is the past.

Both follow the action, so both pass through `andThen`: the second action starts with the past
that the first one leaves.

`Yields` says what an action ends with, given what it was answered.
-/

namespace Bulletin

/-- A request with its answer. -/
structure Event where
  request : Request
  answer : request.Answer

/-- Which requests are allowed after which events, the newest event first. -/
abbrev Protocol := (past : List Event) → Request → Prop

namespace Action

variable {ε ε' α β : Type}

/-! ## Requests of one kind -/

/-- Every request of an action has a property. -/
def AsksOnly (P : Request → Prop) : Action ε α → Prop
  | .stop _ => True
  | .ask request next => P request ∧ ∀ answer, (next answer).AsksOnly P

theorem asksOnly_andThen {P : Request → Prop} {action : Action ε α}
    {f : Ending ε α → Action ε' β} (h : action.AsksOnly P) (hf : ∀ e, (f e).AsksOnly P) :
    (action.andThen f).AsksOnly P := by
  induction action with
  | stop e => exact hf e
  | ask request next ih => exact ⟨h.1, fun answer => ih answer (h.2 answer)⟩

theorem asksOnly_bind {P : Request → Prop} {action : Action ε α} {f : α → Action ε β}
    (h : action.AsksOnly P) (hf : ∀ a, (f a).AsksOnly P) : (action >>= f).AsksOnly P := by
  refine asksOnly_andThen h ?_
  intro e
  cases e with
  | value a => exact hf a
  | error e => trivial
  | crash c => trivial

theorem asksOnly_mapError {P : Request → Prop} {action : Action ε α} {f : ε → ε'}
    (h : action.AsksOnly P) : (action.mapError f).AsksOnly P := by
  refine asksOnly_andThen h ?_
  intro e
  cases e <;> trivial

theorem asksOnly_result {P : Request → Prop} {action : Action ε α} (h : action.AsksOnly P) :
    (action.result : Action ε' (Except ε α)).AsksOnly P := by
  refine asksOnly_andThen h ?_
  intro e
  cases e <;> trivial

theorem asksOnly_request {P : Request → Prop} {r : Request} (h : P r) :
    (request r : Action ε r.Answer).AsksOnly P := ⟨h, fun _ => trivial⟩

theorem AsksOnly.imp {P P' : Request → Prop} (hP : ∀ r, P r → P' r) {action : Action ε α}
    (h : action.AsksOnly P) : action.AsksOnly P' := by
  induction action with
  | stop e => trivial
  | ask request next ih => exact ⟨hP _ h.1, fun answer => ih answer (h.2 answer)⟩

/-! ## Protocols -/

/-- Every request of an action is allowed by a protocol, and `post` holds at every end. -/
def Obeys (rule : Protocol) (post : List Event → Ending ε α → Prop) :
    (past : List Event) → Action ε α → Prop
  | past, .stop e => post past e
  | past, .ask request next =>
    rule past request ∧ ∀ answer, (next answer).Obeys rule post (⟨request, answer⟩ :: past)

variable {rule : Protocol}

theorem obeys_andThen {post : List Event → Ending ε' β → Prop} {past : List Event}
    {action : Action ε α} {f : Ending ε α → Action ε' β} :
    (action.andThen f).Obeys rule post past ↔
      action.Obeys rule (fun past e => (f e).Obeys rule post past) past := by
  induction action generalizing past with
  | stop e => exact Iff.rfl
  | ask request next ih => exact and_congr_right fun _ => forall_congr' fun answer => ih answer

theorem Obeys.imp {post post' : List Event → Ending ε α → Prop} {past : List Event}
    {action : Action ε α} (h : action.Obeys rule post past)
    (hpost : ∀ past e, post past e → post' past e) : action.Obeys rule post' past := by
  induction action generalizing past with
  | stop e => exact hpost _ _ h
  | ask request next ih => exact ⟨h.1, fun answer => ih answer (h.2 answer)⟩

/-- Requests that a protocol allows as long as something holds of the past, and that keep it so. -/
theorem AsksOnly.obeys_keeping {P : Request → Prop} (keeps : List Event → Prop)
    (hrule : ∀ past r, keeps past → P r → rule past r)
    (hkeeps : ∀ past event, keeps past → P event.request → keeps (event :: past))
    {action : Action ε α} (h : action.AsksOnly P) {past : List Event} (hpast : keeps past) :
    action.Obeys rule (fun past _ => keeps past) past := by
  induction action generalizing past with
  | stop e => exact hpast
  | ask request next ih =>
    exact ⟨hrule _ _ hpast h.1, fun answer => ih answer (h.2 answer) (hkeeps _ _ hpast h.1)⟩

/-- Requests that a protocol always allows obey it. -/
theorem AsksOnly.obeys {P : Request → Prop} (hP : ∀ past r, P r → rule past r)
    {action : Action ε α} (h : action.AsksOnly P) (past : List Event) :
    action.Obeys rule (fun _ _ => True) past :=
  AsksOnly.obeys_keeping _ (fun past r _ => hP past r) (fun _ _ _ _ => trivial) h trivial

theorem obeys_bind {post : List Event → Ending ε β → Prop} {past : List Event}
    {action : Action ε α} {f : α → Action ε β} :
    (action >>= f).Obeys rule post past ↔
      action.Obeys rule (fun past e => match e with
        | .value a => (f a).Obeys rule post past
        | .error e => post past (.error e)
        | .crash c => post past (.crash c)) past := by
  refine obeys_andThen.trans ?_
  constructor
  · refine fun h => h.imp ?_
    rintro past (_ | _ | _) h <;> exact h
  · refine fun h => h.imp ?_
    rintro past (_ | _ | _) h <;> exact h

/-- Two actions in a row, where the second needs nothing of the first. -/
theorem Obeys.bind {past : List Event} {action : Action ε α} {f : α → Action ε β}
    (h : action.Obeys rule (fun _ _ => True) past)
    (hf : ∀ past a, (f a).Obeys rule (fun _ _ => True) past) :
    (action >>= f).Obeys rule (fun _ _ => True) past := by
  refine obeys_bind.mpr (h.imp ?_)
  rintro past (a | e | c) -
  · exact hf past a
  · trivial
  · trivial

theorem Obeys.result {past : List Event} {action : Action ε α}
    (h : action.Obeys rule (fun _ _ => True) past) :
    (action.result : Action ε' (Except ε α)).Obeys rule (fun _ _ => True) past := by
  refine obeys_andThen.mpr (h.imp ?_)
  rintro past (a | e | c) - <;> trivial

/-- An action whose errors are values goes on, unless it crashes. -/
theorem obeys_result_bind {post : List Event → Ending ε' β → Prop} {past : List Event}
    {action : Action ε α} {f : Except ε α → Action ε' β} :
    (action.result >>= f).Obeys rule post past ↔
      action.Obeys rule (fun past e => match e with
        | .value a => (f (.ok a)).Obeys rule post past
        | .error e => (f (.error e)).Obeys rule post past
        | .crash c => post past (.crash c)) past := by
  refine obeys_bind.trans (obeys_andThen.trans ?_)
  constructor
  · refine fun h => h.imp ?_
    rintro past (_ | _ | _) h <;> exact h
  · refine fun h => h.imp ?_
    rintro past (_ | _ | _) h <;> exact h

/-- An action whose end is a value always goes on. -/
theorem obeys_ending_bind {post : List Event → Ending ε' β → Prop} {past : List Event}
    {action : Action ε α} {f : Ending ε α → Action ε' β} :
    (action.ending >>= f).Obeys rule post past ↔
      action.Obeys rule (fun past e => (f e).Obeys rule post past) past :=
  obeys_bind.trans obeys_andThen

theorem obeys_request_bind {post : List Event → Ending ε β → Prop} {past : List Event}
    {r : Request} {f : r.Answer → Action ε β} :
    (request r >>= f).Obeys rule post past ↔
      rule past r ∧ ∀ answer, (f answer).Obeys rule post (⟨r, answer⟩ :: past) := Iff.rfl

theorem obeys_call_bind {post : List Event → Ending ε β → Prop} {past : List Event}
    {wrap : StorageError → ε} {c : Call} {f : c.Result → Action ε β} :
    (call wrap c >>= f).Obeys rule post past ↔
      rule past (.call c) ∧ (∀ a, (f a).Obeys rule post (⟨.call c, .ok a⟩ :: past)) ∧
        ∀ e, post (⟨.call c, .error e⟩ :: past) (.error (wrap e)) := by
  refine and_congr_right fun _ => ?_
  constructor
  · intro h
    exact ⟨fun a => h (.ok a), fun e => h (.error e)⟩
  · rintro ⟨hok, herror⟩ (e | a)
    · exact herror e
    · exact hok a

theorem obeys_ofExcept_bind {post : List Event → Ending ε β → Prop} {past : List Event}
    {x : Except ε α} {f : α → Action ε β} :
    (ofExcept x >>= f).Obeys rule post past ↔
      (∀ a, x = .ok a → (f a).Obeys rule post past) ∧ ∀ e, x = .error e → post past (.error e) := by
  cases x with
  | ok a => exact ⟨fun h => ⟨by rintro _ ⟨⟩; exact h, by rintro _ ⟨⟩⟩, fun h => h.1 a rfl⟩
  | error e => exact ⟨fun h => ⟨by rintro _ ⟨⟩, by rintro _ ⟨⟩; exact h⟩, fun h => h.2 e rfl⟩

/-! ## Endings -/

/-- The action, answered as some events say, the oldest first, comes to an end. -/
inductive Yields : Action ε α → List Event → Ending ε α → Prop
  | stop {ending : Ending ε α} : Yields (.stop ending) [] ending
  | ask {request : Request} {next : request.Answer → Action ε α} {answer : request.Answer}
      {events : List Event} {ending : Ending ε α} :
      Yields (next answer) events ending →
      Yields (.ask request next) (⟨request, answer⟩ :: events) ending

/-- What an action asks for only has a property in all of the events. -/
theorem Yields.forall_mem {P : Request → Prop} {action : Action ε α} {events : List Event}
    {ending : Ending ε α} (h : action.Yields events ending) (hP : action.AsksOnly P) :
    ∀ event ∈ events, P event.request := by
  induction h with
  | stop => exact fun _ he => nomatch he
  | ask _ ih =>
    intro event he
    rcases List.mem_cons.mp he with rfl | he
    · exact hP.1
    · exact ih (hP.2 _) event he

/-- Answers lead to one end, whatever comes after it. -/
theorem Yields.unique {action : Action ε α} {events events' rest rest' : List Event}
    {ending ending' : Ending ε α} (h : action.Yields events ending)
    (h' : action.Yields events' ending') (hsame : events ++ rest = events' ++ rest') :
    events' = events ∧ ending' = ending := by
  induction h generalizing events' with
  | stop =>
    cases h'
    exact ⟨rfl, rfl⟩
  | ask _ ih =>
    cases h' with
    | ask hnext' =>
      obtain ⟨hevent, hrest⟩ := List.cons.inj hsame
      cases hevent
      obtain ⟨rfl, rfl⟩ := ih hnext' hrest
      exact ⟨rfl, rfl⟩

theorem yields_andThen {action : Action ε α} {f : Ending ε α → Action ε' β} {events : List Event}
    {ending : Ending ε' β} :
    (action.andThen f).Yields events ending ↔
      ∃ first second middle, events = first ++ second ∧ action.Yields first middle ∧
        (f middle).Yields second ending := by
  constructor
  · intro h
    induction action generalizing events with
    | stop e => exact ⟨[], events, e, rfl, .stop, h⟩
    | ask request next ih =>
      cases h with
      | ask h =>
        obtain ⟨first, second, middle, rfl, hfirst, hsecond⟩ := ih _ h
        exact ⟨_ :: first, second, middle, rfl, .ask hfirst, hsecond⟩
  · rintro ⟨first, second, middle, rfl, hfirst, hsecond⟩
    induction hfirst with
    | stop => exact hsecond
    | ask _ ih => exact .ask (ih hsecond)

theorem yields_stop {e ending : Ending ε α} {events : List Event} :
    (stop e).Yields events ending ↔ events = [] ∧ ending = e := by
  constructor
  · rintro ⟨⟩
    exact ⟨rfl, rfl⟩
  · rintro ⟨rfl, rfl⟩
    exact .stop

theorem yields_pure {a : α} {events : List Event} {ending : Ending ε α} :
    (pure a : Action ε α).Yields events ending ↔ events = [] ∧ ending = .value a := yields_stop

/-- Two actions in a row end with a value if both do. -/
theorem yields_bind_value {action : Action ε α} {f : α → Action ε β} {events : List Event} {b : β} :
    (action >>= f).Yields events (.value b) ↔
      ∃ first second a, events = first ++ second ∧ action.Yields first (.value a) ∧
        (f a).Yields second (.value b) := by
  refine yields_andThen.trans ?_
  constructor
  · rintro ⟨first, second, _ | _ | _, rfl, hfirst, hsecond⟩
    · exact ⟨first, second, _, rfl, hfirst, hsecond⟩
    · cases hsecond
    · cases hsecond
  · rintro ⟨first, second, a, rfl, hfirst, hsecond⟩
    exact ⟨first, second, .value a, rfl, hfirst, hsecond⟩

theorem yields_ending_bind {action : Action ε α} {f : Ending ε α → Action ε' β}
    {events : List Event} {ending : Ending ε' β} :
    (action.ending >>= f).Yields events ending ↔
      ∃ first second middle, events = first ++ second ∧ action.Yields first middle ∧
        (f middle).Yields second ending := by
  show ((action.andThen _).andThen _).Yields events ending ↔ _
  rw [andThen_andThen]
  exact yields_andThen

theorem yields_request_bind {r : Request} {f : r.Answer → Action ε β} {events : List Event}
    {ending : Ending ε β} :
    (request r >>= f).Yields events ending ↔
      ∃ answer rest, events = ⟨r, answer⟩ :: rest ∧ (f answer).Yields rest ending := by
  constructor
  · intro h
    cases h with
    | ask h => exact ⟨_, _, rfl, h⟩
  · rintro ⟨answer, rest, rfl, h⟩
    exact .ask h

theorem yields_call_bind {wrap : StorageError → ε} {c : Call} {f : c.Result → Action ε β}
    {events : List Event} {ending : Ending ε β} :
    (call wrap c >>= f).Yields events ending ↔
      (∃ a rest, events = ⟨.call c, .ok a⟩ :: rest ∧ (f a).Yields rest ending) ∨
        ∃ e, events = [⟨.call c, .error e⟩] ∧ ending = .error (wrap e) := by
  constructor
  · intro h
    cases h with
    | @ask _ _ answer rest _ h =>
      cases answer with
      | ok a => exact .inl ⟨a, rest, rfl, h⟩
      | error e =>
        cases h
        exact .inr ⟨e, rfl, rfl⟩
  · rintro (⟨a, rest, rfl, h⟩ | ⟨e, rfl, rfl⟩)
    · exact @Yields.ask _ _ (.call c) _ (.ok a) _ _ h
    · exact @Yields.ask _ _ (.call c) _ (.error e) _ _ .stop

theorem yields_mapError_value {action : Action ε α} {f : ε → ε'} {events : List Event} {a : α} :
    (action.mapError f).Yields events (.value a) ↔ action.Yields events (.value a) := by
  refine yields_andThen.trans ?_
  constructor
  · rintro ⟨first, second, _ | _ | _, rfl, hfirst, hsecond⟩
    · cases hsecond
      rw [List.append_nil]
      exact hfirst
    · cases hsecond
    · cases hsecond
  · intro h
    exact ⟨events, [], .value a, (List.append_nil _).symm, h, .stop⟩

/-- Several actions one after the other: each has its part of what happens and gives a value, or one
of them goes wrong and is the last one. -/
theorem yields_mapM {χ ι : Type} {event : χ → Event} {f : ι → Action ε α} {items : List ι}
    {entries : List χ} {ending : Ending ε (List α)}
    (h : (items.mapM f).Yields (entries.map event) ending) :
    (∃ parts : List (List χ × α), ending = .value (parts.map Prod.snd) ∧
      entries = parts.flatMap Prod.fst ∧
      List.Forall₂ (fun i part => (f i).Yields (part.1.map event) (.value part.2)) items parts) ∨
    ∃ i ∈ items, ∃ first last, entries = first ++ last ∧
      ((∃ e, ending = .error e ∧ (f i).Yields (last.map event) (.error e)) ∨
        ∃ c, ending = .crash c ∧ (f i).Yields (last.map event) (.crash c)) := by
  induction items generalizing entries ending with
  | nil =>
    obtain ⟨hnone, rfl⟩ := yields_pure.mp h
    exact .inl ⟨[], rfl, List.map_eq_nil_iff.mp hnone, .nil⟩
  | cons i rest ih =>
    rw [List.mapM_cons] at h
    obtain ⟨first, second, middle, hsplit, hfirst, hsecond⟩ := yields_andThen.mp h
    obtain ⟨own, others, rfl, rfl, rfl⟩ := List.map_eq_append_iff.mp hsplit
    cases middle with
    | value a =>
      obtain ⟨third, fourth, ended, hsplit, hthird, hfourth⟩ := yields_andThen.mp hsecond
      obtain ⟨later, nothing, rfl, rfl, rfl⟩ := List.map_eq_append_iff.mp hsplit
      have hnothing : nothing = [] := by
        cases ended with
        | value | error | crash => exact List.map_eq_nil_iff.mp (yields_stop.mp hfourth).1
      subst hnothing
      rw [List.append_nil]
      obtain ⟨parts, rfl, rfl, hparts⟩ | ⟨j, hj, before, last, rfl, hwrong⟩ := ih hthird
      · obtain ⟨-, rfl⟩ := yields_pure.mp hfourth
        exact .inl ⟨(own, a) :: parts, rfl, rfl, .cons hfirst hparts⟩
      · refine .inr ⟨j, List.mem_cons_of_mem _ hj, own ++ before, last,
          (List.append_assoc _ _ _).symm, ?_⟩
        obtain ⟨e, rfl, hlast⟩ | ⟨c, rfl, hlast⟩ := hwrong
        · exact .inl ⟨e, (yields_stop.mp hfourth).2, hlast⟩
        · exact .inr ⟨c, (yields_stop.mp hfourth).2, hlast⟩
    | error e =>
      obtain ⟨hnothing, rfl⟩ := yields_stop.mp hsecond
      obtain rfl := List.map_eq_nil_iff.mp hnothing
      rw [List.append_nil]
      exact .inr ⟨i, List.mem_cons_self, [], own, rfl, .inl ⟨e, rfl, hfirst⟩⟩
    | crash c =>
      obtain ⟨hnothing, rfl⟩ := yields_stop.mp hsecond
      obtain rfl := List.map_eq_nil_iff.mp hnothing
      rw [List.append_nil]
      exact .inr ⟨i, List.mem_cons_self, [], own, rfl, .inr ⟨c, rfl, hfirst⟩⟩

/-- Between the past of an action and its past at an end stand the events that led there. -/
theorem Obeys.yields {post : List Event → Ending ε α → Prop} {past : List Event}
    {action : Action ε α} (h : action.Obeys rule post past) :
    action.Obeys rule (fun past' ending => post past' ending ∧
      ∃ events, past' = events.reverse ++ past ∧ action.Yields events ending) past := by
  induction action generalizing past with
  | stop e => exact ⟨h, [], rfl, .stop⟩
  | ask request next ih =>
    refine ⟨h.1, fun answer => (ih answer (h.2 answer)).imp ?_⟩
    rintro past' ending ⟨hpost, events, rfl, hyields⟩
    refine ⟨hpost, ⟨request, answer⟩ :: events, ?_, .ask hyields⟩
    rw [List.reverse_cons, List.append_assoc]
    rfl

end Action

end Bulletin
