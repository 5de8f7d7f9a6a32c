import Bulletin.Proofs.Requests

/-!
# Actions side by side

Any number of actions run side by side over one state. A step lets one of them ask for one thing,
so a run of steps is one way in which the requests of all of them come one after the other. Nothing
is said about who comes next: an action may rest for ever.

Who answers is a relation, since clocks, connectors and fresh identifiers may answer in many ways.
An answer may set more actions going, and so may an ending.

* `Step.obeys` — actions that obey a protocol go on to obey it, whatever the others do
* `Step.allowed` — what is asked in a step is allowed by what the asking action was answered before
* `Run.invariant` — what every step preserves holds after every run
* `Run.alone` — an action may come to its end without being interrupted
* `Turns.run` — turns are a run that also says what each asking action had been answered before
* `Joint` — turns in which every action keeps its place
* `Joint.exists_thread` — whoever took a turn is still there
* `Joint.forall₂` — what holds of each action in its place
* `Joint.play` — the turns in which a world answers threads in a given order
-/

namespace Bulletin

variable {σ ε α : Type}

/-! ## Steps -/

/-- An action under way, with what it has been answered so far, the newest event first. -/
structure Thread (ε α : Type) where
  past : List Event
  rest : Action ε α

/-- An action that is about to begin. -/
def Thread.begin (action : Action ε α) : Thread ε α := ⟨[], action⟩

/-- An action under way is on its way through another one. -/
def Thread.Continues (action : Action ε α) (t : Thread ε α) : Prop :=
  ∀ events ending, t.rest.Yields events ending → action.Yields (t.past.reverse ++ events) ending

theorem Thread.continues_begin (action : Action ε α) : (Thread.begin action).Continues action :=
  fun _ _ h => h

theorem Thread.Continues.ask {action : Action ε α} {past : List Event} {request : Request}
    {next : request.Answer → Action ε α} (h : Thread.Continues action ⟨past, .ask request next⟩)
    (answer : request.Answer) :
    Thread.Continues action ⟨⟨request, answer⟩ :: past, next answer⟩ := by
  intro events ending hyields
  rw [List.reverse_cons, List.append_assoc]
  exact h _ _ (.ask hyields)

/-- Where it has come to an end, so has the other one. -/
theorem Thread.Continues.yields {action : Action ε α} {t : Thread ε α} {ending : Ending ε α}
    (h : t.Continues action) (hstop : t.rest = .stop ending) :
    action.Yields t.past.reverse ending := by
  rw [← List.append_nil t.past.reverse]
  exact h [] ending (hstop ▸ .stop)

/-- How requests are answered, and what is set going by answers and endings. -/
structure Setting (σ ε α : Type) where
  /-- the answers that a request may get in a state, with the state after it -/
  answers : (request : Request) → σ → request.Answer → σ → Prop
  launches : Event → List (Action ε α)
  forks : Ending ε α → List (Action ε α)

/-- Actions under way over one state. -/
structure Scene (σ ε α : Type) where
  threads : List (Thread ε α)
  state : σ

/-- The scene in which some actions are about to begin. -/
def Scene.begin (actions : List (Action ε α)) (s : σ) : Scene σ ε α :=
  ⟨actions.map Thread.begin, s⟩

/-- One action asks for one thing, or an action that has ended gives way to those it sets going. -/
inductive Step (S : Setting σ ε α) : Scene σ ε α → Option Event → Scene σ ε α → Prop
  | ask {before after : List (Thread ε α)} {past : List Event} {request : Request}
      {next : request.Answer → Action ε α} {s s' : σ} {answer : request.Answer}
      (h : S.answers request s answer s') :
      Step S ⟨before ++ ⟨past, .ask request next⟩ :: after, s⟩ (some ⟨request, answer⟩)
        ⟨before ++ ⟨⟨request, answer⟩ :: past, next answer⟩ ::
          (after ++ (S.launches ⟨request, answer⟩).map Thread.begin), s'⟩
  | fork {before after : List (Thread ε α)} {past : List Event} {ending : Ending ε α} {s : σ} :
      Step S ⟨before ++ ⟨past, .stop ending⟩ :: after, s⟩ none
        ⟨before ++ ((S.forks ending).map Thread.begin ++ after), s⟩

/-- Any number of steps, with their events in order. -/
inductive Run (S : Setting σ ε α) (c : Scene σ ε α) : List Event → Scene σ ε α → Prop
  | start : Run S c [] c
  | step {events : List Event} {c₁ c₂ : Scene σ ε α} {event : Option Event} :
      Run S c events c₁ → Step S c₁ event c₂ → Run S c (events ++ event.toList) c₂

variable {S : Setting σ ε α}

theorem Run.trans {c c₁ c₂ : Scene σ ε α} {events events' : List Event}
    (h : Run S c events c₁) (h' : Run S c₁ events' c₂) : Run S c (events ++ events') c₂ := by
  induction h' with
  | start => rw [List.append_nil]; exact h
  | step _ hs ih => rw [← List.append_assoc]; exact ih.step hs

/-- What every step preserves holds after every run. -/
theorem Run.invariant {I : Scene σ ε α → Prop}
    (hI : ∀ {c event c'}, I c → Step S c event c' → I c') {c c' : Scene σ ε α}
    {events : List Event} (h : Run S c events c') (hc : I c) : I c' := by
  induction h with
  | start => exact hc
  | step _ hs ih => exact hI ih hs

/-- Where more answers are admitted there are more steps. -/
theorem Step.imp {T : Setting σ ε α}
    (ha : ∀ request s answer s', S.answers request s answer s' → T.answers request s answer s')
    (hl : T.launches = S.launches) (hf : T.forks = S.forks) {c c' : Scene σ ε α}
    {event : Option Event} (h : Step S c event c') : Step T c event c' := by
  cases h with
  | ask h =>
    rw [← hl]
    exact .ask (ha _ _ _ _ h)
  | fork =>
    rw [← hf]
    exact .fork

theorem Run.imp {T : Setting σ ε α}
    (ha : ∀ request s answer s', S.answers request s answer s' → T.answers request s answer s')
    (hl : T.launches = S.launches) (hf : T.forks = S.forks) {c c' : Scene σ ε α}
    {events : List Event} (h : Run S c events c') : Run T c events c' := by
  induction h with
  | start => exact .start
  | step _ hs ih => exact ih.step (hs.imp ha hl hf)

/-! ## Protocols -/

/-- Every action of a scene goes on to obey a protocol. -/
def Scene.Obeys (rule : Protocol) (c : Scene σ ε α) : Prop :=
  ∀ t ∈ c.threads, t.rest.Obeys rule (fun _ _ => True) t.past

/-- Whatever is set going in a setting obeys a protocol. -/
structure Setting.Obeys (rule : Protocol) (S : Setting σ ε α) : Prop where
  launches : ∀ event, ∀ action ∈ S.launches event, action.Obeys rule (fun _ _ => True) []
  forks : ∀ ending, ∀ action ∈ S.forks ending, action.Obeys rule (fun _ _ => True) []

theorem Scene.obeys_begin {rule : Protocol} {actions : List (Action ε α)} {s : σ}
    (h : ∀ action ∈ actions, action.Obeys rule (fun _ _ => True) []) :
    (Scene.begin actions s).Obeys rule := by
  intro t ht
  obtain ⟨action, ha, rfl⟩ := List.mem_map.mp ht
  exact h action ha

theorem Step.obeys {rule : Protocol} (hS : S.Obeys rule) {c c' : Scene σ ε α}
    {event : Option Event} (h : Step S c event c') (hc : c.Obeys rule) : c'.Obeys rule := by
  cases h with
  | @ask before after past request next s s' answer h =>
    have hasked := hc ⟨past, .ask request next⟩ (by simp)
    intro t ht
    simp only [List.mem_append, List.mem_cons, List.mem_map] at ht
    obtain ht | rfl | ht | ⟨action, ha, rfl⟩ := ht
    · exact hc t (by simp [ht])
    · exact hasked.2 answer
    · exact hc t (by simp [ht])
    · exact hS.launches _ action ha
  | fork =>
    intro t ht
    simp only [List.mem_append, List.mem_map] at ht
    obtain ht | ⟨action, ha, rfl⟩ | ht := ht
    · exact hc t (by simp [ht])
    · exact hS.forks _ action ha
    · exact hc t (by simp [ht])

/-- What is asked in a step is allowed by the past of the action that asks. -/
theorem Step.allowed {rule : Protocol} {c c' : Scene σ ε α} {event : Event}
    (h : Step S c (some event) c') (hc : c.Obeys rule) :
    ∃ t ∈ c.threads, rule t.past event.request := by
  cases h with
  | @ask before after past request next s s' answer h =>
    exact ⟨⟨past, .ask request next⟩, by simp, (hc ⟨past, .ask request next⟩ (by simp)).1⟩

/-! ## Uninterrupted actions -/

/-- The answers that a world gives to an action are admitted, and none of them sets anything
going. -/
def Setting.Admits {ε' α' : Type} (S : Setting σ ε α) (world : World σ) : Action ε' α' → σ → Prop
  | .stop _, _ => True
  | .ask request next, s =>
    S.answers request s (world request s).1 (world request s).2 ∧
      S.launches ⟨request, (world request s).1⟩ = [] ∧
      S.Admits world (next (world request s).1) (world request s).2

theorem Setting.admits_andThen {ε₁ ε₂ α₁ α₂ : Type} {world : World σ} {action : Action ε₁ α₁}
    {f : Ending ε₁ α₁ → Action ε₂ α₂} {s : σ} :
    S.Admits world (action.andThen f) s ↔
      S.Admits world action s ∧
        S.Admits world (f (action.run world s).1) (action.run world s).2 := by
  induction action generalizing s with
  | stop e => exact ⟨fun h => ⟨trivial, h⟩, fun h => h.2⟩
  | ask request next ih =>
    rw [Action.andThen, Setting.Admits, Setting.Admits, ih, and_assoc, and_assoc]
    rfl

/-- An action may come to its end in one go, with the answers of a world. -/
theorem Run.alone {world : World σ} {action : Action ε α} {s : σ} (h : S.Admits world action s)
    (before after : List (Thread ε α)) (past : List Event) :
    ∃ events past', Run S ⟨before ++ ⟨past, action⟩ :: after, s⟩ events
      ⟨before ++ ⟨past', .stop (action.run world s).1⟩ :: after, (action.run world s).2⟩ := by
  induction action generalizing past s with
  | stop e => exact ⟨[], past, .start⟩
  | ask request next ih =>
    obtain ⟨hanswer, hlaunches, hrest⟩ := h
    -- the first request is one step, in which nobody else moves
    obtain ⟨events, past', hrun⟩ := ih _ hrest (⟨request, (world request s).1⟩ :: past)
    have first : Step S ⟨before ++ ⟨past, .ask request next⟩ :: after, s⟩ _ _ := .ask hanswer
    rw [hlaunches, List.map_nil, List.append_nil] at first
    exact ⟨_, past', (Run.start.step first).trans hrun⟩

/-! ## Turns -/

/-- An event, with the events before it of the action that it belongs to, the newest event first. -/
structure Turn where
  past : List Event
  event : Event

/-- A step in which one action takes a turn. -/
inductive Takes (S : Setting σ ε α) : Scene σ ε α → Turn → Scene σ ε α → Prop
  | ask {before after : List (Thread ε α)} {past : List Event} {request : Request}
      {next : request.Answer → Action ε α} {s s' : σ} {answer : request.Answer}
      (h : S.answers request s answer s') :
      Takes S ⟨before ++ ⟨past, .ask request next⟩ :: after, s⟩ ⟨past, ⟨request, answer⟩⟩
        ⟨before ++ ⟨⟨request, answer⟩ :: past, next answer⟩ ::
          (after ++ (S.launches ⟨request, answer⟩).map Thread.begin), s'⟩

/-- Any number of steps, with their turns in order. -/
inductive Turns (S : Setting σ ε α) (c : Scene σ ε α) : List Turn → Scene σ ε α → Prop
  | start : Turns S c [] c
  | take {turns : List Turn} {c₁ c₂ : Scene σ ε α} {turn : Turn} :
      Turns S c turns c₁ → Takes S c₁ turn c₂ → Turns S c (turns ++ [turn]) c₂
  | fork {turns : List Turn} {c₁ c₂ : Scene σ ε α} :
      Turns S c turns c₁ → Step S c₁ none c₂ → Turns S c turns c₂

theorem Takes.step {c c' : Scene σ ε α} {turn : Turn} (h : Takes S c turn c') :
    Step S c (some turn.event) c' := by
  cases h with
  | ask h => exact .ask h

/-- Turns are a run. -/
theorem Turns.run {c c' : Scene σ ε α} {turns : List Turn} (h : Turns S c turns c') :
    Run S c (turns.map Turn.event) c' := by
  induction h with
  | start => exact .start
  | take _ ht ih =>
    rw [List.map_append]
    exact ih.step ht.step
  | fork _ hs ih =>
    have hrun := ih.step hs
    rwa [Option.toList_none, List.append_nil] at hrun

/-- Who is there after a turn: the action that took it, those that were there before, and those
that it has set going. -/
theorem Takes.mem {c c' : Scene σ ε α} {turn : Turn} (h : Takes S c turn c') {t : Thread ε α}
    (ht : t ∈ c'.threads) :
    t.past = turn.event :: turn.past ∨ t ∈ c.threads ∨
      ∃ action ∈ S.launches turn.event, t = .begin action := by
  cases h with
  | ask h =>
    simp only [List.mem_append, List.mem_cons, List.mem_map] at ht ⊢
    obtain ht | rfl | ht | ⟨action, ha, rfl⟩ := ht
    · exact .inr (.inl (.inl ht))
    · exact .inl rfl
    · exact .inr (.inl (.inr (.inr ht)))
    · exact .inr (.inr ⟨action, ha, rfl⟩)

theorem Step.mem_of_fork {c c' : Scene σ ε α} (h : Step S c none c') {t : Thread ε α}
    (ht : t ∈ c'.threads) :
    t ∈ c.threads ∨ ∃ ending, ∃ action ∈ S.forks ending, t = .begin action := by
  cases h with
  | @fork before after past ending s =>
    simp only [List.mem_append, List.mem_cons, List.mem_map] at ht ⊢
    obtain ht | ⟨action, ha, rfl⟩ | ht := ht
    · exact .inl (.inl ht)
    · exact .inr ⟨ending, action, ha, rfl⟩
    · exact .inl (.inr (.inr ht))

/-- The action that takes a turn was there before. -/
theorem Takes.asker {c c' : Scene σ ε α} {turn : Turn} (h : Takes S c turn c') :
    ∃ t ∈ c.threads, t.past = turn.past := by
  cases h with
  | @ask before after past request next s s' answer h =>
    exact ⟨⟨past, .ask request next⟩, by simp, rfl⟩

/-- What is asked in a turn is allowed. -/
theorem Takes.allowed {rule : Protocol} {c c' : Scene σ ε α} {turn : Turn}
    (h : Takes S c turn c') (hc : c.Obeys rule) : rule turn.past turn.event.request := by
  cases h with
  | @ask before after past request next s s' answer h =>
    exact (hc ⟨past, .ask request next⟩ (by simp)).1

theorem Turns.trans {c c₁ c₂ : Scene σ ε α} {turns turns' : List Turn}
    (h : Turns S c turns c₁) (h' : Turns S c₁ turns' c₂) : Turns S c (turns ++ turns') c₂ := by
  induction h' with
  | start => rw [List.append_nil]; exact h
  | take _ ht ih => rw [← List.append_assoc]; exact ih.take ht
  | fork _ hs ih => exact ih.fork hs

/-- The scene in which a turn is taken. -/
theorem Turns.split {c c' : Scene σ ε α} {before after : List Turn} {turn : Turn}
    (h : Turns S c (before ++ turn :: after) c') :
    ∃ c₁ c₂, Turns S c before c₁ ∧ Takes S c₁ turn c₂ ∧ Turns S c₂ after c' := by
  generalize hturns : before ++ turn :: after = turns at h
  induction h generalizing after with
  | start => simp at hturns
  | @take turns c₁ c₂ last h ht ih =>
    rcases List.eq_nil_or_concat after with rfl | ⟨after, other, rfl⟩
    · obtain ⟨rfl, hlast⟩ := List.append_inj' hturns rfl
      cases hlast
      exact ⟨c₁, c₂, h, ht, .start⟩
    · rw [List.concat_eq_append, ← List.cons_append, ← List.append_assoc] at hturns
      obtain ⟨hbefore, hlast⟩ := List.append_inj' hturns rfl
      cases hlast
      obtain ⟨d₁, d₂, hfirst, hturn, hrest⟩ := ih hbefore
      rw [List.concat_eq_append]
      exact ⟨d₁, d₂, hfirst, hturn, hrest.take ht⟩
  | fork h hs ih =>
    obtain ⟨d₁, d₂, hfirst, hturn, hrest⟩ := ih hturns
    exact ⟨d₁, d₂, hfirst, hturn, hrest.fork hs⟩

theorem Turns.obeys {rule : Protocol} (hS : S.Obeys rule) {c c' : Scene σ ε α} {turns : List Turn}
    (h : Turns S c turns c') (hc : c.Obeys rule) : c'.Obeys rule := by
  induction h with
  | start => exact hc
  | take _ ht ih => exact ht.step.obeys hS ih
  | fork _ hs ih => exact hs.obeys hS ih

/-- All that an action was answered, it was answered in some turn. -/
theorem Turns.mem_of_past {actions : List (Action ε α)} {s : σ} {turns : List Turn}
    {c : Scene σ ε α} (h : Turns S (.begin actions s) turns c) {t : Thread ε α}
    (ht : t ∈ c.threads) {event : Event} (he : event ∈ t.past) :
    ∃ turn ∈ turns, turn.event = event := by
  induction h generalizing t event with
  | start =>
    obtain ⟨action, -, rfl⟩ := List.mem_map.mp ht
    cases he
  | @take turns c₁ c₂ turn _ htake ih =>
    have hold : ∀ t' ∈ c₁.threads, ∀ event ∈ t'.past, ∃ turn' ∈ turns ++ [turn],
        turn'.event = event := by
      intro t' ht' event he
      obtain ⟨turn', hmem, heq⟩ := ih ht' he
      exact ⟨turn', List.mem_append_left _ hmem, heq⟩
    rcases htake.mem ht with hpast | ht | ⟨action, -, rfl⟩
    · rw [hpast] at he
      rcases List.mem_cons.mp he with rfl | he
      · exact ⟨turn, by simp, rfl⟩
      · obtain ⟨t', ht', hpast'⟩ := htake.asker
        exact hold t' ht' event (hpast' ▸ he)
    · exact hold t ht event he
    · cases he
  | fork _ hs ih =>
    rcases hs.mem_of_fork ht with ht | ⟨_, action, -, rfl⟩
    · exact ih ht he
    · cases he

/-! ## Actions that keep their places -/

/-- Any number of turns in which no action gives way to another. -/
inductive Joint (S : Setting σ ε α) (c : Scene σ ε α) : List Turn → Scene σ ε α → Prop
  | start : Joint S c [] c
  | take {turns : List Turn} {c₁ c₂ : Scene σ ε α} {turn : Turn} :
      Joint S c turns c₁ → Takes S c₁ turn c₂ → Joint S c (turns ++ [turn]) c₂

theorem Joint.turns {c c' : Scene σ ε α} {turns : List Turn} (h : Joint S c turns c') :
    Turns S c turns c' := by
  induction h with
  | start => exact .start
  | take _ ht ih => exact ih.take ht

/-- Everybody keeps what was answered before. -/
theorem Takes.kept {c c' : Scene σ ε α} {turn : Turn} (h : Takes S c turn c') {t : Thread ε α}
    (ht : t ∈ c.threads) : ∃ t' ∈ c'.threads, t.past <:+ t'.past := by
  cases h with
  | @ask before after past request next s s' answer h =>
    rcases List.mem_append.mp ht with ht | ht
    · exact ⟨t, by simp [ht], List.suffix_refl _⟩
    · rcases List.mem_cons.mp ht with rfl | ht
      · exact ⟨⟨⟨request, answer⟩ :: past, next answer⟩, by simp, List.suffix_cons _ _⟩
      · exact ⟨t, by simp [ht], List.suffix_refl _⟩

/-- Whoever took a turn is still there, and the turn is in its past. -/
theorem Joint.exists_thread {c c' : Scene σ ε α} {turns : List Turn} (h : Joint S c turns c')
    {turn : Turn} (hturn : turn ∈ turns) :
    ∃ t ∈ c'.threads, turn.event :: turn.past <:+ t.past := by
  induction h with
  | start => cases hturn
  | @take turns c₁ c₂ last _ htake ih =>
    rcases List.mem_append.mp hturn with hturn | hturn
    · obtain ⟨t, ht, hpast⟩ := ih hturn
      obtain ⟨t', ht', hkept⟩ := htake.kept ht
      exact ⟨t', ht', hpast.trans hkept⟩
    · obtain rfl := List.mem_singleton.mp hturn
      cases htake with
      | ask _ => exact ⟨_, List.mem_append_right _ List.mem_cons_self, List.suffix_refl _⟩

theorem Joint.trans {c c₁ c₂ : Scene σ ε α} {turns turns' : List Turn}
    (h : Joint S c turns c₁) (h' : Joint S c₁ turns' c₂) : Joint S c (turns ++ turns') c₂ := by
  induction h' with
  | start => rw [List.append_nil]; exact h
  | take _ ht ih => rw [← List.append_assoc]; exact ih.take ht

/-- What holds of every action that begins, and goes on to hold when it or somebody else takes a
turn, holds of all of them, each in its place. -/
theorem Joint.forall₂ {P : List Turn → σ → Action ε α → Thread ε α → Prop}
    {actions : List (Action ε α)} {s : σ} {turns : List Turn} {c : Scene σ ε α}
    (hlaunches : ∀ event, S.launches event = [])
    (hbegin : ∀ action ∈ actions, P [] s action (.begin action))
    (hown : ∀ {turns s s' action past request next answer},
      P turns s action ⟨past, .ask request next⟩ → S.answers request s answer s' →
      P (turns ++ [⟨past, ⟨request, answer⟩⟩]) s' action ⟨⟨request, answer⟩ :: past, next answer⟩)
    (hother : ∀ {turns s s' action t turn}, P turns s action t →
      S.answers turn.event.request s turn.event.answer s' → P (turns ++ [turn]) s' action t)
    (h : Joint S (.begin actions s) turns c) :
    List.Forall₂ (P turns c.state) actions c.threads := by
  induction h with
  | start =>
    show List.Forall₂ _ actions (actions.map Thread.begin)
    rw [List.forall₂_map_right_iff, List.forall₂_same]
    exact hbegin
  | take _ hturn ih =>
    cases hturn with
    | @ask before after past request next m m' answer hanswer =>
      obtain ⟨action, rest, haction, hrest, hactions⟩ :=
        List.forall₂_cons_right_iff.mp (List.forall₂_drop_append _ _ _ ih)
      have hfirst := List.forall₂_take_append _ _ _ ih
      rw [← List.take_append_drop before.length actions, hactions]
      refine List.rel_append (hfirst.imp fun _ _ h => hother h hanswer)
        (.cons (hown haction hanswer) ?_)
      rw [hlaunches, List.map_nil, List.append_nil]
      exact hrest.imp fun _ _ h => hother h hanswer

/-! ## Turns of uninterrupted actions -/

/-- The turns of an action to which a world answers. -/
def Action.turns {ε α : Type} (world : World σ) : List Event → Action ε α → σ → List Turn
  | _, .stop _, _ => []
  | past, .ask request next, s =>
    ⟨past, ⟨request, (world request s).1⟩⟩ ::
      (next (world request s).1).turns world (⟨request, (world request s).1⟩ :: past)
        (world request s).2

/-- The first part of an action may be done in one go. -/
theorem Joint.first {ε' α' : Type} {world : World σ} {action : Action ε' α'}
    {f : Ending ε' α' → Action ε α} {s : σ} (h : S.Admits world action s)
    (before after : List (Thread ε α)) (past : List Event) :
    Joint S ⟨before ++ ⟨past, action.andThen f⟩ :: after, s⟩ (action.turns world past s)
      ⟨before ++ ⟨((action.turns world past s).map Turn.event).reverse ++ past,
        f (action.run world s).1⟩ :: after, (action.run world s).2⟩ := by
  induction action generalizing past s with
  | stop e => exact .start
  | ask request next ih =>
    obtain ⟨hanswer, hlaunches, hrest⟩ := h
    have hturns := ih _ hrest (⟨request, (world request s).1⟩ :: past)
    have first : Takes S
      ⟨before ++ ⟨past, .ask request fun answer => (next answer).andThen f⟩ :: after, s⟩ _ _ :=
      .ask hanswer
    rw [hlaunches, List.map_nil, List.append_nil] at first
    rw [Action.turns, List.map_cons, List.reverse_cons, List.append_assoc]
    exact (Joint.start.take first).trans hturns

/-- An action may come to its end in one go. -/
theorem Joint.alone {world : World σ} {action : Action ε α} {s : σ}
    (h : S.Admits world action s) (before after : List (Thread ε α)) (past : List Event) :
    Joint S ⟨before ++ ⟨past, action⟩ :: after, s⟩ (action.turns world past s)
      ⟨before ++ ⟨((action.turns world past s).map Turn.event).reverse ++ past,
        .stop (action.run world s).1⟩ :: after, (action.run world s).2⟩ := by
  have hfirst := Joint.first (f := .stop) h before after past
  rwa [Action.andThen_stop] at hfirst

theorem Turns.alone {world : World σ} {action : Action ε α} {s : σ}
    (h : S.Admits world action s) (before after : List (Thread ε α)) (past : List Event) :
    Turns S ⟨before ++ ⟨past, action⟩ :: after, s⟩ (action.turns world past s)
      ⟨before ++ ⟨((action.turns world past s).map Turn.event).reverse ++ past,
        .stop (action.run world s).1⟩ :: after, (action.run world s).2⟩ :=
  (Joint.alone h before after past).turns

/-! ## Turns in a given order -/

namespace Scene

/-- The turn of the thread at a place, answered by a world, and the scene after it, unless no thread
there asks for anything. -/
def turnAt (world : World σ) (c : Scene σ ε α) (place : Nat) : Option (Turn × Scene σ ε α) :=
  match c.threads[place]? with
  | some ⟨past, .ask request next⟩ =>
    let (answer, s) := world request c.state
    some (⟨past, ⟨request, answer⟩⟩,
      ⟨c.threads.set place ⟨⟨request, answer⟩ :: past, next answer⟩, s⟩)
  | _ => none

/-- The turns of threads in the order of their places, and the scene after them. -/
def play (world : World σ) : List Nat → Scene σ ε α → List Turn × Scene σ ε α
  | [], c => ([], c)
  | place :: places, c =>
    match c.turnAt world place with
    | none => play world places c
    | some (turn, c') => (turn :: (play world places c').1, (play world places c').2)

end Scene

/-- The answers that a world gives to threads in the order of their places are admitted, and none of
them sets anything going. -/
def Setting.AdmitsPlay (S : Setting σ ε α) (world : World σ) :
    List Nat → Scene σ ε α → Prop
  | [], _ => True
  | place :: places, c =>
    match c.turnAt world place with
    | none => S.AdmitsPlay world places c
    | some (turn, c') =>
      S.answers turn.event.request c.state turn.event.answer c'.state ∧
        S.launches turn.event = [] ∧ S.AdmitsPlay world places c'

section

variable {world : World σ} {c c' : Scene σ ε α} {place : Nat} {turn : Turn} {places : List Nat}

/-- What the world answers to a thread. -/
theorem Scene.answer_of_turnAt (h : c.turnAt world place = some (turn, c')) :
    turn.event.answer = (world turn.event.request c.state).1 := by
  unfold turnAt at h
  split at h
  · cases h
    rfl
  · cases h

theorem Scene.takes_of_turnAt (h : c.turnAt world place = some (turn, c'))
    (hanswer : S.answers turn.event.request c.state turn.event.answer c'.state)
    (hlaunches : S.launches turn.event = []) : Takes S c turn c' := by
  obtain ⟨threads, s⟩ := c
  unfold turnAt at h
  split at h
  · next past request next hthread =>
    cases h
    obtain ⟨hlt, hget⟩ := List.getElem?_eq_some_iff.mp hthread
    dsimp only at hlt hget
    have htakes := @Takes.ask _ _ _ S (threads.take place) (threads.drop (place + 1)) past request
      next s _ _ hanswer
    rw [hlaunches, List.map_nil, List.append_nil, ← hget, ← List.drop_eq_getElem_cons hlt,
      List.take_append_drop] at htakes
    dsimp only
    rw [List.set_eq_take_append_cons_drop, if_pos hlt]
    exact htakes
  · cases h

theorem Joint.play (h : S.AdmitsPlay world places c) :
    Joint S c (c.play world places).1 (c.play world places).2 := by
  induction places generalizing c with
  | nil => exact .start
  | cons place places ih =>
    unfold Setting.AdmitsPlay at h
    unfold Scene.play
    split at h
    · exact ih h
    · next hsome =>
      obtain ⟨hanswer, hlaunches, hrest⟩ := h
      exact (Joint.start.take (Scene.takes_of_turnAt hsome hanswer hlaunches)).trans (ih hrest)

/-- The world has given all the answers. -/
theorem Scene.answered_play (hturn : turn ∈ (c.play world places).1) :
    ∃ s, turn.event.answer = (world turn.event.request s).1 := by
  induction places generalizing c with
  | nil => cases hturn
  | cons place places ih =>
    unfold Scene.play at hturn
    split at hturn
    · exact ih hturn
    · next hsome =>
      rcases List.mem_cons.mp hturn with rfl | hturn
      · exact ⟨c.state, Scene.answer_of_turnAt hsome⟩
      · exact ih hturn

end

end Bulletin
