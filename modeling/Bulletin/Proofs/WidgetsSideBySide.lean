import Bulletin.Proofs.SideBySide
import Bulletin.Proofs.WidgetPlaces
import Bulletin.Proofs.WidgetRefreshes
import Mathlib.Data.List.Forall2

/-!
# Widgets side by side

The places of a dashboard are loaded side by side, over one repository and in a steady world. They
take turns in any way. No two places have one widget, and nobody asks about the widget of another
place, so every place is loaded as if it were the only one.

* `InProgress` — how far an action has come of what it would do alone
* `Loading.takes` — a turn takes one place further, and leaves the others where they are
* `Loading.over` — what all of them have come to
-/

namespace Bulletin

section

variable {ε α : Type} {w : SteadyWorld} {id : WidgetId} {action : Action ε α}
  {r r' r'' : MemoryRepository} {t : Thread ε α}

/-! ## One action among others -/

/-- A repository in memory in a steady world. -/
def SteadyWorld.setting (w : SteadyWorld) : Setting MemoryRepository ε α where
  answers request r answer r' := MemoryRepository.world w.outside request (r, ()) = (answer, r', ())
  launches _ := []
  forks _ := []

/-- An action that began over one repository goes on over another one, and will do and come to what
it would have done and come to without the others. -/
structure InProgress (w : SteadyWorld) (id : WidgetId) (action : Action ε α)
    (r r' : MemoryRepository) (t : Thread ε α) : Prop where
  confined : w.Confined id t.rest (r'.widgets.get? id)
  asked : t.past.reverse ++ t.rest.trace w.alone (r'.widgets.get? id)
    = action.trace w.alone (r.widgets.get? id)
  ends : t.rest.run w.alone (r'.widgets.get? id) = action.run w.alone (r.widgets.get? id)

/-- An action that has come to its end. -/
def Visit.thread (visit : Visit ε α) : Thread ε α := ⟨visit.events.reverse, .stop visit.ending⟩

namespace InProgress

theorem begin (h : w.Confined id action (r.widgets.get? id)) :
    InProgress w id action r r (.begin action) :=
  ⟨h, rfl, rfl⟩

/-- What others do elsewhere does not matter. -/
theorem elsewhere (h : InProgress w id action r r' t)
    (hsame : r''.widgets.get? id = r'.widgets.get? id) : InProgress w id action r r'' t := by
  obtain ⟨hconfined, hasked, hends⟩ := h
  rw [← hsame] at hconfined hasked hends
  exact ⟨hconfined, hasked, hends⟩

/-- The action takes a turn. -/
theorem ask {past : List Event} {request : Request} {next : request.Answer → Action ε α}
    {answer : request.Answer} (h : InProgress w id action r r' ⟨past, .ask request next⟩)
    (hanswer : MemoryRepository.world w.outside request (r', ()) = (answer, r'', ())) :
    InProgress w id action r r'' ⟨⟨request, answer⟩ :: past, next answer⟩ := by
  obtain ⟨⟨hregards, hconfined⟩, hasked, hends⟩ := h
  obtain ⟨hsame, hown⟩ := MemoryRepository.world_alone (w := w) (r := r') hregards
  rw [hanswer] at hsame hown
  change answer = _ at hsame
  change r''.widgets.get? id = _ at hown
  subst hsame
  rw [← hown] at hconfined
  refine ⟨hconfined, ?_, ?_⟩
  · rw [hown, List.reverse_cons, List.append_assoc]
    exact hasked
  · rw [hown]
    exact hends

/-- Who has come to an end has done and come to what a visit would have. -/
theorem stop {past : List Event} {ending : Ending ε α}
    (h : InProgress w id action r r' ⟨past, .stop ending⟩)
    (hconfined : w.Confined id action (r.widgets.get? id)) :
    (⟨past, .stop ending⟩ : Thread ε α) = (action.visit w.outside r ()).thread ∧
      r'.widgets.get? id = (action.visit w.outside r ()).after.widgets.get? id := by
  obtain ⟨hending, hevents, hafter, -⟩ := hconfined.visit
  obtain ⟨-, hasked, hends⟩ := h
  have hpast : past.reverse = action.trace w.alone (r.widgets.get? id) := by
    rw [← hasked]
    exact (List.append_nil _).symm
  have hrun : (ending, r'.widgets.get? id) = action.run w.alone (r.widgets.get? id) := hends
  unfold Visit.thread
  rw [hending, hevents, hafter, ← hrun, ← hpast, List.reverse_reverse]
  exact ⟨rfl, rfl⟩

end InProgress

/-- A scene in which everybody has come to an end. -/
def Scene.Over {σ : Type} (c : Scene σ ε α) : Prop := ∀ t ∈ c.threads, ∃ e, t.rest = .stop e

/-- A steady world answers everybody. -/
theorem SteadyWorld.admits (w : SteadyWorld) {ε' α' : Type} (action : Action ε' α')
    (r : MemoryRepository) :
    (@SteadyWorld.setting ε α w).Admits (fun request r =>
      ((MemoryRepository.world w.outside request (r, ())).1,
        (MemoryRepository.world w.outside request (r, ())).2.1)) action r := by
  induction action generalizing r with
  | stop e => trivial
  | ask request next ih => exact ⟨rfl, rfl, ih _ _⟩

/-- Whoever is under way may come to an end, one after the other. -/
theorem SteadyWorld.exists_over (w : SteadyWorld) (c : Scene MemoryRepository ε α) :
    ∃ turns c', Joint w.setting c turns c' ∧ c'.Over := by
  obtain ⟨threads, r⟩ := c
  suffices h : ∀ before : List (Thread ε α), (∀ t ∈ before, ∃ e, t.rest = .stop e) →
      ∃ turns c', Joint w.setting ⟨before ++ threads, r⟩ turns c' ∧ c'.Over from
    h [] (by rintro _ ⟨⟩)
  induction threads generalizing r with
  | nil =>
    intro before hbefore
    rw [List.append_nil]
    exact ⟨[], _, .start, hbefore⟩
  | cons t rest ih =>
    intro before hbefore
    obtain ⟨past, action⟩ := t
    have hfirst := Joint.alone (w.admits action r) before rest past
    obtain ⟨turns, c', hrest, hover⟩ := ih _ (before ++ [⟨_, .stop _⟩]) fun t ht => by
      rcases List.mem_append.mp ht with ht | ht
      · exact hbefore t ht
      · rw [List.mem_singleton.mp ht]
        exact ⟨_, rfl⟩
    rw [List.append_assoc] at hrest
    exact ⟨_, c', hfirst.trans hrest, hover⟩

end

/-! ## The places of a dashboard -/

/-- The identifiers of the places that have a widget. -/
def takenIds (slots : List (WidgetId × Option Widget)) : List WidgetId :=
  slots.filterMap fun slot => slot.2.map fun _ => slot.1

theorem mem_takenIds {slots : List (WidgetId × Option Widget)} {id : WidgetId} :
    id ∈ takenIds slots ↔ ∃ widget, (id, some widget) ∈ slots := by
  unfold takenIds
  rw [List.mem_filterMap]
  constructor
  · rintro ⟨⟨_, _ | widget⟩, hmem, hid⟩
    · cases hid
    · cases hid
      exact ⟨widget, hmem⟩
  · rintro ⟨widget, hmem⟩
    exact ⟨_, hmem, rfl⟩

/-- The widgets of some places are stored, and every place has its own. -/
structure Fits (slots : List (WidgetId × Option Widget)) (r : MemoryRepository) : Prop where
  apart : slots.Pairwise fun a b => b.2 ≠ none → a.1 ≠ b.1
  stored : ∀ id widget, (id, some widget) ∈ slots → r.widgets.get? id = some widget

variable {w : SteadyWorld} {engine : Engine} {slots : List (WidgetId × Option Widget)}
  {r r' : MemoryRepository} {id : WidgetId} {widget : Widget}

/-- What stands in the place of a widget whose refresh has come to an end. -/
def Widget.placed (widget : Widget) : Ending EngineError WidgetView → Ending EngineError WidgetView
  | .value view => .value view
  | .error e => .value (.failed widget.id widget.title widget.position e)
  | .crash c => .crash c

theorem loadSlot_taken (engine : Engine) (widget : Widget) :
    engine.loadSlot (widget.id, some widget)
      = (engine.refreshWidget widget.id).andThen fun ending => .stop (widget.placed ending) := by
  refine (Action.andThen_andThen _ _ _).trans
    (congrArg (engine.refreshWidget widget.id).andThen (funext fun ending => ?_))
  cases ending <;> rfl

/-- The place of a widget is loaded by a refresh. -/
theorem visit_loadSlot {σ : Type} (engine : Engine) (widget : Widget) (outside : World σ)
    (r : MemoryRepository) (s : σ) :
    (engine.loadSlot (widget.id, some widget)).visit outside r s =
      { (engine.refreshWidget widget.id).visit outside r s with
        ending := widget.placed ((engine.refreshWidget widget.id).visit outside r s).ending } := by
  unfold Action.visit
  rw [loadSlot_taken, Action.run_andThen, Action.trace_andThen]
  simp only [Action.run, Action.trace, List.append_nil]

theorem confined_loadSlot (w : SteadyWorld) (engine : Engine) (widget : Widget) :
    w.Confined widget.id (engine.loadSlot (widget.id, some widget)) (some widget) := by
  rw [loadSlot_taken]
  exact SteadyWorld.confined_andThen.mpr ⟨confined_refreshWidget w engine rfl, trivial⟩

theorem Fits.confined (h : Fits slots r) (w : SteadyWorld) (engine : Engine)
    (hmem : (id, some widget) ∈ slots) :
    w.Confined id (engine.loadSlot (id, some widget)) (r.widgets.get? id) := by
  have hstored := h.stored id widget hmem
  obtain rfl : widget.id = id := (Table.get?_eq_some_iff.mp hstored).2
  rw [hstored]
  exact confined_loadSlot w engine widget

/-- How far a place has come. A place without a widget has nothing to do. -/
inductive Place (w : SteadyWorld) (engine : Engine) (r r' : MemoryRepository) :
    WidgetId × Option Widget → Thread EngineError WidgetView → Prop
  | vacant {id : WidgetId} :
    Place w engine r r' (id, none) (.begin (engine.loadSlot (id, none)))
  | taken {id : WidgetId} {widget : Widget} {t : Thread EngineError WidgetView}
    (h : InProgress w id (engine.loadSlot (id, some widget)) r r' t) :
    Place w engine r r' (id, some widget) t

/-- How far all places have come. -/
structure Loading (w : SteadyWorld) (engine : Engine) (slots : List (WidgetId × Option Widget))
    (r : MemoryRepository) (c : Scene MemoryRepository EngineError WidgetView) : Prop where
  places : List.Forall₂ (Place w engine r c.state) slots c.threads
  written : r.WidgetsWritten (takenIds slots) c.state

theorem loading_begin (h : Fits slots r) :
    Loading w engine slots r (.begin (slots.map engine.loadSlot) r) := by
  refine ⟨?_, .refl _ r⟩
  show List.Forall₂ _ slots ((slots.map engine.loadSlot).map Thread.begin)
  rw [List.map_map, List.forall₂_map_right_iff, List.forall₂_same]
  rintro ⟨id, _ | widget⟩ hmem
  · exact .vacant
  · exact .taken (.begin (h.confined w engine hmem))

/-- What is done elsewhere does not matter to a place. -/
theorem Place.elsewhere {q q' : MemoryRepository} {slot : WidgetId × Option Widget}
    {t : Thread EngineError WidgetView} (h : Place w engine r q slot t)
    (hsame : slot.2 ≠ none → q'.widgets.get? slot.1 = q.widgets.get? slot.1) :
    Place w engine r q' slot t := by
  cases h with
  | vacant => exact .vacant
  | taken h => exact .taken (h.elsewhere (hsame nofun))

/-- A widget that is written does not matter to places that do not have it. -/
theorem places_elsewhere {q q' : MemoryRepository} {threads : List (Thread EngineError WidgetView)}
    (h : List.Forall₂ (Place w engine r q) slots threads) (hwrites : q.WidgetsWritten [id] q')
    (hne : ∀ slot ∈ slots, slot.2 ≠ none → slot.1 ≠ id) :
    List.Forall₂ (Place w engine r q') slots threads :=
  ((List.forall₂_and_left _ _).mpr ⟨hne, h⟩).imp fun _ _ h =>
    h.2.elsewhere fun htaken => hwrites.others _ (by simpa using h.1 htaken)

/-- A turn takes one place further, and leaves the others where they are. -/
theorem Loading.takes {c c' : Scene MemoryRepository EngineError WidgetView} {turn : Turn}
    (hfits : Fits slots r) (h : Loading w engine slots r c) (ht : Takes w.setting c turn c') :
    Loading w engine slots r c' := by
  obtain ⟨hplaces, hwritten⟩ := h
  cases ht with
  | @ask before after past request next s s' answer hanswer =>
    obtain ⟨slot, rest, hplace, hrest, hslots⟩ :=
      List.forall₂_cons_right_iff.mp (List.forall₂_drop_append _ _ _ hplaces)
    have hfirst := List.forall₂_take_append _ _ _ hplaces
    have hsplit : slots = slots.take before.length ++ slot :: rest := by
      rw [← hslots, List.take_append_drop]
    generalize slots.take before.length = first at hfirst hsplit
    subst hsplit
    generalize hthread : (⟨past, .ask request next⟩ : Thread EngineError WidgetView) = t at hplace
    cases hplace with
    | vacant => exact absurd (congrArg Thread.rest hthread) nofun
    | @taken id widget _ hplace =>
      subst hthread
      obtain ⟨-, hlater, hearlier⟩ := List.pairwise_append.mp hfits.apart
      have hmem : (id, some widget) ∈ first ++ (id, some widget) :: rest := by simp
      have hpresent : s.widgets.get? id ≠ none := by
        rw [hwritten.ne_none_iff, hfits.stored id widget hmem]
        nofun
      have hwrites := MemoryRepository.world_writes (w := w) hplace.confined.1 hpresent
      rw [hanswer] at hwrites
      -- nobody else has this widget
      have hfirst' := places_elsewhere hfirst hwrites fun slot hslot _ =>
        hearlier slot hslot _ List.mem_cons_self nofun
      have hrest' := places_elsewhere hrest hwrites fun slot hslot htaken =>
        ((List.pairwise_cons.mp hlater).1 slot hslot htaken).symm
      refine ⟨?_, hwritten.trans (hwrites.mono ?_)⟩
      · show List.Forall₂ _ _ (before ++ _ :: (after ++ []))
        rw [List.append_nil]
        exact List.rel_append hfirst' (.cons (.taken (hplace.ask hanswer)) hrest')
      · intro other hother
        rw [List.mem_singleton.mp hother]
        exact mem_takenIds.mpr ⟨widget, hmem⟩

theorem Loading.joint {c c' : Scene MemoryRepository EngineError WidgetView} {turns : List Turn}
    (hfits : Fits slots r) (h : Loading w engine slots r c) (hturns : Joint w.setting c turns c') :
    Loading w engine slots r c' := by
  induction hturns with
  | start => exact h
  | take _ ht ih => exact ih.takes hfits ht

/-- When all have come to their ends, each has come to what it would have come to alone. -/
theorem Loading.over {c : Scene MemoryRepository EngineError WidgetView} (hfits : Fits slots r)
    (h : Loading w engine slots r c) (hover : c.Over) :
    c.threads = slots.map (fun slot => ((engine.loadSlot slot).visit w.outside r ()).thread) ∧
      ∀ id widget, (id, some widget) ∈ slots → c.state.widgets.get? id
        = ((engine.loadSlot (id, some widget)).visit w.outside r ()).after.widgets.get? id := by
  have hends : List.Forall₂ (fun slot t =>
      (slot.2 ≠ none → c.state.widgets.get? slot.1
          = ((engine.loadSlot slot).visit w.outside r ()).after.widgets.get? slot.1) ∧
        ((engine.loadSlot slot).visit w.outside r ()).thread = t) slots c.threads := by
    obtain ⟨hlength, hplaces⟩ := List.forall₂_iff_zip.mp h.places
    refine List.forall₂_iff_zip.mpr ⟨hlength, fun {slot t} hzip => ?_⟩
    obtain ⟨hslot, ht⟩ := List.of_mem_zip hzip
    obtain ⟨ending, hstop⟩ := hover t ht
    cases hplaces hzip with
    | vacant => exact ⟨fun h => absurd rfl h, rfl⟩
    | @taken id widget t hplace =>
      obtain ⟨past, rest⟩ := t
      obtain rfl : rest = .stop ending := hstop
      obtain ⟨hthread, hown⟩ := hplace.stop (hfits.confined w engine hslot)
      exact ⟨fun _ => hown, hthread.symm⟩
  obtain ⟨howns, hthreads⟩ := (List.forall₂_and_left _ _).mp hends
  refine ⟨?_, fun id widget hmem => howns _ hmem nofun⟩
  rw [← List.forall₂_map_left_iff, List.forall₂_eq_eq_eq] at hthreads
  exact hthreads.symm

end Bulletin
