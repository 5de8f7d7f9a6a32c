import Bulletin.Dashboard.View
import Bulletin.Proofs.WidgetParts

/-!
# Refreshing a widget

A refresh asks about one widget only. In a steady world in which no connector breaks down it shows
this widget, or else comes to an error, unless the time of the cache ends beyond the calendar.

* `confined_refreshWidget` — what a refresh asks for
* `refreshWidget_ends` — what it comes to
-/

namespace Bulletin

variable {w : SteadyWorld} {engine : Engine} {id : WidgetId} {widget : Widget}

theorem asksOnly_widgetChart (engine : Engine) (widget : Widget) :
    (engine.widgetChart widget).AsksOnly Request.IsQuery :=
  Action.asksOnly_bind (Action.asksOnly_mapError (asksOnly_execute _ _ _)) fun _ => trivial

/-- Builds the chart of a widget anew, and writes it to the cache. -/
def Engine.rebuild (engine : Engine) (id : WidgetId) (widget : Widget) :
    Action EngineError WidgetView := do
  let chart ← engine.widgetChart widget
  let latest := (← Action.call .storage (.get .widget id)).getD widget
  let now ← Action.request .now
  let latest := { latest with cache := latest.cache.store chart now }
  Action.call .storage (.save .widget latest)
  return .shown latest chart false

/-- A refresh goes by the widget that is stored. -/
theorem run_refreshWidget (w : SteadyWorld) (engine : Engine) (id : WidgetId) (widget : Widget) :
    (engine.refreshWidget id).run w.alone (some widget) =
      match widget.validate with
      | .error e => (.error (.ofDomain e), some widget)
      | .ok _ => match widget.cache.fresh w.now with
        | none => (.crash (.text "the end of an interval lies beyond the calendar"), some widget)
        | some (some chart) => (.value (.shown widget chart true), some widget)
        | some none => (engine.rebuild id widget).run w.alone (some widget) := by
  unfold Engine.refreshWidget
  rw [SteadyWorld.run_get]
  cases hv : widget.validate with
  | error e =>
    simp only [hv]
    rfl
  | ok _ =>
    simp only [hv]
    show (Action.inCalendar (widget.cache.fresh w.now) >>= _).run w.alone (some widget) = _
    rcases widget.cache.fresh w.now with _ | _ | chart
    · rfl
    · rfl
    · rfl

/-- A refresh asks about its widget only. -/
theorem confined_refreshWidget (w : SteadyWorld) (engine : Engine) (hid : widget.id = id) :
    w.Confined id (engine.refreshWidget id) (some widget) := by
  unfold Engine.refreshWidget
  refine SteadyWorld.confined_get.mpr ?_
  cases hv : widget.validate with
  | error e =>
    simp only [hv]
    trivial
  | ok _ =>
    simp only [hv]
    refine SteadyWorld.confined_now.mpr ?_
    rcases widget.cache.fresh w.now with _ | _ | chart
    · trivial
    · refine SteadyWorld.confined_query_bind (asksOnly_widgetChart engine widget) fun chart => ?_
      exact SteadyWorld.confined_get.mpr (SteadyWorld.confined_now.mpr
        (SteadyWorld.confined_save.mpr ⟨hid, trivial⟩))
    · trivial

/-- The connectors of a calm world give rows or errors. -/
theorem widgetChart_ends (hw : w.Calm) (engine : Engine) (widget : Widget) (own : Option Widget) :
    ∀ c, ((engine.widgetChart widget).run w.alone own).1 ≠ .crash c := by
  intro c hcrash
  have hyields := Action.yields_trace w.alone (engine.widgetChart widget) own
  have hasked : ∀ event ∈ (engine.widgetChart widget).trace w.alone own, ¬ event.Crashes := by
    intro event he hevent
    obtain ⟨own', hanswer⟩ := Action.trace_answered _ own event he
    have hquery := (asksOnly_widgetChart engine widget).trace own event he
    obtain ⟨request, answer⟩ := event
    change answer = (w.alone request own').1 at hanswer
    subst hanswer
    cases request with
    | relational connection sql => exact hw (.relational connection sql) hevent
    | dataset set => exact hw (.dataset set) hevent
    | api request => exact hw (.api request) hevent
    | call | now | freshId | putArtifact | notify | launch => exact hquery.elim
  rw [hcrash] at hyields
  obtain ⟨first, second, middle, hevents, hquery, hrest⟩ := Action.yields_andThen.mp hyields
  obtain ⟨first, _, ending, rfl, hquery, hmiddle⟩ := Action.yields_andThen.mp hquery
  cases ending with
  | value rows =>
    cases hmiddle
    cases hrest
  | error e =>
    cases hmiddle
    cases hrest
  | crash c =>
    obtain ⟨event, he, hevent⟩ := (yields_execute_crash hquery).mp ⟨c, rfl⟩
    refine hasked event ?_ hevent
    rw [hevents]
    exact List.mem_append_left _ (List.mem_append_left _ he)

/-- A valid widget whose cache ends beyond the calendar. -/
def Widget.BeyondCalendar (widget : Widget) (now : Instant) : Prop :=
  widget.validate = .ok () ∧ widget.cache.fresh now = none

/-- It cannot be refreshed. -/
theorem refreshWidget_crashes (w : SteadyWorld) (engine : Engine) (id : WidgetId)
    (h : widget.BeyondCalendar w.now) :
    ∃ c, ((engine.refreshWidget id).run w.alone (some widget)).1 = .crash c := by
  rw [run_refreshWidget, h.1]
  simp only [h.2]
  exact ⟨_, rfl⟩

/-- Any other widget is shown, or there is an error. -/
theorem refreshWidget_ends (hw : w.Calm) (engine : Engine) (hid : widget.id = id)
    (h : ¬ widget.BeyondCalendar w.now) :
    (∃ view, ((engine.refreshWidget id).run w.alone (some widget)).1 = .value view ∧
      view.widgetId = id) ∨
      ∃ e, ((engine.refreshWidget id).run w.alone (some widget)).1 = .error e := by
  rw [run_refreshWidget]
  cases hv : widget.validate with
  | error e => exact .inr ⟨_, rfl⟩
  | ok _ =>
    rcases hf : widget.cache.fresh w.now with _ | _ | chart
    · exact absurd ⟨hv, hf⟩ h
    · simp only [Engine.rebuild]
      rw [SteadyWorld.run_query_bind (asksOnly_widgetChart engine widget)]
      cases hchart : ((engine.widgetChart widget).run w.alone (some widget)).1 with
      | value chart => exact .inl ⟨_, rfl, hid⟩
      | error e => exact .inr ⟨e, rfl⟩
      | crash c => exact absurd hchart (widgetChart_ends hw engine widget _ c)
    · exact .inl ⟨_, rfl, hid⟩

end Bulletin
