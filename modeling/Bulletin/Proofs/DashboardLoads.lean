import Bulletin.Proofs.TriggerOutcomes
import Bulletin.Proofs.WidgetsSideBySide

/-!
# Loading dashboards

A dashboard is loaded in a steady world in which no connector breaks down. Every place shows what it
would show if nothing else were loaded, so it does not matter whether the places are loaded in their
order or side by side. Only a widget whose cache ends beyond the calendar keeps its dashboard from
being loaded.

* `loadSlots_run` — the places in their order
* `dashboard_load` — a dashboard
-/

namespace Bulletin

variable {w : SteadyWorld} {engine : Engine} {slots : List (WidgetId × Option Widget)}
  {slot : WidgetId × Option Widget} {r r' : MemoryRepository}

/-! ## One place after the other -/

theorem Fits.tail {rest : List (WidgetId × Option Widget)} (h : Fits (slot :: rest) r) :
    Fits rest r :=
  ⟨(List.pairwise_cons.mp h.apart).2,
    fun id widget hmem => h.stored id widget (List.mem_cons_of_mem _ hmem)⟩

/-- A place shows the same wherever its widget is the same. -/
theorem Fits.visit_congr (h : Fits slots r) (hmem : slot ∈ slots)
    (hsame : slot.2 ≠ none → r'.widgets.get? slot.1 = r.widgets.get? slot.1) :
    ((engine.loadSlot slot).visit w.outside r' ()).ending
        = ((engine.loadSlot slot).visit w.outside r ()).ending ∧
      (slot.2 ≠ none → ((engine.loadSlot slot).visit w.outside r' ()).after.widgets.get? slot.1
        = ((engine.loadSlot slot).visit w.outside r ()).after.widgets.get? slot.1) := by
  obtain ⟨id, _ | widget⟩ := slot
  · exact ⟨rfl, fun htaken => absurd rfl htaken⟩
  · obtain ⟨hending, hafter⟩ := (h.confined w engine hmem).visit_congr (hsame nofun)
    exact ⟨hending, fun _ => hafter⟩

/-- A place that is loaded leaves the widgets of the others alone. -/
theorem Fits.visit_writes (h : Fits slots r) (w : SteadyWorld) (engine : Engine)
    (hmem : slot ∈ slots) :
    r.WidgetsWritten (takenIds [slot]) ((engine.loadSlot slot).visit w.outside r ()).after := by
  obtain ⟨id, _ | widget⟩ := slot
  · exact .refl _ r
  · obtain ⟨-, -, -, hwritten⟩ := (h.confined w engine hmem).visit
    exact hwritten (by
      rw [h.stored id widget hmem]
      nofun)

/-- What is left of a dashboard when the first place has been loaded. -/
theorem Fits.next {rest : List (WidgetId × Option Widget)} (h : Fits (slot :: rest) r)
    (hwritten : r.WidgetsWritten (takenIds [slot]) r') :
    Fits rest r' ∧ ∀ other ∈ rest, other.2 ≠ none →
      r'.widgets.get? other.1 = r.widgets.get? other.1 := by
  have hsame : ∀ other ∈ rest, other.2 ≠ none →
      r'.widgets.get? other.1 = r.widgets.get? other.1 := by
    intro other hother htaken
    refine hwritten.others _ fun hid => ?_
    obtain ⟨widget, hwidget⟩ := mem_takenIds.mp hid
    obtain ⟨rfl⟩ := List.mem_singleton.mp hwidget
    exact (List.pairwise_cons.mp h.apart).1 other hother htaken rfl
  refine ⟨⟨h.tail.apart, fun id widget hmem => ?_⟩, hsame⟩
  rw [hsame _ hmem nofun]
  exact h.tail.stored id widget hmem

/-- The first place, and then the others. -/
theorem run_loadSlots_cons {view : WidgetView} (rest : List (WidgetId × Option Widget))
    (h : ((engine.loadSlot slot).visit w.outside r ()).ending = .value view) :
    (engine.loadSlots (slot :: rest)).run (MemoryRepository.world w.outside) (r, ()) =
      match (engine.loadSlots rest).run (MemoryRepository.world w.outside)
        (((engine.loadSlot slot).visit w.outside r ()).after, ()) with
      | (.value views, s) => (.value (view :: views), s)
      | (.error e, s) => (.error e, s)
      | (.crash c, s) => (.crash c, s) := by
  have hfirst : (engine.loadSlot slot).run (MemoryRepository.world w.outside) (r, ())
      = (.value view, ((engine.loadSlot slot).visit w.outside r ()).after, ()) :=
    Prod.ext h rfl
  rw [Engine.loadSlots, Action.run_bind, hfirst]
  refine (Action.run_bind _ (engine.loadSlots rest) _ _).trans ?_
  rcases (engine.loadSlots rest).run _ _ with ⟨_ | _ | _, _⟩ <;> rfl

/-- The places show what each of them would show alone, and their widgets are left as each would be
left alone. -/
theorem loadSlots_run (hfits : Fits slots r) {views : List WidgetView}
    (hviews : List.Forall₂ (fun slot view =>
      ((engine.loadSlot slot).visit w.outside r ()).ending = .value view) slots views) :
    ∃ r', (engine.loadSlots slots).run (MemoryRepository.world w.outside) (r, ())
        = (.value views, r', ()) ∧
      r.WidgetsWritten (takenIds slots) r' ∧
      ∀ slot ∈ slots, slot.2 ≠ none → r'.widgets.get? slot.1
        = ((engine.loadSlot slot).visit w.outside r ()).after.widgets.get? slot.1 := by
  induction slots generalizing r views with
  | nil =>
    cases hviews
    exact ⟨r, rfl, .refl _ r, by rintro _ ⟨⟩⟩
  | cons slot rest ih =>
    obtain ⟨view, others, hview, hothers, rfl⟩ := List.forall₂_cons_left_iff.mp hviews
    have hwritten := hfits.visit_writes w engine List.mem_cons_self
    obtain ⟨hfits', hsame⟩ := hfits.next hwritten
    have hothers' := ((List.forall₂_and_left _ _).mpr ⟨fun _ hmem => hmem, hothers⟩).imp
      fun other view h => (hfits.tail.visit_congr h.1 (hsame other h.1)).1.trans h.2
    obtain ⟨r', hrun, hwritten', howns⟩ := ih hfits' hothers'
    refine ⟨r', ?_, (hwritten.mono ?_).trans (hwritten'.mono ?_), fun other hmem htaken => ?_⟩
    · rw [run_loadSlots_cons rest hview, hrun]
    · exact (List.Sublist.filterMap _ (by simp)).subset
    · exact (List.Sublist.filterMap _ (by simp)).subset
    · rcases List.mem_cons.mp hmem with rfl | hmem
      · refine hwritten'.others _ fun hid => ?_
        obtain ⟨widget, hwidget⟩ := mem_takenIds.mp hid
        exact (List.pairwise_cons.mp hfits.apart).1 _ hwidget nofun rfl
      · rw [howns other hmem htaken]
        exact (hfits.tail.visit_congr hmem (hsame other hmem)).2 htaken

/-- One place that breaks down is enough. -/
theorem loadSlots_crashes (hfits : Fits slots r)
    (hends : ∀ slot ∈ slots, (∃ view, ((engine.loadSlot slot).visit w.outside r ()).ending
      = .value view) ∨ ∃ c, ((engine.loadSlot slot).visit w.outside r ()).ending = .crash c)
    (hcrash : ∃ slot ∈ slots, ∃ c, ((engine.loadSlot slot).visit w.outside r ()).ending
      = .crash c) :
    ∃ c, ((engine.loadSlots slots).visit w.outside r ()).ending = .crash c := by
  induction slots generalizing r with
  | nil =>
    obtain ⟨_, ⟨⟩, -⟩ := hcrash
  | cons slot rest ih =>
    have hwritten := hfits.visit_writes w engine List.mem_cons_self
    obtain ⟨hfits', hsame⟩ := hfits.next hwritten
    have hkept : ∀ other ∈ rest, ((engine.loadSlot other).visit w.outside
        ((engine.loadSlot slot).visit w.outside r ()).after ()).ending
          = ((engine.loadSlot other).visit w.outside r ()).ending := fun other hmem =>
      (hfits.tail.visit_congr hmem (hsame other hmem)).1
    obtain ⟨hfirst, hrest⟩ := List.forall_mem_cons.mp hends
    obtain ⟨view, hview⟩ | ⟨c, hc⟩ := hfirst
    · obtain ⟨c, hc⟩ := ih hfits' (fun other hmem => by
        rw [hkept other hmem]
        exact hrest other hmem) (by
        obtain ⟨other, hmem, c, hc⟩ := hcrash
        rcases List.mem_cons.mp hmem with rfl | hmem
        · rw [hview] at hc
          cases hc
        · exact ⟨other, hmem, c, (hkept other hmem).trans hc⟩)
      have hrest : (engine.loadSlots rest).run (MemoryRepository.world w.outside)
          (((engine.loadSlot slot).visit w.outside r ()).after, ()) = (.crash c, _, ()) :=
        Prod.ext hc rfl
      refine ⟨c, ?_⟩
      show ((engine.loadSlots (slot :: rest)).run (MemoryRepository.world w.outside) (r, ())).1 = _
      rw [run_loadSlots_cons rest hview, hrest]
    · have hfirst : (engine.loadSlot slot).run (MemoryRepository.world w.outside) (r, ())
          = (.crash c, _, ()) := Prod.ext hc rfl
      refine ⟨c, ?_⟩
      show ((engine.loadSlots (slot :: rest)).run (MemoryRepository.world w.outside) (r, ())).1 = _
      rw [Engine.loadSlots, Action.run_bind, hfirst]

/-! ## The endings of places -/

/-- A place with a widget shows it or an error, unless the cache ends beyond the calendar. -/
theorem Fits.taken_ends (hw : w.Calm) (engine : Engine) {id : WidgetId} {widget : Widget}
    (hfits : Fits slots r) (hmem : (id, some widget) ∈ slots) :
    (widget.BeyondCalendar w.now → ∃ c,
        ((engine.loadSlot (id, some widget)).visit w.outside r ()).ending = .crash c) ∧
      (¬ widget.BeyondCalendar w.now → ∃ view, view.widgetId = id ∧
        ((engine.loadSlot (id, some widget)).visit w.outside r ()).ending = .value view) := by
  have hstored := hfits.stored id widget hmem
  obtain rfl : widget.id = id := (Table.get?_eq_some_iff.mp hstored).2
  have hconfined := confined_refreshWidget w engine (rfl : widget.id = widget.id)
  rw [← hstored] at hconfined
  obtain ⟨hending, -⟩ := hconfined.visit
  rw [hstored] at hending
  rw [visit_loadSlot, hending]
  constructor
  · intro hbeyond
    obtain ⟨c, hc⟩ := refreshWidget_crashes w engine widget.id hbeyond
    rw [hc]
    exact ⟨c, rfl⟩
  · intro hbeyond
    obtain ⟨view, hview, hid⟩ | ⟨e, he⟩ := refreshWidget_ends hw engine rfl hbeyond
    · rw [hview]
      exact ⟨view, hid, rfl⟩
    · rw [he]
      exact ⟨_, rfl, rfl⟩

/-- Every place shows something or breaks down. -/
theorem Fits.ends (hw : w.Calm) (engine : Engine) (hfits : Fits slots r) : ∀ slot ∈ slots,
    (∃ view, ((engine.loadSlot slot).visit w.outside r ()).ending = .value view) ∨
      ∃ c, ((engine.loadSlot slot).visit w.outside r ()).ending = .crash c := by
  rintro ⟨id, _ | widget⟩ hmem
  · exact .inl ⟨_, rfl⟩
  · by_cases hbeyond : widget.BeyondCalendar w.now
    · exact .inr ((hfits.taken_ends hw engine hmem).1 hbeyond)
    · obtain ⟨view, -, hview⟩ := (hfits.taken_ends hw engine hmem).2 hbeyond
      exact .inl ⟨view, hview⟩

/-- The views of all places. -/
theorem exists_views (hw : w.Calm) (engine : Engine) (hfits : Fits slots r)
    (hwithin : ∀ id widget, (id, some widget) ∈ slots → ¬ widget.BeyondCalendar w.now) :
    ∃ views, List.Forall₂ (fun slot view => view.widgetId = slot.1 ∧
      ((engine.loadSlot slot).visit w.outside r ()).ending = .value view) slots views := by
  have hview : ∀ slot ∈ slots, ∃ view : WidgetView, view.widgetId = slot.1 ∧
      ((engine.loadSlot slot).visit w.outside r ()).ending = .value view := by
    rintro ⟨id, _ | widget⟩ hmem
    · exact ⟨_, rfl, rfl⟩
    · exact (hfits.taken_ends hw engine hmem).2 (hwithin id widget hmem)
  clear hfits hwithin
  induction slots with
  | nil => exact ⟨[], .nil⟩
  | cons slot rest ih =>
    obtain ⟨hfirst, hrest⟩ := List.forall_mem_cons.mp hview
    obtain ⟨view, hview⟩ := hfirst
    obtain ⟨views, hviews⟩ := ih hrest
    exact ⟨view :: views, .cons hview hviews⟩

/-- What a dashboard shows. The first place with the identifier of a widget shows what a refresh of
the widget alone would come to. -/
structure Dashboard.Shows (dashboard : Dashboard) (engine : Engine) (w : SteadyWorld)
    (r : MemoryRepository) (widgets : List Widget) (views : List WidgetView) : Prop where
  ids : views.map WidgetView.widgetId = dashboard.widgetIds
    ++ (widgets.filter fun widget => widget.id ∉ dashboard.widgetIds).map Widget.id
  taken : ∀ before view after, views = before ++ view :: after →
    ∀ widget ∈ widgets, widget.id = view.widgetId →
      widget.id ∉ before.map WidgetView.widgetId →
      widget.placed ((engine.refreshWidget widget.id).visit w.outside r ()).ending = .value view
  vacant : ∀ before view after, views = before ++ view :: after →
    (view.widgetId ∈ before.map WidgetView.widgetId ∨
      ∀ widget ∈ widgets, widget.id ≠ view.widgetId) →
    view = .failed view.widgetId "" .zero (.notFound "widget" view.widgetId.display)

/-- The view of a place has the identifier of the place. -/
theorem ids_of_slots {P : WidgetId × Option Widget → WidgetView → Prop} {views : List WidgetView}
    (h : List.Forall₂ (fun slot view => view.widgetId = slot.1 ∧ P slot view) slots views) :
    views.map WidgetView.widgetId = slots.map Prod.fst := by
  have hids : List.Forall₂ (· = ·) (slots.map Prod.fst) (views.map WidgetView.widgetId) :=
    List.forall₂_map_left_iff.mpr (List.forall₂_map_right_iff.mpr (h.imp fun _ _ h => h.1.symm))
  rw [List.forall₂_eq_eq_eq] at hids
  exact hids.symm

/-- A place has taken the widget with its identifier, unless a place before it has done so or there
is none. -/
theorem place_of_split {P : WidgetId × Option Widget → WidgetView → Prop} {ids : List WidgetId}
    {widgets : List Widget} {views before after : List WidgetView} {view : WidgetView}
    (hdistinct : (widgets.map Widget.id).Nodup)
    (hviews : List.Forall₂ (fun slot view => view.widgetId = slot.1 ∧ P slot view)
      (widgetSlots ids widgets) views)
    (hsplit : views = before ++ view :: after) :
    (∃ widget ∈ widgets, widget.id = view.widgetId ∧
      widget.id ∉ before.map WidgetView.widgetId ∧ P (view.widgetId, some widget) view) ∨
    ((view.widgetId ∈ before.map WidgetView.widgetId ∨
      ∀ widget ∈ widgets, widget.id ≠ view.widgetId) ∧ P (view.widgetId, none) view) := by
  subst hsplit
  obtain ⟨⟨id, taken⟩, rest, ⟨hid, hplace⟩, -, hrest⟩ :=
    List.forall₂_cons_right_iff.mp (List.forall₂_drop_append _ _ _ hviews)
  have hbefore := ids_of_slots (List.forall₂_take_append _ _ _ hviews)
  have hslots : widgetSlots ids widgets
      = (widgetSlots ids widgets).take before.length ++ (id, taken) :: rest := by
    rw [← hrest, List.take_append_drop]
  obtain rfl : view.widgetId = id := hid
  rw [hbefore]
  cases taken with
  | none => exact .inr ⟨vacant_of_widgetSlots hdistinct hslots, hplace⟩
  | some widget =>
    have hmem : (view.widgetId, some widget) ∈ widgetSlots ids widgets := by
      rw [hslots]
      exact List.mem_append_right _ List.mem_cons_self
    obtain ⟨hwidget, hid⟩ := mem_widgetSlots hmem
    refine .inl ⟨widget, hwidget, hid, fun hold => ?_, hplace⟩
    obtain ⟨slot, hslot, hsame⟩ := List.mem_map.mp hold
    have hfirst := pairwise_widgetSlots hdistinct ids
    rw [hslots] at hfirst
    exact (List.pairwise_append.mp hfirst).2.2 slot hslot _ List.mem_cons_self nofun
      (hsame.trans hid)

/-- Every place stops with its view. -/
theorem stops_of_slots {views : List WidgetView}
    (h : List.Forall₂ (fun slot view => view.widgetId = slot.1 ∧
      ((engine.loadSlot slot).visit w.outside r ()).ending = .value view) slots views) :
    slots.map (fun slot => ((engine.loadSlot slot).visit w.outside r ()).thread.rest)
      = views.map fun view => .stop (.value view) := by
  have hstops : List.Forall₂ (· = ·)
      (slots.map fun slot => ((engine.loadSlot slot).visit w.outside r ()).thread.rest)
      (views.map fun view => .stop (.value view)) :=
    List.forall₂_map_left_iff.mpr (List.forall₂_map_right_iff.mpr
      (h.imp fun _ _ h => congrArg Action.stop h.2))
  rw [List.forall₂_eq_eq_eq] at hstops
  exact hstops

/-- The places of a dashboard show what it shows. -/
theorem shows_of_slots {dashboard : Dashboard} {widgets : List Widget} {views : List WidgetView}
    (hdistinct : (widgets.map Widget.id).Nodup)
    (hviews : List.Forall₂ (fun slot view => view.widgetId = slot.1 ∧
      ((engine.loadSlot slot).visit w.outside r ()).ending = .value view)
      (widgetSlots dashboard.widgetIds widgets) views) :
    dashboard.Shows engine w r widgets views := by
  refine ⟨(ids_of_slots hviews).trans (map_fst_widgetSlots hdistinct), ?_, ?_⟩
  · intro before view after hsplit widget hmem hid hnew
    obtain ⟨other, hother, hsame, -, hending⟩ | ⟨hold | hstrange, -⟩ :=
      place_of_split hdistinct hviews hsplit
    · obtain rfl : widget = other :=
        List.inj_on_of_nodup_map hdistinct hmem hother (hid.trans hsame.symm)
      rw [← hid, visit_loadSlot] at hending
      exact hending
    · exact absurd (hid ▸ hold) hnew
    · exact absurd hid (hstrange widget hmem)
  · intro before view after hsplit hvacant
    obtain ⟨other, hother, hsame, hnew, -⟩ | ⟨-, hending⟩ :=
      place_of_split hdistinct hviews hsplit
    · rcases hvacant with hold | hstrange
      · exact absurd (hsame ▸ hold) hnew
      · exact absurd hsame (hstrange other hother)
    · exact (Ending.value.inj hending).symm

/-- The places of a dashboard have its widgets as they are stored. -/
theorem fits_widgetSlots (r : MemoryRepository) (dashboard : Dashboard) (id : DashboardId) :
    Fits (widgetSlots dashboard.widgetIds (r.widgets.list id)) r := by
  refine ⟨pairwise_widgetSlots (nodup_list_widgets _ _) _, fun slot widget hmem => ?_⟩
  obtain ⟨hlisted, hid⟩ := mem_widgetSlots hmem
  exact Table.get?_eq_some_iff.mpr ⟨(EntityKind.mem_listing.mp hlisted).1, hid⟩

/-- A dashboard that is found shows its places. -/
theorem run_loadDashboard (w : SteadyWorld) (engine : Engine) {id : DashboardId}
    {dashboard : Dashboard}
    (hstored : r.dashboards.get? id = some dashboard) :
    (engine.loadDashboard id).run (MemoryRepository.world w.outside) (r, ()) =
      match (engine.loadSlots (widgetSlots dashboard.widgetIds (r.widgets.list id))).run
        (MemoryRepository.world w.outside) (r, ()) with
      | (.value views, s) => (.value ⟨dashboard.id, dashboard.name, views, w.now⟩, s)
      | (.error e, s) => (.error e, s)
      | (.crash c, s) => (.crash c, s) := by
  unfold Engine.loadDashboard
  have hget : r.answer (.get .dashboard id) = (.ok (some dashboard), r) :=
    Prod.ext (congrArg Except.ok hstored) rfl
  have hlist : r.answer (.list .widget id) = (.ok (r.widgets.list id), r) := rfl
  rw [MemoryRepository.run_call hget, MemoryRepository.run_call hlist]
  refine (Action.run_bind _ (engine.loadSlots _) _ _).trans ?_
  rcases (engine.loadSlots _).run _ _ with ⟨_ | _ | _, _⟩ <;> rfl

/-- **Loading a dashboard.** In a steady world without breakdowns a stored dashboard is loaded, if
the cache of none of its valid widgets ends beyond the calendar; if there is such a widget, the load
breaks down. A dashboard that is loaded shows its places:

* they have the identifiers of the list, followed by those of its other widgets, which stand by row,
  column and identifier;
* every widget has one place, the first with its identifier, which shows what a refresh of this
  widget alone would come to;
* the places may be loaded side by side. However they take turns, they do, show and leave behind
  the same.
-/
theorem dashboard_load (hw : w.Calm) (engine : Engine) {id : DashboardId} {dashboard : Dashboard}
    (hstored : r.dashboards.get? id = some dashboard) :
    ((∃ widget ∈ r.widgets.list id, widget.BeyondCalendar w.now) ∧
      ∃ c, ((engine.loadDashboard id).visit w.outside r ()).ending = .crash c) ∨
    ((∀ widget ∈ r.widgets.list id, ¬ widget.BeyondCalendar w.now) ∧
      ∃ views, ((engine.loadDashboard id).visit w.outside r ()).ending
          = .value ⟨dashboard.id, dashboard.name, views, w.now⟩ ∧
        dashboard.Shows engine w r (r.widgets.list id) views ∧
        ((∀ widget, widget ∈ r.widgets.list id ↔
            widget ∈ r.widgets.entities ∧ widget.dashboardId = id) ∧
          (r.widgets.list id).Pairwise Widget.Before ∧
          ((widgetSlots dashboard.widgetIds (r.widgets.list id)).filterMap Prod.snd).Perm
            (r.widgets.list id)) ∧
        (∃ turns c, Joint w.setting (.begin ((widgetSlots dashboard.widgetIds
          (r.widgets.list id)).map engine.loadSlot) r) turns c ∧ c.Over) ∧
        ∀ turns c, Joint w.setting (.begin ((widgetSlots dashboard.widgetIds
            (r.widgets.list id)).map engine.loadSlot) r) turns c → c.Over →
          c.threads = (widgetSlots dashboard.widgetIds (r.widgets.list id)).map
              (fun slot => ((engine.loadSlot slot).visit w.outside r ()).thread) ∧
            c.threads.map Thread.rest = views.map (fun view => .stop (.value view)) ∧
            c.state = ((engine.loadDashboard id).visit w.outside r ()).after) := by
  have hfits := fits_widgetSlots r dashboard id
  have hlisted := nodup_list_widgets r.widgets id
  have hperm := perm_widgetSlots dashboard.widgetIds (r.widgets.list id)
  have hrun := run_loadDashboard w engine hstored
  generalize hslots : widgetSlots dashboard.widgetIds (r.widgets.list id) = slots
    at hfits hperm hrun ⊢
  by_cases hbeyond : ∃ widget ∈ r.widgets.list id, widget.BeyondCalendar w.now
  · refine .inl ⟨hbeyond, ?_⟩
    obtain ⟨widget, hmem, hwidget⟩ := hbeyond
    obtain ⟨⟨place, taken⟩, hslot, rfl⟩ := List.mem_filterMap.mp (hperm.mem_iff.mpr hmem)
    obtain ⟨c, hc⟩ := loadSlots_crashes hfits (hfits.ends hw engine)
      ⟨_, hslot, (hfits.taken_ends hw engine hslot).1 hwidget⟩
    have hslots : (engine.loadSlots slots).run (MemoryRepository.world w.outside) (r, ())
        = (.crash c, _, ()) := Prod.ext hc rfl
    refine ⟨c, ?_⟩
    show ((engine.loadDashboard id).run (MemoryRepository.world w.outside) (r, ())).1 = _
    rw [hrun, hslots]
  · have hwithin : ∀ widget ∈ r.widgets.list id, ¬ widget.BeyondCalendar w.now :=
      fun widget hmem h => hbeyond ⟨widget, hmem, h⟩
    obtain ⟨views, hviews⟩ := exists_views hw engine hfits fun id widget hmem =>
      hwithin widget (hperm.mem_iff.mp (List.mem_filterMap.mpr ⟨_, hmem, rfl⟩))
    obtain ⟨r', hslots', hwritten, howns⟩ := loadSlots_run hfits (hviews.imp fun _ _ h => h.2)
    rw [hslots'] at hrun
    refine .inr ⟨hwithin, views, congrArg Prod.fst hrun, ?_, ⟨fun widget => ?_,
      pairwise_list_widgets _ _, hperm⟩, w.exists_over _, fun turns c hjoint hover => ?_⟩
    · subst hslots
      exact shows_of_slots hlisted hviews
    · exact EntityKind.mem_listing.trans (and_congr_right fun _ => decide_eq_true_iff)
    · have hloading := (loading_begin hfits).joint hfits hjoint
      obtain ⟨hthreads, hleft⟩ := hloading.over hfits hover
      refine ⟨hthreads, ?_, ?_⟩
      · rw [hthreads, List.map_map]
        exact stops_of_slots hviews
      · have hafter : ((engine.loadDashboard id).visit w.outside r ()).after = r' :=
          congrArg (fun result => result.2.1) hrun
        rw [hafter]
        refine hloading.written.unique hwritten fun id hid => ?_
        obtain ⟨widget, hmem⟩ := mem_takenIds.mp hid
        rw [hleft id widget hmem]
        exact (howns _ hmem nofun).symm

/-- A widget of one dataset. -/
def loadWidget : Widget :=
  .new default default "load" (.dataset "samples" "load") ⟨"load", .metric, none, .empty⟩

/-- A dashboard that lists a stranger, and then the widget twice. -/
def loadBoard : Dashboard := ⟨default, "loads", [⟨.ofNat 1⟩, default, default]⟩

/-- A repository with the dashboard and a widget of it. -/
def boardWith (widget : Widget) : MemoryRepository :=
  (MemoryRepository.empty.put .dashboard loadBoard).put .widget widget

/-- The stranger and the second mention of the widget keep their places. -/
theorem dashboard_load_of_stranger :
    (SteadyWorld.still ∅ default).Calm ∧
      (boardWith loadWidget).dashboards.get? default = some loadBoard ∧
      ∃ views, ((Engine.patient.loadDashboard default).visit
          (SteadyWorld.still ∅ default).outside (boardWith loadWidget) ()).ending
          = .value ⟨default, "loads", views, default⟩ ∧
        views.map WidgetView.widgetId = [⟨.ofNat 1⟩, default, default] := by
  have hcalm := SteadyWorld.calm_still ∅ default
  have hstored : (boardWith loadWidget).dashboards.get? default = some loadBoard := by rfl
  have honly : ∀ widget ∈ (boardWith loadWidget).widgets.list default, widget = loadWidget :=
    fun widget hmem => List.mem_singleton.mp (EntityKind.mem_listing.mp hmem).1
  refine ⟨hcalm, hstored, ?_⟩
  obtain ⟨⟨widget, hmem, -, hbeyond⟩, -⟩ | ⟨-, views, hviews, hshows, -⟩ :=
    dashboard_load hcalm Engine.patient hstored
  · rw [honly widget hmem] at hbeyond
    cases hbeyond
  · refine ⟨views, hviews, ?_⟩
    have hothers : ((boardWith loadWidget).widgets.list default).filter
        (fun widget => widget.id ∉ loadBoard.widgetIds) = [] := by
      refine List.filter_eq_nil_iff.mpr fun widget hmem => ?_
      rw [honly widget hmem]
      decide
    rw [hshows.ids, hothers]
    rfl

/-- A widget whose cache was written a minute before the calendar ends. -/
def lastMinuteWidget : Widget :=
  { loadWidget with cache := ⟨some (.bool true), Instant.ofParts? 8210266876740 0, 5⟩ }

/-- Its dashboard cannot be loaded. -/
theorem lastMinute_load_crashes :
    ∃ c, ((Engine.patient.loadDashboard default).visit (SteadyWorld.still ∅ default).outside
      (boardWith lastMinuteWidget) ()).ending = .crash c := by
  have hstored : (boardWith lastMinuteWidget).dashboards.get? default = some loadBoard := by rfl
  have hlist : (boardWith lastMinuteWidget).widgets.list default = [lastMinuteWidget] :=
    List.mergeSort_singleton lastMinuteWidget
  have hrun := run_loadDashboard (SteadyWorld.still ∅ default) Engine.patient hstored
  rw [hlist] at hrun
  exact ⟨_, congrArg Prod.fst hrun⟩

end Bulletin
