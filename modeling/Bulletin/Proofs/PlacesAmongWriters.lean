import Bulletin.Proofs.RefreshesAmongWriters
import Bulletin.Proofs.DashboardLoads

/-!
# The places of a dashboard among writers

A dashboard is loaded while others write to the repository, in a world of which nothing is known.
For each place everybody else is another writer, the other places included, so what a place shows is
what a refresh among writers comes to. A place shows the widget that it has taken. The others say
that there is no widget for them, and so do those whose widget was taken by an earlier place.

* `Joint.underWay` — actions side by side, each among the others
* `standsAs_of_yields` — what the place of a widget shows
* `showsPlaces_of_slots` — what all places show
* `dashboard_places` — one place after the other, or side by side
-/

namespace Bulletin

/-! ## One of many -/

section

variable {ε α : Type} {r r' : MemoryRepository}

/-- A repository in memory, in a world of which nothing is known. -/
def MemoryRepository.openSetting : Setting MemoryRepository ε α where
  answers
    | .call c, r, answer, r' => r.answer c = (answer, r')
    | _, r, _, r' => r' = r
  launches _ := []
  forks _ := []

/-- How far an action has come that began over a repository. Whoever else has come further in the
meantime is one of the other writers. -/
structure UnderWay (r r' : MemoryRepository) (action : Action ε α) (t : Thread ε α) : Prop where
  amid : ∃ entries, ownEvents entries = t.past.reverse ∧ r.Amid entries r'
  continues : t.Continues action

theorem MemoryRepository.amid_of_answers {request : Request} {answer : request.Answer}
    (h : (@MemoryRepository.openSetting ε α).answers request r answer r') :
    r.Amid [.own ⟨request, answer⟩] r' := by
  cases request with
  | call c => exact .call h .nil
  | now | freshId | relational | dataset | api | putArtifact | notify | launch =>
    cases h
    exact .aside (fun _ => Request.noConfusion) .nil

namespace UnderWay

variable {m : MemoryRepository} {action : Action ε α} {t : Thread ε α}

theorem begin (r : MemoryRepository) (action : Action ε α) :
    UnderWay r r action (.begin action) :=
  ⟨⟨[], rfl, .nil⟩, Thread.continues_begin action⟩

/-- What others do is done by another writer. -/
theorem elsewhere {entries : List LogEntry} (h : UnderWay r m action t)
    (hothers : m.Amid entries r') : UnderWay r r' action t := by
  obtain ⟨⟨earlier, hearlier, hamid⟩, hcontinues⟩ := h
  refine ⟨⟨earlier ++ fromAside entries, ?_,
    MemoryRepository.amid_append.mpr ⟨m, hamid, hothers.fromAside⟩⟩, hcontinues⟩
  rw [ownEvents_append, ownEvents_fromAside, List.append_nil, hearlier]

/-- The action takes a turn. -/
theorem ask {past : List Event} {request : Request} {next : request.Answer → Action ε α}
    {answer : request.Answer} (h : UnderWay r m action ⟨past, .ask request next⟩)
    (hturn : m.Amid [.own ⟨request, answer⟩] r') :
    UnderWay r r' action ⟨⟨request, answer⟩ :: past, next answer⟩ := by
  obtain ⟨⟨earlier, hearlier, hamid⟩, hcontinues⟩ := h
  refine ⟨⟨earlier ++ [.own ⟨request, answer⟩], ?_,
    MemoryRepository.amid_append.mpr ⟨m, hamid, hturn⟩⟩, hcontinues.ask answer⟩
  rw [ownEvents_append, hearlier, List.reverse_cons]
  rfl

/-- Whoever has come to an end has come to it among the others. -/
theorem stop {ending : Ending ε α} (h : UnderWay r r' action t) (hstop : t.rest = .stop ending) :
    ∃ entries, action.Yields (ownEvents entries) ending ∧ r.Amid entries r' := by
  obtain ⟨⟨entries, hentries, hamid⟩, hcontinues⟩ := h
  exact ⟨entries, hentries ▸ hcontinues.yields hstop, hamid⟩

end UnderWay

/-- Of actions side by side each is under way among the others. -/
theorem Joint.underWay {actions : List (Action ε α)} {turns : List Turn}
    {c : Scene MemoryRepository ε α}
    (h : Joint MemoryRepository.openSetting (.begin actions r) turns c) :
    List.Forall₂ (UnderWay r c.state) actions c.threads :=
  h.forall₂ (P := fun _ r' => UnderWay r r') (fun _ => rfl) (fun action _ => .begin r action)
    (fun h hanswer => h.ask (MemoryRepository.amid_of_answers hanswer))
    (fun h hanswer => h.elsewhere (MemoryRepository.amid_of_answers hanswer))

end

/-! ## What a place shows -/

/-- A view says that its widget was not found. -/
def WidgetView.SaysNotFound (view : WidgetView) : Prop :=
  view.error = some (EngineError.notFound "widget" view.widgetId.display).message

/-- A widget stands in its own place: with the chart that its refresh has come to, or with the error
of the refresh, its title and its position. -/
inductive Widget.StandsAs (widget : Widget) (engine : Engine) (r r' : MemoryRepository) :
    WidgetView → Prop
  | chart {entries : List LogEntry} {latest : Widget} {chart : Json} {fromCache : Bool}
    (h : engine.RefreshesAmid widget.id r entries (.value (.shown latest chart fromCache)) r')
    (hid : latest.id = widget.id) : widget.StandsAs engine r r' (.shown latest chart fromCache)
  | error {entries : List LogEntry} {e : EngineError}
    (h : engine.RefreshesAmid widget.id r entries (.error e) r')
    (hfound : e.message ≠ (EngineError.notFound "widget" widget.id.display).message) :
    widget.StandsAs engine r r' (.failed widget.id widget.title widget.position e)

/-- A stored widget belongs to a dashboard. -/
def Dashboard.Owns (dashboard : Dashboard) (r : MemoryRepository) (widget : Widget) : Prop :=
  r.widgets.get? widget.id = some widget ∧ widget.dashboardId = dashboard.id

/-- What the places of a dashboard show that were loaded from one repository to another. The first
place with the identifier of a widget shows the widget. Every other place says that there is none,
which is so for the identifier of a stranger, and not for one that was mentioned before. -/
structure Dashboard.ShowsPlaces (dashboard : Dashboard) (engine : Engine) (r r' : MemoryRepository)
    (views : List WidgetView) : Prop where
  ids : views.map WidgetView.widgetId = dashboard.widgetIds
    ++ ((r.widgets.list dashboard.id).filter fun widget =>
      widget.id ∉ dashboard.widgetIds).map Widget.id
  own : ∀ before view after, views = before ++ view :: after →
    ∀ widget, dashboard.Owns r widget → widget.id = view.widgetId →
      widget.id ∉ before.map WidgetView.widgetId → widget.StandsAs engine r r' view
  vacant : ∀ before view after, views = before ++ view :: after →
    (view.widgetId ∈ before.map WidgetView.widgetId ∨
      ∀ widget, dashboard.Owns r widget → widget.id ≠ view.widgetId) →
    view = .failed view.widgetId "" .zero (.notFound "widget" view.widgetId.display)
  notFound : ∀ before view after, views = before ++ view :: after →
    (view.SaysNotFound ↔ view.widgetId ∈ before.map WidgetView.widgetId ∨
      ∀ widget, dashboard.Owns r widget → widget.id ≠ view.widgetId)

section

variable {engine : Engine} {widget : Widget} {id : WidgetId} {r r' : MemoryRepository}
  {entries : List LogEntry}

theorem Widget.validate_error {e : DomainError} (h : widget.validate = .error e) :
    ∃ field reason, e = .validation field reason := by
  unfold Widget.validate at h
  split at h
  · cases h
    exact ⟨_, _, rfl⟩
  · exact Source.validate_error h

theorem MemoryRepository.stored_afterCalls {kind : EntityKind} {id : Id kind} (calls : List Call)
    (h : (r.get kind).get? id ≠ none) : ((r.afterCalls calls).get kind).get? id ≠ none := by
  induction calls generalizing r with
  | nil => exact h
  | cons c rest ih => exact ih (MemoryRepository.stored_answer c h)

/-- A widget that is found has the identifier that was asked for. -/
theorem MemoryRepository.Finds.id_eq {first : List Event}
    (h : r.Finds entries first id (some widget)) : widget.id = id := by
  obtain ⟨_, _, -, -, hget⟩ := h
  exact (Table.get?_eq_some_iff.mp hget).2

/-- Texts that begin with different characters are different. -/
theorem append_ne_append_of_head {a b : String} {x y : Char} (s t : String)
    (ha : a.toList.head? = some x) (hb : b.toList.head? = some y) (hne : x ≠ y) :
    a ++ s ≠ b ++ t := by
  intro hsame
  have hhead := congrArg (fun text => text.toList.head?) hsame
  simp only [String.toList_append, List.head?_append, ha, hb, Option.some_or,
    Option.some.injEq] at hhead
  exact hne hhead

/-- The errors of a widget that is stored do not say that it was not found. -/
theorem EngineError.message_ne_notFound {e : EngineError} (id : String)
    (h : (∃ field reason, e = .ofDomain (.validation field reason)) ∨ ∃ e', e = .query e') :
    e.message ≠ (EngineError.notFound "widget" id).message := by
  have hnotFound : (EngineError.notFound "widget" id).message
      = "widget" ++ (" not found: " ++ id) := String.append_assoc
  rw [hnotFound]
  obtain ⟨field, reason, rfl⟩ | ⟨e', rfl⟩ := h
  · have hvalidation : DomainError.message (.validation field reason)
        = "Validation failed for " ++ (field ++ ": " ++ reason) := by
      unfold DomainError.message
      simp only [toString]
      rw [String.append_assoc, String.append_assoc, String.append_assoc]
    show DomainError.message (.validation field reason) ≠ _
    rw [hvalidation]
    exact append_ne_append_of_head _ _ (x := 'V') (y := 'w') (by decide) (by decide) (by decide)
  · exact append_ne_append_of_head _ _ (x := 'q') (y := 'w') (by decide) (by decide) (by decide)

namespace Engine.RefreshesAmid

/-- A refresh that ends well shows its widget. -/
theorem shown {view : WidgetView} (h : engine.RefreshesAmid id r entries (.value view) r') :
    ∃ latest chart fromCache, view = .shown latest chart fromCache ∧ latest.id = id := by
  cases h with
  | cached hfound => exact ⟨_, _, _, rfl, hfound.id_eq⟩
  | rebuilt _ _ _ _ hlatest => exact ⟨_, _, _, rfl, hlatest.id_eq⟩

/-- A widget that is stored has a flaw or cannot be queried. -/
theorem error {e : EngineError} (h : engine.RefreshesAmid id r entries (.error e) r')
    (hstored : r.widgets.get? id ≠ none) :
    (∃ field reason, e = .ofDomain (.validation field reason)) ∨ ∃ e', e = .query e' := by
  cases h with
  | unknown hfound =>
    obtain ⟨_, _, -, -, hnone⟩ := hfound
    exact absurd hnone (@MemoryRepository.stored_afterCalls _ .widget _ _ hstored)
  | invalid _ hinvalid =>
    obtain ⟨field, reason, rfl⟩ := Widget.validate_error hinvalid
    exact .inl ⟨field, reason, rfl⟩
  | failed => exact .inr ⟨_, rfl⟩

end Engine.RefreshesAmid

/-- What a place shows that has taken a widget. -/
theorem standsAs_of_yields {view : WidgetView} (hstored : r.widgets.get? widget.id = some widget)
    (h : (engine.loadSlot (widget.id, some widget)).Yields (ownEvents entries) (.value view))
    (hamid : r.Amid entries r') : widget.StandsAs engine r r' view := by
  rw [loadSlot_taken] at h
  obtain ⟨first, last, ended, hown, hrefresh, hplaced⟩ := Action.yields_andThen.mp h
  obtain ⟨rfl, hplaced⟩ := Action.yields_stop.mp hplaced
  rw [List.append_nil] at hown
  have hends := refreshes_of_yields (hown ▸ hrefresh) hamid
  cases ended with
  | value shown =>
    cases hplaced
    obtain ⟨latest, chart, fromCache, rfl, hid⟩ := hends.shown
    exact .chart hends hid
  | error e =>
    cases hplaced
    refine .error hends (EngineError.message_ne_notFound _ (hends.error ?_))
    rw [hstored]
    nofun
  | crash c => cases hplaced

theorem Widget.StandsAs.widgetId_eq {view : WidgetView} (h : widget.StandsAs engine r r' view) :
    view.widgetId = widget.id := by
  cases h with
  | chart _ hid => exact hid
  | error => rfl

/-- A widget that stands in its place does not say that it was not found. -/
theorem Widget.StandsAs.not_saysNotFound {view : WidgetView}
    (h : widget.StandsAs engine r r' view) : ¬ view.SaysNotFound := by
  cases h with
  | chart => exact nofun
  | error _ hfound => exact fun hsays => hfound (Option.some.inj hsays)

theorem Dashboard.owns_iff {dashboard : Dashboard} :
    dashboard.Owns r widget ↔ widget ∈ r.widgets.list dashboard.id := by
  refine Iff.trans ?_ EntityKind.mem_listing.symm
  refine and_congr (Table.get?_eq_some_iff.trans (and_iff_left rfl)) ?_
  exact decide_eq_true_iff.symm

/-- A place shows its widget, or that there is none. -/
def Engine.Places (engine : Engine) (r r' : MemoryRepository) :
    WidgetId × Option Widget → WidgetView → Prop
  | (id, none), view => view = .failed id "" .zero (.notFound "widget" id.display)
  | (_, some widget), view => widget.StandsAs engine r r' view

theorem places_of_yields {slots : List (WidgetId × Option Widget)} {slot : WidgetId × Option Widget}
    {view : WidgetView} (hfits : Fits slots r) (hmem : slot ∈ slots)
    (h : (engine.loadSlot slot).Yields (ownEvents entries) (.value view))
    (hamid : r.Amid entries r') : view.widgetId = slot.1 ∧ engine.Places r r' slot view := by
  obtain ⟨id, _ | widget⟩ := slot
  · obtain ⟨-, hview⟩ := Action.yields_stop.mp h
    cases hview
    exact ⟨rfl, rfl⟩
  · have hstored := hfits.stored id widget hmem
    obtain rfl : widget.id = id := (Table.get?_eq_some_iff.mp hstored).2
    have hstands := standsAs_of_yields hstored h hamid
    exact ⟨hstands.widgetId_eq, hstands⟩

/-- The views of places that were loaded among writers, in whatever order. -/
theorem showsPlaces_of_slots {dashboard : Dashboard} {views : List WidgetView}
    (h : List.Forall₂ (fun slot view => ∃ entries,
      (engine.loadSlot slot).Yields (ownEvents entries) (.value view) ∧ r.Amid entries r')
      (widgetSlots dashboard.widgetIds (r.widgets.list dashboard.id)) views) :
    dashboard.ShowsPlaces engine r r' views := by
  have hdistinct := nodup_list_widgets r.widgets dashboard.id
  have hviews := ((List.forall₂_and_left _ _).mpr ⟨fun _ hmem => hmem, h⟩).imp
    fun slot view ⟨hmem, _, hyields, hamid⟩ =>
      places_of_yields (fits_widgetSlots r dashboard dashboard.id) hmem hyields hamid
  have hplace := fun before view after hsplit =>
    @place_of_split _ _ _ views before after view hdistinct hviews hsplit
  have hvacant : ∀ before view after, views = before ++ view :: after →
      (view.widgetId ∈ before.map WidgetView.widgetId ∨
        ∀ widget, dashboard.Owns r widget → widget.id ≠ view.widgetId) →
      view = .failed view.widgetId "" .zero (.notFound "widget" view.widgetId.display) := by
    intro before view after hsplit hmissing
    obtain ⟨widget, hmem, hid, hnew, -⟩ | ⟨-, hview⟩ := hplace before view after hsplit
    · rcases hmissing with hold | hstrange
      · exact absurd (hid ▸ hold) hnew
      · exact absurd hid (hstrange widget (Dashboard.owns_iff.mpr hmem))
    · exact hview
  refine ⟨(ids_of_slots hviews).trans (map_fst_widgetSlots hdistinct), ?_, hvacant, ?_⟩
  · intro before view after hsplit widget howned hid hnew
    obtain ⟨other, hother, hsame, -, hstands⟩ | ⟨hold | hstrange, -⟩ :=
      hplace before view after hsplit
    · obtain rfl : widget = other := List.inj_on_of_nodup_map hdistinct
        (Dashboard.owns_iff.mp howned) hother (hid.trans hsame.symm)
      exact hstands
    · exact absurd (hid ▸ hold) hnew
    · exact absurd hid (hstrange widget (Dashboard.owns_iff.mp howned))
  · intro before view after hsplit
    constructor
    · intro hsays
      obtain ⟨_, -, -, -, hstands⟩ | ⟨hold | hstrange, -⟩ := hplace before view after hsplit
      · exact absurd hsays hstands.not_saysNotFound
      · exact .inl hold
      · exact .inr fun widget howned => hstrange widget (Dashboard.owns_iff.mp howned)
    · intro hmissing
      rw [hvacant before view after hsplit hmissing]
      rfl

/-! ## Loading among writers -/

/-- Every place ends with a view, unless it breaks down. -/
theorem loadSlot_yields {slot : WidgetId × Option Widget} {events : List Event}
    {ending : Ending EngineError WidgetView}
    (h : (engine.loadSlot slot).Yields events ending) :
    (∃ view, ending = .value view) ∨ ∃ c, ending = .crash c := by
  obtain ⟨id, _ | widget⟩ := slot
  · exact .inl ⟨_, (Action.yields_stop.mp h).2⟩
  · obtain ⟨_, _, middle, -, hresult, hrest⟩ := Action.yields_andThen.mp h
    obtain ⟨_, _, ended, -, -, hended⟩ := Action.yields_andThen.mp hresult
    cases ended with
    | value view | error e =>
      obtain ⟨-, rfl⟩ := Action.yields_stop.mp hended
      exact .inl ⟨_, (Action.yields_stop.mp hrest).2⟩
    | crash c =>
      obtain ⟨-, rfl⟩ := Action.yields_stop.mp hended
      exact .inr ⟨_, (Action.yields_stop.mp hrest).2⟩

/-- Part of the events of the places is the events of one of them. -/
def Engine.LoadsWithin (engine : Engine) (events : List Event) (slot : WidgetId × Option Widget)
    (ending : Ending EngineError WidgetView) : Prop :=
  ∃ first part last, events = first ++ (part ++ last) ∧ (engine.loadSlot slot).Yields part ending

theorem loadSlots_eq_mapM (slots : List (WidgetId × Option Widget)) :
    engine.loadSlots slots = slots.mapM engine.loadSlot := by
  induction slots with
  | nil => rfl
  | cons slot rest ih =>
    rw [List.mapM_cons, ← ih]
    rfl

/-- The places one after the other: all of them are loaded, or one of them breaks down. -/
theorem loadSlots_yields {slots : List (WidgetId × Option Widget)} {events : List Event}
    {ending : Ending EngineError (List WidgetView)}
    (h : (engine.loadSlots slots).Yields events ending) :
    (∃ views, ending = .value views ∧
      List.Forall₂ (fun slot view => engine.LoadsWithin events slot (.value view)) slots views) ∨
    ∃ c, ending = .crash c ∧ ∃ slot ∈ slots, engine.LoadsWithin events slot (.crash c) := by
  rw [loadSlots_eq_mapM, ← List.map_id events] at h
  obtain ⟨parts, rfl, rfl, hparts⟩ | ⟨slot, hslot, first, last, rfl, hwrong⟩ :=
    Action.yields_mapM h
  · refine .inl ⟨_, rfl, List.forall₂_map_right_iff.mpr
      (List.forall₂_iff_zip.mpr ⟨hparts.length_eq, fun {slot part} hzip => ?_⟩)⟩
    have hyields := (List.forall₂_iff_zip.mp hparts).2 hzip
    obtain ⟨before, after, rfl⟩ := List.append_of_mem (List.of_mem_zip hzip).2
    rw [List.map_id] at hyields
    refine ⟨before.flatMap Prod.fst, part.1, after.flatMap Prod.fst, ?_, hyields⟩
    rw [List.flatMap_append, List.flatMap_cons]
  · rw [List.map_id] at hwrong
    obtain ⟨e, rfl, hlast⟩ | ⟨c, rfl, hlast⟩ := hwrong
    · obtain ⟨view, ⟨⟩⟩ | ⟨c, ⟨⟩⟩ := loadSlot_yields hlast
    · refine .inr ⟨c, rfl, slot, hslot, first, last, [], ?_, hlast⟩
      rw [List.append_nil]

theorem Engine.LoadsWithin.earlier {slot : WidgetId × Option Widget} {events : List Event}
    {ending : Ending EngineError WidgetView} (h : engine.LoadsWithin events slot ending)
    (later : List Event) : engine.LoadsWithin (events ++ later) slot ending := by
  obtain ⟨first, part, last, rfl, hpart⟩ := h
  exact ⟨first, part, last ++ later, by simp only [List.append_assoc], hpart⟩

/-- For a place the other places are other writers. -/
theorem Engine.LoadsWithin.amid {slot : WidgetId × Option Widget}
    {ending : Ending EngineError WidgetView}
    (h : engine.LoadsWithin (ownEvents entries) slot ending) (hamid : r.Amid entries r') :
    ∃ entries', (engine.loadSlot slot).Yields (ownEvents entries') ending ∧
      r.Amid entries' r' := by
  obtain ⟨first, part, last, hown, hpart⟩ := h
  obtain ⟨entries', rfl, hamid'⟩ := hamid.part hown
  exact ⟨entries', hpart, hamid'⟩

/-- A place that breaks down has taken a widget whose refresh breaks down. -/
theorem crashes_of_yields {slots : List (WidgetId × Option Widget)}
    {slot : WidgetId × Option Widget} {c : Crash} (hfits : Fits slots r) (hmem : slot ∈ slots)
    (h : (engine.loadSlot slot).Yields (ownEvents entries) (.crash c)) (hamid : r.Amid entries r') :
    ∃ widget, slot.2 = some widget ∧ engine.RefreshesAmid widget.id r entries (.crash c) r' := by
  obtain ⟨id, _ | widget⟩ := slot
  · cases (Action.yields_stop.mp h).2
  · obtain rfl : widget.id = id :=
      (Table.get?_eq_some_iff.mp (hfits.stored id widget hmem)).2
    rw [loadSlot_taken] at h
    obtain ⟨first, last, ended, hown, hrefresh, hplaced⟩ := Action.yields_andThen.mp h
    obtain ⟨rfl, hplaced⟩ := Action.yields_stop.mp hplaced
    rw [List.append_nil] at hown
    cases ended with
    | value | error => cases hplaced
    | crash c =>
      cases hplaced
      exact ⟨widget, rfl, refreshes_of_yields (hown ▸ hrefresh) hamid⟩

/-- The widgets of a dashboard are listed. -/
def listedWidgets (id : DashboardId) (widgets : List Widget) : Event :=
  ⟨.call (.list .widget id), .ok widgets⟩

/-- What a load among other writers comes to. The places show what their refreshes come to from the
repository as it was listed. -/
inductive Engine.Loads (engine : Engine) (id : DashboardId) (r : MemoryRepository)
    (entries : List LogEntry) : Ending EngineError DashboardView → MemoryRepository → Prop
  | unknown {r' : MemoryRepository} (hfound : r.Finds entries [] id none) :
    Loads engine id r entries (.error (.notFound "dashboard" id.display)) r'
  | broken {r' m : MemoryRepository} {dashboard : Dashboard} {before after own : List LogEntry}
    {widget : Widget} {c : Crash} (hfound : r.Finds entries [] id (some dashboard))
    (hentries : entries = before ++ after) (hlisted : m = r.afterCalls (otherCalls before))
    (hbefore : ownEvents before
      = [lookedUp id (some dashboard), listedWidgets id (m.widgets.list id)])
    (howned : dashboard.Owns m widget)
    (hcrash : engine.RefreshesAmid widget.id m own (.crash c) r') :
    Loads engine id r entries (.crash c) r'
  | loaded {r' m : MemoryRepository} {dashboard : Dashboard} {before after : List LogEntry}
    {views : List WidgetView} {now : Instant} (hfound : r.Finds entries [] id (some dashboard))
    (hentries : entries = before ++ after) (hlisted : m = r.afterCalls (otherCalls before))
    (hbefore : ownEvents before
      = [lookedUp id (some dashboard), listedWidgets id (m.widgets.list id)])
    (hshows : dashboard.ShowsPlaces engine m r' views) :
    Loads engine id r entries (.value ⟨dashboard.id, dashboard.name, views, now⟩) r'

/-- The places of a dashboard, loaded among writers. -/
theorem loads_of_places {id : DashboardId} {m : MemoryRepository} {dashboard : Dashboard}
    {before after : List LogEntry} {ending : Ending EngineError DashboardView}
    (hfound : r.Finds (before ++ after) [] id (some dashboard))
    (hlisted : m = r.afterCalls (otherCalls before))
    (hbefore : ownEvents before
      = [lookedUp id (some dashboard), listedWidgets id (m.widgets.list id)])
    (h : (do
      let widgets ← engine.loadSlots (widgetSlots dashboard.widgetIds (m.widgets.list id))
      let now ← Action.request .now
      return ({ dashboardId := dashboard.id, name := dashboard.name, widgets, loadedAt := now } :
        DashboardView)).Yields (ownEvents after) ending)
    (hamid : m.Amid after r') : engine.Loads id r (before ++ after) ending r' := by
  obtain rfl : dashboard.id = id := by
    obtain ⟨_, _, -, -, hget⟩ := hfound
    exact (Table.get?_eq_some_iff.mp hget).2
  have hfits := fits_widgetSlots m dashboard dashboard.id
  obtain ⟨first, last, ended, hown, hslots, hlast⟩ := Action.yields_andThen.mp h
  obtain ⟨views, rfl, hviews⟩ | ⟨c, rfl, slot, hmem, hcrash⟩ := loadSlots_yields hslots
  · obtain ⟨now, rest, rfl, hrest⟩ := Action.yields_request_bind.mp hlast
    obtain ⟨rfl, rfl⟩ := Action.yields_stop.mp hrest
    refine .loaded hfound rfl hlisted hbefore (showsPlaces_of_slots (hviews.imp ?_))
    intro slot view hview
    have hwithin := hview.earlier [⟨.now, now⟩]
    rw [← hown] at hwithin
    exact hwithin.amid hamid
  · obtain ⟨rfl, rfl⟩ := Action.yields_stop.mp hlast
    rw [List.append_nil] at hown
    rw [← hown] at hcrash
    obtain ⟨own, hyields, howns⟩ := hcrash.amid hamid
    obtain ⟨widget, htaken, hrefresh⟩ := crashes_of_yields hfits hmem hyields howns
    obtain ⟨place, taken⟩ := slot
    obtain rfl : taken = some widget := htaken
    exact .broken hfound rfl hlisted hbefore (Dashboard.owns_iff.mpr (mem_widgetSlots hmem).1)
      hrefresh

/-- All that a load comes to. -/
theorem loads_of_yields {id : DashboardId} {ending : Ending EngineError DashboardView}
    (h : (engine.loadDashboard id).Yields (ownEvents entries) ending) (hamid : r.Amid entries r') :
    engine.Loads id r entries ending r' := by
  unfold Engine.loadDashboard at h
  generalize hown : ownEvents entries = events at h
  obtain ⟨found, rest, rfl, hrest⟩ | ⟨e, rfl, -⟩ := Action.yields_call_bind.mp h
  · rw [← List.nil_append (_ :: _)] at hown
    obtain ⟨_, ⟨⟩, hfound⟩ := hamid.finds hown (by rintro _ ⟨⟩)
    cases found with
    | none =>
      obtain ⟨-, rfl⟩ := Action.yields_stop.mp hrest
      exact .unknown hfound
    | some dashboard =>
      rw [List.nil_append, ← List.singleton_append] at hown
      obtain ⟨stored, rest, rfl, hslots⟩ | ⟨e, rfl, -⟩ := Action.yields_call_bind.mp hrest
      · obtain ⟨before, after, m, rfl, hbefore, rfl, hm, hanswer, hafter⟩ := hamid.split hown
        cases hanswer
        obtain rfl := hm.eq_afterCalls (by
          rw [hbefore]
          exact List.forall_mem_singleton.mpr trivial)
        rw [List.append_cons] at hfound ⊢
        refine loads_of_places hfound ?_ ?_ hslots hafter
        · rw [otherCalls_append, otherCalls_own]
          exact congrArg r.afterCalls (List.append_nil _).symm
        · rw [ownEvents_append, hbefore]
          rfl
      · obtain ⟨_, _, _, -, -, -, -, hanswer, -⟩ := hamid.split hown
        cases hanswer
  · rw [← List.nil_append [_]] at hown
    obtain ⟨_, ⟨⟩, -⟩ := hamid.finds hown (by rintro _ ⟨⟩)

/-- The places are loaded side by side, and have ended with their views. -/
theorem showsPlaces_of_joint {dashboard : Dashboard}
    {writers : List (Action EngineError WidgetView)} {turns : List Turn}
    {c : Scene MemoryRepository EngineError WidgetView}
    {views : List WidgetView} {others : List (Action EngineError WidgetView)}
    (h : Joint MemoryRepository.openSetting (.begin ((widgetSlots dashboard.widgetIds
      (r.widgets.list dashboard.id)).map engine.loadSlot ++ writers) r) turns c)
    (hviews : c.threads.map Thread.rest = views.map (fun view => .stop (.value view)) ++ others)
    (hothers : others.length = writers.length) :
    dashboard.ShowsPlaces engine r c.state views := by
  obtain ⟨places, rest, hthreads, hplaces, hrest⟩ := List.map_eq_append_iff.mp hviews
  have hunderWay := h.underWay
  rw [hthreads] at hunderWay
  have hlength : ((widgetSlots dashboard.widgetIds
      (r.widgets.list dashboard.id)).map engine.loadSlot).length = places.length := by
    have hall := hunderWay.length_eq
    have hleft := congrArg List.length hrest
    rw [List.length_append, List.length_append] at hall
    rw [List.length_map] at hleft
    omega
  have hfirst := List.forall₂_take_append _ _ _ hunderWay
  rw [List.take_left' hlength, List.forall₂_map_left_iff] at hfirst
  have hstops : List.Forall₂ (fun slot rest => ∃ t, UnderWay r c.state (engine.loadSlot slot) t ∧
      t.rest = rest) _ (places.map Thread.rest) :=
    List.forall₂_map_right_iff.mpr (hfirst.imp fun _ t h => ⟨t, h, rfl⟩)
  rw [hplaces, List.forall₂_map_right_iff] at hstops
  exact showsPlaces_of_slots (hstops.imp fun _ _ ⟨_, h, hstop⟩ => h.stop hstop)

end

/-- However the places of a dashboard and any other writers take turns over the repository in which
its widgets were listed, and whatever the connectors answer: when all places have ended with views,
these are what the dashboard shows. -/
def Dashboard.LoadsSideBySide (dashboard : Dashboard) (engine : Engine) (r : MemoryRepository) :
    Prop :=
  ∀ (writers others : List (Action EngineError WidgetView)) (turns : List Turn)
    (c : Scene MemoryRepository EngineError WidgetView) (views : List WidgetView),
    Joint MemoryRepository.openSetting (.begin ((widgetSlots dashboard.widgetIds
      (r.widgets.list dashboard.id)).map engine.loadSlot ++ writers) r) turns c →
    c.threads.map Thread.rest = views.map (fun view => .stop (.value view)) ++ others →
    others.length = writers.length → dashboard.ShowsPlaces engine r c.state views

/-- **The places of a dashboard.** Whatever is stored, whatever the connectors answer and whatever
others write meanwhile, a load that does not break down shows every widget of the dashboard in the
first place with its identifier, as its own refresh has left it. A place says that its widget was
not found if the dashboard has no such widget, and also if the widget was mentioned before. -/
theorem dashboard_places {σ : Type} (engine : Engine) (id : DashboardId)
    (others : MemoryRepository → σ → List Call × σ) (outside : World σ) (r : MemoryRepository)
    (s : σ) :
    engine.Loads id r ((engine.loadDashboard id).log others outside (r, s))
      ((engine.loadDashboard id).run (MemoryRepository.shared others outside) (r, s)).1
      ((engine.loadDashboard id).run (MemoryRepository.shared others outside) (r, s)).2.1 ∧
    ∀ (dashboard : Dashboard) (r : MemoryRepository), dashboard.LoadsSideBySide engine r := by
  refine ⟨loads_of_yields ?_ (Action.amid_log _ r s), ?_⟩
  · rw [Action.ownEvents_log]
    exact Action.yields_trace _ _ _
  · intro dashboard r writers others turns c views hjoint hviews hothers
    exact showsPlaces_of_joint hjoint hviews hothers

/-- A widget whose cache has just been written. -/
def cachedWidget : Widget := { loadWidget with cache := ⟨some (.bool true), some default, 5⟩ }

/-- A dashboard that mentions it twice. -/
def twiceBoard : Dashboard := ⟨default, "loads", [cachedWidget.id, cachedWidget.id]⟩

/-- The dashboard with its widget. -/
def twiceStored : MemoryRepository :=
  (MemoryRepository.empty.put .dashboard twiceBoard).put .widget cachedWidget

/-- The second mention of a widget says that the widget was not found, although it is stored. -/
theorem second_mention_not_found :
    twiceBoard.Owns twiceStored cachedWidget ∧
      ∃ view, view.widgetId = cachedWidget.id ∧ view.SaysNotFound ∧
        ((Engine.patient.loadDashboard default).visit (SteadyWorld.still ∅ default).outside
          twiceStored ()).ending
          = .value ⟨default, "loads", [.shown cachedWidget (.bool true) true, view], default⟩ := by
  have hstored : twiceStored.dashboards.get? default = some twiceBoard := by rfl
  have hlist : twiceStored.widgets.list default = [cachedWidget] :=
    List.mergeSort_singleton cachedWidget
  have hrun := run_loadDashboard (SteadyWorld.still ∅ default) Engine.patient hstored
  rw [hlist] at hrun
  exact ⟨⟨rfl, rfl⟩, .failed default "" .zero (.notFound "widget" (default : WidgetId).display),
    rfl, rfl, congrArg Prod.fst hrun⟩

end Bulletin
