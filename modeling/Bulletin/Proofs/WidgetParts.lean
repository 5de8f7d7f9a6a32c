import Bulletin.Proofs.SteadyWorlds

/-!
# One widget at a time

Of a repository an action may see one widget only: it reads this widget and saves it, and what else
it asks for a steady world answers alike at all times. So it does the same as with the widget alone,
whatever stands elsewhere, and it leaves everything else as it is.

* `SteadyWorld.Confined` — the action sees one widget only
* `SteadyWorld.Confined.visit` — what it does to a repository, and what it does not
* `MemoryRepository.WidgetsWritten.unique` — when two repositories are the same
-/

namespace Bulletin

/-! ## Worlds -/

namespace SteadyWorld

/-- What a steady world answers besides the repository. -/
def outside (w : SteadyWorld) : World Unit
  | .now, s => (w.now, s)
  | .notify channel _, s => (w.deliver channel, s)
  | request, s => (w.reply request, s)

/-- A steady world with one widget, or without one. -/
def alone (w : SteadyWorld) : World (Option Widget)
  | .call (.get .widget _), own => (.ok own, own)
  | .call (.save .widget widget), _ => (.ok (), some widget)
  | request, own => ((w.outside request ()).1, own)

end SteadyWorld

/-- A request is about one widget, or for no repository. -/
def Request.Regards (id : WidgetId) : Request → Prop
  | .call (.get .widget other) => other = id
  | .call (.save .widget widget) => widget.id = id
  | .call _ => False
  | _ => True

/-! ## Tables -/

/-- Tables with the same identifiers in the same order are told apart by what they answer. -/
theorem Table.eq_of_get? {kind : EntityKind} {table table' : Table kind}
    (hkeys : table.entities.map kind.id = table'.entities.map kind.id)
    (hget : ∀ id, table.get? id = table'.get? id) : table = table' := by
  have hentities : ∀ table : Table kind,
      (table.entities.map kind.id).filterMap table.get? = table.entities := by
    intro table
    rw [List.filterMap_map]
    refine (List.filterMap_congr fun entity hmem => ?_).trans List.filterMap_some
    exact Table.get?_eq_some_iff.mpr ⟨hmem, rfl⟩
  have hsame : table.entities = table'.entities := by
    rw [← hentities table, ← hentities table', hkeys, funext hget]
  cases table
  cases hsame
  rfl

theorem Tables.eq_of_get {F : EntityKind → Type} {tables tables' : Tables F}
    (h : ∀ kind, tables.get kind = tables'.get kind) : tables = tables' := by
  cases tables
  cases tables'
  simp only [Tables.mk.injEq]
  exact ⟨h .report, h .execution, h .dashboard, h .widget, h .rule, h .alert⟩

namespace MemoryRepository

variable {w : SteadyWorld} {id : WidgetId} {request : Request} {r : MemoryRepository}

/-- A repository with nothing changed but some widgets that were there. -/
structure WidgetsWritten (ids : List WidgetId) (r r' : MemoryRepository) : Prop where
  tables : ∀ kind, kind ≠ .widget → r'.get kind = r.get kind
  keys : r'.widgets.entities.map Widget.id = r.widgets.entities.map Widget.id
  others : ∀ id, id ∉ ids → r'.widgets.get? id = r.widgets.get? id

namespace WidgetsWritten

variable {ids ids' : List WidgetId} {r₁ r₂ : MemoryRepository}

theorem refl (ids : List WidgetId) (r : MemoryRepository) : WidgetsWritten ids r r :=
  ⟨fun _ _ => rfl, rfl, fun _ _ => rfl⟩

theorem trans (h : WidgetsWritten ids r r₁) (h' : WidgetsWritten ids r₁ r₂) :
    WidgetsWritten ids r r₂ :=
  ⟨fun kind hkind => (h'.tables kind hkind).trans (h.tables kind hkind), h'.keys.trans h.keys,
    fun id hid => (h'.others id hid).trans (h.others id hid)⟩

theorem mono (h : WidgetsWritten ids r r₁) (hsub : ids ⊆ ids') : WidgetsWritten ids' r r₁ :=
  ⟨h.tables, h.keys, fun id hid => h.others id fun hmem => hid (hsub hmem)⟩

/-- No widget comes or goes. -/
theorem ne_none_iff (h : WidgetsWritten ids r r₁) :
    r₁.widgets.get? id ≠ none ↔ r.widgets.get? id ≠ none := by
  have hkeys : ∀ table : Table .widget,
      table.get? id ≠ none ↔ id ∈ table.entities.map Widget.id := by
    intro table
    rw [Option.ne_none_iff_exists', List.mem_map]
    exact exists_congr fun widget => Table.get?_eq_some_iff
  rw [hkeys, hkeys, h.keys]

/-- What stands under the identifiers that were written decides. -/
theorem unique (h₁ : WidgetsWritten ids r r₁) (h₂ : WidgetsWritten ids r r₂)
    (hown : ∀ id ∈ ids, r₁.widgets.get? id = r₂.widgets.get? id) : r₁ = r₂ := by
  have hget : ∀ id, r₁.widgets.get? id = r₂.widgets.get? id := by
    intro id
    by_cases hid : id ∈ ids
    · exact hown id hid
    · rw [h₁.others id hid, h₂.others id hid]
  have hwidgets : r₁.widgets = r₂.widgets := Table.eq_of_get? (h₁.keys.trans h₂.keys.symm) hget
  refine Tables.eq_of_get fun kind => ?_
  by_cases hkind : kind = .widget
  · subst hkind
    exact hwidgets
  · rw [h₁.tables kind hkind, h₂.tables kind hkind]

end WidgetsWritten

/-- The repository answers as if it had one widget only. -/
theorem world_alone (h : request.Regards id) :
    (world w.outside request (r, ())).1 = (w.alone request (r.widgets.get? id)).1 ∧
      (world w.outside request (r, ())).2.1.widgets.get? id
        = (w.alone request (r.widgets.get? id)).2 := by
  cases request with
  | call c =>
    cases c with
    | get kind other =>
      cases kind with
      | widget =>
        cases h
        exact ⟨rfl, rfl⟩
      | report | execution | dashboard | rule | alert => exact h.elim
    | save kind entity =>
      cases kind with
      | widget =>
        cases h
        exact ⟨rfl, Table.get?_save_self entity⟩
      | report | execution | dashboard | rule | alert => exact h.elim
    | list | createActive => exact h.elim
  | now | freshId | relational | dataset | api | putArtifact | notify | launch => exact ⟨rfl, rfl⟩

/-- Whoever asks for one widget that is there writes nothing else. -/
theorem world_writes (h : request.Regards id) (hown : r.widgets.get? id ≠ none) :
    WidgetsWritten [id] r (world w.outside request (r, ())).2.1 := by
  cases request with
  | call c =>
    cases c with
    | get => exact .refl _ r
    | list | createActive => exact h.elim
    | save kind entity =>
      cases kind with
      | widget =>
        obtain ⟨widget, hwidget⟩ := Option.ne_none_iff_exists'.mp hown
        obtain ⟨hmem, hid⟩ := Table.get?_eq_some_iff.mp hwidget
        have hkey : Widget.id entity ∈ r.widgets.entities.map Widget.id := by
          rw [show Widget.id entity = id from h, ← hid]
          exact List.mem_map_of_mem hmem
        refine ⟨fun kind hkind => r.get_set_of_ne hkind _, ?_, fun other hother => ?_⟩
        · exact (map_key_upsert Widget.id entity r.widgets.entities).trans (if_pos hkey)
        · refine (r.widgets.get?_save entity other).trans (if_neg fun hsame => hother ?_)
          exact List.mem_singleton.mpr (hsame.symm.trans h)
      | report | execution | dashboard | rule | alert => exact h.elim
  | now | freshId | relational | dataset | api | putArtifact | notify | launch => exact .refl _ r

end MemoryRepository

/-! ## Actions -/

namespace SteadyWorld

variable {ε ε' α β : Type} {w : SteadyWorld} {id : WidgetId}

/-- An action asks about one widget only. -/
def Confined (w : SteadyWorld) (id : WidgetId) : Action ε α → Option Widget → Prop
  | .stop _, _ => True
  | .ask request next, own =>
    request.Regards id ∧
      w.Confined id (next (w.alone request own).1) (w.alone request own).2

theorem confined_andThen {action : Action ε α} {f : Ending ε α → Action ε' β}
    {own : Option Widget} :
    w.Confined id (action.andThen f) own ↔
      w.Confined id action own ∧
        w.Confined id (f (action.run w.alone own).1) (action.run w.alone own).2 := by
  induction action generalizing own with
  | stop e => exact ⟨fun h => ⟨trivial, h⟩, fun h => h.2⟩
  | ask request next ih =>
    rw [Action.andThen, Confined, Confined, ih, and_assoc]
    rfl

section

variable {wrap : StorageError → ε} {own : Option Widget}

theorem confined_get {f : Option Widget → Action ε β} :
    w.Confined id (Action.call wrap (.get .widget id) >>= f) own ↔ w.Confined id (f own) own :=
  ⟨fun h => h.2, fun h => ⟨rfl, h⟩⟩

theorem run_get {f : Option Widget → Action ε β} :
    (Action.call wrap (.get .widget id) >>= f).run w.alone own = (f own).run w.alone own := rfl

theorem confined_save {widget : Widget} {f : Unit → Action ε β} :
    w.Confined id (Action.call wrap (.save .widget widget) >>= f) own ↔
      widget.id = id ∧ w.Confined id (f ()) (some widget) := Iff.rfl

theorem confined_now {f : Instant → Action ε β} :
    w.Confined id (Action.request .now >>= f) own ↔ w.Confined id (f w.now) own :=
  ⟨fun h => h.2, fun h => ⟨trivial, h⟩⟩

theorem run_now {f : Instant → Action ε β} :
    (Action.request .now >>= f).run w.alone own = (f w.now).run w.alone own := rfl

end

/-- Questions to connectors are about no widget. -/
theorem confined_of_isQuery (w : SteadyWorld) (id : WidgetId) {action : Action ε α}
    (h : action.AsksOnly Request.IsQuery) (own : Option Widget) :
    w.Confined id action own ∧ (action.run w.alone own).2 = own := by
  induction action generalizing own with
  | stop e => exact ⟨trivial, rfl⟩
  | ask request next ih =>
    obtain ⟨hquery, hnext⟩ := h
    cases request with
    | relational | dataset | api =>
      obtain ⟨hconfined, hown⟩ := ih _ (hnext _) own
      exact ⟨⟨trivial, hconfined⟩, hown⟩
    | call | now | freshId | putArtifact | notify | launch => exact hquery.elim

theorem confined_query_bind {action : Action ε α} (h : action.AsksOnly Request.IsQuery)
    {f : α → Action ε β} {own : Option Widget} (hf : ∀ a, w.Confined id (f a) own) :
    w.Confined id (action >>= f) own := by
  obtain ⟨hconfined, hown⟩ := confined_of_isQuery w id h own
  refine confined_andThen.mpr ⟨hconfined, ?_⟩
  rw [hown]
  cases (action.run w.alone own).1 with
  | value a => exact hf a
  | error | crash => trivial

theorem run_query_bind {action : Action ε α} (h : action.AsksOnly Request.IsQuery)
    {f : α → Action ε β} {own : Option Widget} :
    ((action >>= f).run w.alone own).1 =
      match (action.run w.alone own).1 with
      | .value a => ((f a).run w.alone own).1
      | .error e => .error e
      | .crash c => .crash c := by
  have hown := (confined_of_isQuery w default h own).2
  rw [Action.run_bind]
  generalize action.run w.alone own = ended at hown
  obtain ⟨ending, own'⟩ := ended
  obtain rfl : own' = own := hown
  cases ending <;> rfl

/-- An action that asks about one widget only does what it would do with this widget alone, and
leaves everything else as it is. -/
theorem Confined.visit {action : Action ε α} {r : MemoryRepository}
    (h : w.Confined id action (r.widgets.get? id)) :
    (action.visit w.outside r ()).ending = (action.run w.alone (r.widgets.get? id)).1 ∧
      (action.visit w.outside r ()).events = action.trace w.alone (r.widgets.get? id) ∧
      (action.visit w.outside r ()).after.widgets.get? id
        = (action.run w.alone (r.widgets.get? id)).2 ∧
      (r.widgets.get? id ≠ none →
        r.WidgetsWritten [id] (action.visit w.outside r ()).after) := by
  induction action generalizing r with
  | stop e => exact ⟨rfl, rfl, rfl, fun _ => .refl _ r⟩
  | ask request next ih =>
    obtain ⟨hrequest, hnext⟩ := h
    obtain ⟨hanswer, hown⟩ := MemoryRepository.world_alone (w := w) (r := r) hrequest
    have hrun : (Action.ask request next).run w.alone (r.widgets.get? id)
        = (next (MemoryRepository.world w.outside request (r, ())).1).run w.alone
          ((MemoryRepository.world w.outside request (r, ())).2.1.widgets.get? id) := by
      rw [hanswer, hown]
      rfl
    have htrace : (Action.ask request next).trace w.alone (r.widgets.get? id)
        = ⟨request, (MemoryRepository.world w.outside request (r, ())).1⟩
          :: (next (MemoryRepository.world w.outside request (r, ())).1).trace w.alone
            ((MemoryRepository.world w.outside request (r, ())).2.1.widgets.get? id) := by
      rw [hanswer, hown]
      rfl
    rw [← hanswer, ← hown] at hnext
    obtain ⟨hending, hevents, hafter, hwritten⟩ := ih _ hnext
    rw [hrun, htrace]
    refine ⟨hending, congrArg _ hevents, hafter, fun hstored => ?_⟩
    have hfirst := MemoryRepository.world_writes (w := w) hrequest hstored
    exact hfirst.trans (hwritten (hfirst.ne_none_iff.mpr hstored))

/-- Over repositories with the same widget it does the same. -/
theorem Confined.visit_congr {action : Action ε α} {r r' : MemoryRepository}
    (h : w.Confined id action (r.widgets.get? id))
    (hsame : r'.widgets.get? id = r.widgets.get? id) :
    (action.visit w.outside r' ()).ending = (action.visit w.outside r ()).ending ∧
      (action.visit w.outside r' ()).after.widgets.get? id
        = (action.visit w.outside r ()).after.widgets.get? id := by
  obtain ⟨hending, -, hafter, -⟩ := h.visit
  rw [← hsame] at h hending hafter
  obtain ⟨hending', -, hafter', -⟩ := h.visit
  exact ⟨hending'.trans hending.symm, hafter'.trans hafter.symm⟩

end SteadyWorld

end Bulletin
