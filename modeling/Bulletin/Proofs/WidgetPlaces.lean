import Bulletin.Dashboard.View
import Bulletin.Proofs.Listings

/-!
# The places of a dashboard

A dashboard has a place for every identifier that it lists, and then one for every other widget of
its own. The first place with the identifier of a widget takes the widget. A place that comes later
takes none, and neither does one of a stranger.

* `pairwise_list_widgets` — the order of the other widgets
* `map_fst_widgetSlots` — the identifiers of the places
* `perm_widgetSlots` — every widget has one place
* `pairwise_widgetSlots`, `vacant_of_widgetSlots` — which places have one
-/

namespace Bulletin

/-! ## The order of the widgets -/

/-- A widget stands in a row above, or to the left in one row; at one place the identifiers
decide. -/
def Widget.Before (a b : Widget) : Prop :=
  a.position.y < b.position.y ∨ a.position.y = b.position.y ∧ (a.position.x < b.position.x ∨
    a.position.x = b.position.x ∧ a.id.uuid.value < b.id.uuid.value)

theorem Widget.before_of_order {a b : Widget} (h : EntityKind.widget.order a b = .lt) :
    a.Before b := by
  rcases Ordering.then_eq_lt.mp h with h | ⟨h, hid⟩
  · rcases Ordering.then_eq_lt.mp h with hrow | ⟨hrow, hcolumn⟩
    · exact .inl (Std.compare_eq_lt.mp hrow)
    · exact .inr ⟨Std.compare_eq_iff_eq.mp hrow, .inl (Std.compare_eq_lt.mp hcolumn)⟩
  · obtain ⟨hrow, hcolumn⟩ := Ordering.then_eq_eq.mp h
    exact .inr ⟨Std.compare_eq_iff_eq.mp hrow, .inr ⟨Std.compare_eq_iff_eq.mp hcolumn,
      Nat.compare_eq_lt.mp hid⟩⟩

/-- The identifiers of stored widgets are different. -/
theorem nodup_list_widgets (table : Table .widget) (id : DashboardId) :
    ((table.list id).map Widget.id).Nodup := by
  have hperm : (table.list id).Perm (table.entities.filter (EntityKind.inScope .widget id)) :=
    List.mergeSort_perm _ _
  exact (hperm.map Widget.id).nodup_iff.mpr (table.distinct.sublist (List.filter_sublist.map _))

/-- The widgets of a dashboard are listed by row, column and identifier. -/
theorem pairwise_list_widgets (table : Table .widget) (id : DashboardId) :
    (table.list id).Pairwise Widget.Before := by
  have hsorted : (table.list id).Pairwise fun a b => (EntityKind.widget.order a b != .gt) = true :=
    @EntityKind.pairwise_listing .widget id table.entities
  have hdistinct := List.pairwise_map.mp (nodup_list_widgets table id)
  refine (hsorted.and hdistinct).imp fun {a b} h => ?_
  refine Widget.before_of_order ?_
  cases horder : EntityKind.widget.order a b with
  | lt => rfl
  | eq => exact absurd (EntityKind.eq_id_of_order_eq horder) h.2
  | gt =>
    have hne := h.1
    rw [horder] at hne
    cases hne

/-! ## The places -/

variable {ids : List WidgetId} {stored : List Widget}
  {before after : List (WidgetId × Option Widget)} {id : WidgetId} {widget : Widget}

theorem widgetSlots_cons (id : WidgetId) (ids : List WidgetId) (stored : List Widget) :
    widgetSlots (id :: ids) stored = (id, stored.find? fun w => w.id = id)
      :: widgetSlots ids (stored.eraseP fun w => w.id = id) := rfl

/-- Widgets with different identifiers are taken out one at a time. -/
theorem eraseP_id_eq_filter (h : (stored.map Widget.id).Nodup) :
    stored.eraseP (fun w => w.id = id) = stored.filter fun w => w.id ≠ id := by
  induction stored with
  | nil => rfl
  | cons first rest ih =>
    rw [List.map_cons, List.nodup_cons] at h
    by_cases hid : first.id = id
    · have hrest : rest.filter (fun w => w.id ≠ id) = rest := by
        refine List.filter_eq_self.mpr fun w hw => decide_eq_true fun hsame => ?_
        exact h.1 (hid.trans hsame.symm ▸ List.mem_map_of_mem hw)
      simp only [List.eraseP_cons, List.filter_cons, hid, ne_eq, not_true_eq_false, decide_true,
        decide_false, cond_true, Bool.false_eq_true, if_false]
      exact hrest.symm
    · simp only [List.eraseP_cons, List.filter_cons, hid, ne_eq, not_false_eq_true, decide_true,
        decide_false, cond_false, if_true, ih h.2]

/-- Whoever is taken out was there. -/
theorem cons_eraseP_perm {p : Widget → Bool} (h : stored.find? p = some widget) :
    (widget :: stored.eraseP p).Perm stored := by
  induction stored with
  | nil => cases h
  | cons first rest ih =>
    by_cases hp : p first = true
    · rw [List.find?_cons_of_pos hp] at h
      cases h
      rw [List.eraseP_cons_of_pos hp]
    · rw [List.find?_cons_of_neg hp] at h
      rw [List.eraseP_cons_of_neg hp]
      exact (List.Perm.swap first widget _).trans ((ih h).cons first)

theorem nodup_filter_id {p : Widget → Bool} (h : (stored.map Widget.id).Nodup) :
    ((stored.filter p).map Widget.id).Nodup :=
  h.sublist (List.filter_sublist.map _)

/-- The places stand in the order of the list, and the other widgets follow. -/
theorem map_fst_widgetSlots (h : (stored.map Widget.id).Nodup) :
    (widgetSlots ids stored).map Prod.fst
      = ids ++ (stored.filter fun w => w.id ∉ ids).map Widget.id := by
  induction ids generalizing stored with
  | nil => simp [widgetSlots, Function.comp_def]
  | cons id rest ih =>
    have hfilter : (stored.filter fun w => w.id ≠ id).filter (fun w => w.id ∉ rest)
        = stored.filter fun w => w.id ∉ id :: rest := by
      rw [List.filter_filter]
      refine List.filter_congr fun w _ => ?_
      simp [Bool.and_comm]
    rw [widgetSlots_cons, eraseP_id_eq_filter h, List.map_cons, ih (nodup_filter_id h), hfilter]
    rfl

/-- No widget is lost, and none is shown twice. -/
theorem perm_widgetSlots (ids : List WidgetId) (stored : List Widget) :
    ((widgetSlots ids stored).filterMap Prod.snd).Perm stored := by
  induction ids generalizing stored with
  | nil =>
    have hall : (stored.map fun w => (w.id, some w)).filterMap Prod.snd = stored := by
      rw [List.filterMap_map]
      exact List.filterMap_some
    exact .of_eq hall
  | cons id rest ih =>
    rw [widgetSlots_cons]
    cases hfind : stored.find? fun w => w.id = id with
    | none =>
      have hnone : ∀ w ∈ stored, ¬ decide (w.id = id) = true := List.find?_eq_none.mp hfind
      rw [List.eraseP_of_forall_not hnone]
      exact ih stored
    | some widget => exact ((ih _).cons widget).trans (cons_eraseP_perm hfind)

/-- A place has the widget with its identifier. -/
theorem mem_widgetSlots (hmem : (id, some widget) ∈ widgetSlots ids stored) :
    widget ∈ stored ∧ widget.id = id := by
  refine ⟨(perm_widgetSlots ids stored).mem_iff.mp (List.mem_filterMap.mpr ⟨_, hmem, rfl⟩), ?_⟩
  induction ids generalizing stored with
  | nil =>
    obtain ⟨other, -, hsame⟩ := List.mem_map.mp hmem
    cases hsame
    rfl
  | cons first rest ih =>
    rw [widgetSlots_cons] at hmem
    rcases List.mem_cons.mp hmem with hhead | htail
    · obtain ⟨rfl, hfind⟩ := Prod.mk.inj hhead
      simpa using List.find?_some hfind.symm
    · exact ih htail

/-- A place that has a widget is the first one with its identifier. -/
theorem pairwise_widgetSlots (h : (stored.map Widget.id).Nodup) (ids : List WidgetId) :
    (widgetSlots ids stored).Pairwise fun a b => b.2 ≠ none → a.1 ≠ b.1 := by
  induction ids generalizing stored with
  | nil =>
    refine List.pairwise_map.mpr ((List.pairwise_map.mp h).imp ?_)
    exact fun hne _ => hne
  | cons first rest ih =>
    rw [widgetSlots_cons, eraseP_id_eq_filter h]
    refine List.pairwise_cons.mpr ⟨?_, ih (nodup_filter_id h)⟩
    rintro ⟨id, widget⟩ hmem htaken hsame
    obtain ⟨widget, rfl⟩ := Option.ne_none_iff_exists'.mp htaken
    obtain ⟨hstored, hid⟩ := mem_widgetSlots hmem
    exact of_decide_eq_true (List.mem_filter.mp hstored).2 (hid.trans hsame.symm)

/-- A place without a widget is one of a stranger, or has another one before it. -/
theorem vacant_of_widgetSlots (h : (stored.map Widget.id).Nodup)
    (hslots : widgetSlots ids stored = before ++ (id, none) :: after) :
    id ∈ before.map Prod.fst ∨ ∀ w ∈ stored, w.id ≠ id := by
  induction ids generalizing stored before with
  | nil =>
    obtain ⟨first, last, rfl, rfl, hlast⟩ := List.map_eq_append_iff.mp hslots
    obtain ⟨other, rest, -, hsame, -⟩ := List.map_eq_cons_iff.mp hlast
    cases hsame
  | cons first rest ih =>
    rw [widgetSlots_cons, eraseP_id_eq_filter h] at hslots
    rcases List.cons_eq_append_iff.mp hslots with ⟨rfl, hhead⟩ | ⟨before, rfl, htail⟩
    · obtain ⟨hfind, -⟩ := List.cons.inj hhead
      obtain ⟨rfl, hfind⟩ := Prod.mk.inj hfind
      exact .inr fun w hw => by simpa using List.find?_eq_none.mp hfind.symm w hw
    · rcases ih (nodup_filter_id h) htail with hmem | hstrange
      · exact .inl (List.mem_cons_of_mem _ hmem)
      · by_cases hfirst : id = first
        · exact .inl (hfirst ▸ List.mem_cons_self)
        · refine .inr fun w hw hid => hstrange w (List.mem_filter.mpr ⟨hw, decide_eq_true ?_⟩) hid
          exact hid ▸ hfirst

end Bulletin
