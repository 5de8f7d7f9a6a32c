import Bulletin.Definitions
import Bulletin.Proofs.Traces
import Bulletin.Proofs.WidgetParts

/-!
# Definitions are stored as a whole

Definitions with an entry that is not acceptable leave a repository as it was. Others are written
entry after entry, so that an identifier that occurs more than once gets its last entry, and an
identifier that does not occur keeps what it had. To write them once more changes nothing.

* `Table.get?_saveAll`, `Table.saveAll_saveAll` — entries written into one table
* `Definitions.run_saveEach` — what saving one list does to a repository
* `Definitions.validate_cases` — the check finds an entry that is not acceptable, or there is none
* `definitions_all_or_nothing` — storing
-/

namespace Bulletin

/-! ## Entries written one after the other -/

/-- The last of some entries with an identifier. -/
def EntityKind.last? (kind : EntityKind) (id : Id kind) (entries : List kind.Entity) :
    Option kind.Entity :=
  (entries.filter fun entry => kind.id entry = id).getLast?

namespace Table

variable {kind : EntityKind} {table : Table kind} {entries : List kind.Entity}

/-- The table after some entries were saved, one after the other. -/
def saveAll (table : Table kind) (entries : List kind.Entity) : Table kind :=
  entries.foldl save table

/-- The last entry with an identifier counts. -/
theorem get?_saveAll (id : Id kind) :
    (table.saveAll entries).get? id = (kind.last? id entries).or (table.get? id) := by
  induction entries generalizing table with
  | nil => rfl
  | cons entry rest ih =>
    rw [saveAll, List.foldl_cons]
    refine ih.trans ?_
    unfold EntityKind.last?
    rw [get?_save, List.filter_cons]
    by_cases hid : kind.id entry = id
    · rw [if_pos hid, if_pos (decide_eq_true hid), List.getLast?_cons]
      cases (rest.filter fun entry => kind.id entry = id).getLast? with
      | none => rfl
      | some last => rfl
    · rw [if_neg hid, if_neg (by simpa using hid)]

/-- The identifiers in a table, in the order in which they came. -/
def ids (table : Table kind) : List (Id kind) := table.entities.map kind.id

theorem ids_save (entity : kind.Entity) :
    (table.save entity).ids
      = if kind.id entity ∈ table.ids then table.ids else table.ids ++ [kind.id entity] :=
  map_key_upsert kind.id entity table.entities

theorem mem_ids_saveAll {id : Id kind} :
    id ∈ (table.saveAll entries).ids ↔ id ∈ table.ids ∨ id ∈ entries.map kind.id := by
  induction entries generalizing table with
  | nil => simp [saveAll]
  | cons entry rest ih =>
    rw [saveAll, List.foldl_cons]
    refine ih.trans ?_
    rw [ids_save, List.map_cons, List.mem_cons]
    split
    · next hmem =>
      constructor
      · rintro (h | h)
        · exact .inl h
        · exact .inr (.inr h)
      · rintro (h | rfl | h)
        · exact .inl h
        · exact .inl hmem
        · exact .inr h
    · rw [List.mem_append, List.mem_singleton, or_assoc]

/-- Entries whose identifiers are all there bring no new ones. -/
theorem ids_saveAll_of_subset (h : entries.map kind.id ⊆ table.ids) :
    (table.saveAll entries).ids = table.ids := by
  induction entries generalizing table with
  | nil => rfl
  | cons entry rest ih =>
    obtain ⟨hentry, hrest⟩ := List.cons_subset.mp h
    have hsave : (table.save entry).ids = table.ids := by rw [ids_save, if_pos hentry]
    exact (ih (hsave ▸ hrest)).trans hsave

/-- The same entries once more change nothing. -/
theorem saveAll_saveAll : (table.saveAll entries).saveAll entries = table.saveAll entries := by
  refine eq_of_get? (ids_saveAll_of_subset fun id hid => ?_) fun id => ?_
  · exact mem_ids_saveAll.mpr (.inr hid)
  · rw [get?_saveAll, get?_saveAll]
    cases kind.last? id entries with
    | none => rfl
    | some entry => rfl

end Table

namespace MemoryRepository

/-- The repository after some entries of a kind were saved, one after the other. -/
def putAll (r : MemoryRepository) (kind : EntityKind) (entries : List kind.Entity) :
    MemoryRepository :=
  r.set kind ((r.get kind).saveAll entries)

theorem putAll_nil (r : MemoryRepository) (kind : EntityKind) : r.putAll kind [] = r := by
  refine Tables.eq_of_get fun other => ?_
  unfold putAll
  by_cases hother : other = kind
  · subst hother
    exact Tables.get_set_self _ _ _
  · exact Tables.get_set_of_ne _ hother _

theorem putAll_put (r : MemoryRepository) (kind : EntityKind) (entry : kind.Entity)
    (rest : List kind.Entity) :
    (r.put kind entry).putAll kind rest = r.putAll kind (entry :: rest) := by
  refine Tables.eq_of_get fun other => ?_
  unfold putAll put
  by_cases hother : other = kind
  · subst hother
    simp only [Tables.get_set_self]
    rfl
  · simp only [Tables.get_set_of_ne _ hother]

end MemoryRepository

namespace Definitions

variable {σ : Type} {d : Definitions} {outside : World σ} {r : MemoryRepository} {s : σ}

/-! ## Saving a list -/

/-- Saving a list writes its entries and nothing else. -/
theorem run_saveEach {kind : EntityKind} {entries : List kind.Entity} :
    (saveEach kind entries).run (MemoryRepository.world outside) (r, s)
      = (.value (), r.putAll kind entries, s) := by
  induction entries generalizing r with
  | nil =>
    rw [r.putAll_nil]
    rfl
  | cons entry rest ih =>
    rw [saveEach, MemoryRepository.run_call (MemoryRepository.answer_save r kind entry), ih,
      r.putAll_put]

/-! ## Checking -/

/-- Reports, widgets and rules are acceptable. -/
def Acceptable (d : Definitions) : Prop :=
  (∀ report ∈ d.reports, report.validate = .ok ()) ∧
  (∀ widget ∈ d.widgets, widget.validate = .ok ()) ∧
  ∀ rule ∈ d.rules, rule.validate = .ok ()

/-- An entry is not acceptable, and what is told of it. -/
inductive Fault (d : Definitions) : String → Prop
  | report {report : Report} {e : DomainError} (hmem : report ∈ d.reports)
    (h : report.validate = .error e) : Fault d ("report '" ++ report.name ++ "': " ++ e.message)
  | widget {widget : Widget} {e : DomainError} (hmem : widget ∈ d.widgets)
    (h : widget.validate = .error e) : Fault d ("widget '" ++ widget.title ++ "': " ++ e.message)
  | rule {rule : AlertRule} {e : DomainError} (hmem : rule ∈ d.rules)
    (h : rule.validate = .error e) : Fault d ("alert rule '" ++ rule.name ++ "': " ++ e.message)

theorem Fault.not_acceptable {text : String} (h : d.Fault text) : ¬ d.Acceptable := by
  rintro ⟨hreports, hwidgets, hrules⟩
  cases h with
  | report hmem h => exact nomatch h.symm.trans (hreports _ hmem)
  | widget hmem h => exact nomatch h.symm.trans (hwidgets _ hmem)
  | rule hmem h => exact nomatch h.symm.trans (hrules _ hmem)

theorem checkEach_cases {α : Type} (kind : String) (name : α → String)
    (validate : α → Except DomainError Unit) (entries : List α) :
    (checkEach kind name validate entries = .ok () ∧ ∀ entry ∈ entries, validate entry = .ok ()) ∨
      ∃ entry ∈ entries, ∃ e, validate entry = .error e ∧
        checkEach kind name validate entries
          = .error (kind ++ " '" ++ name entry ++ "': " ++ e.message) := by
  induction entries with
  | nil => exact .inl ⟨rfl, List.forall_mem_nil _⟩
  | cons entry rest ih =>
    cases hentry : validate entry with
    | error e =>
      refine .inr ⟨entry, List.mem_cons_self, e, hentry, ?_⟩
      unfold checkEach
      rw [List.forM, hentry]
      rfl
    | ok u =>
      have hstep : checkEach kind name validate (entry :: rest)
          = checkEach kind name validate rest := by
        unfold checkEach
        rw [List.forM, hentry]
        rfl
      rw [hstep]
      rcases ih with ⟨hcheck, hrest⟩ | ⟨other, hother, e, he, hcheck⟩
      · exact .inl ⟨hcheck, List.forall_mem_cons.mpr ⟨hentry, hrest⟩⟩
      · exact .inr ⟨other, List.mem_cons_of_mem _ hother, e, he, hcheck⟩

/-- The check finds an entry that is not acceptable, unless there is none. -/
theorem validate_cases (d : Definitions) :
    (d.validate = .ok () ∧ d.Acceptable) ∨ ∃ text, d.validate = .error text ∧ d.Fault text := by
  unfold validate
  rcases checkEach_cases "report" Report.name Report.validate d.reports with
    ⟨hcheck, hreports⟩ | ⟨report, hmem, e, he, hcheck⟩
  · rw [hcheck]
    rcases checkEach_cases "widget" Widget.title Widget.validate d.widgets with
      ⟨hcheck, hwidgets⟩ | ⟨widget, hmem, e, he, hcheck⟩
    · rw [hcheck]
      rcases checkEach_cases "alert rule" AlertRule.name AlertRule.validate d.rules with
        ⟨hcheck, hrules⟩ | ⟨rule, hmem, e, he, hcheck⟩
      · exact .inl ⟨hcheck, hreports, hwidgets, hrules⟩
      · exact .inr ⟨_, hcheck, .rule hmem he⟩
    · rw [hcheck]
      exact .inr ⟨_, rfl, .widget hmem he⟩
  · rw [hcheck]
    exact .inr ⟨_, rfl, .report hmem he⟩

/-! ## Storing -/

/-- The entries of a kind. -/
def entries (d : Definitions) : (kind : EntityKind) → List kind.Entity
  | .report => d.reports
  | .execution => []
  | .dashboard => d.dashboards
  | .widget => d.widgets
  | .rule => d.rules
  | .alert => []

/-- The repository after all entries were saved. -/
def stored (d : Definitions) (r : MemoryRepository) : MemoryRepository :=
  (((r.putAll .report d.reports).putAll .dashboard d.dashboards).putAll .widget d.widgets).putAll
    .rule d.rules

theorem get_stored (d : Definitions) (r : MemoryRepository) (kind : EntityKind) :
    (d.stored r).get kind = (r.get kind).saveAll (d.entries kind) := by
  cases kind <;> rfl

theorem stored_stored (d : Definitions) (r : MemoryRepository) :
    d.stored (d.stored r) = d.stored r := by
  refine Tables.eq_of_get fun kind => ?_
  rw [get_stored, get_stored]
  exact Table.saveAll_saveAll

theorem run_store_of_ok (h : d.validate = .ok ()) (outside : World σ) (r : MemoryRepository)
    (s : σ) :
    d.store.run (MemoryRepository.world outside) (r, s) = (.value d.summary, d.stored r, s) := by
  unfold store
  rw [h, Action.run_ofExcept_mapError_ok]
  simp only [Action.run_bind, run_saveEach]
  rfl

theorem run_store_of_error {text : String} (h : d.validate = .error text) (outside : World σ)
    (r : MemoryRepository) (s : σ) :
    d.store.run (MemoryRepository.world outside) (r, s) = (.error (.invalid text), r, s) := by
  unfold store
  rw [h]
  rfl

end Definitions

open Definitions in
/-- **All or nothing.** Definitions with an entry that is not acceptable are turned down, and the
repository stays as it was. Of others every identifier gets the last entry that has it; everything
else is as before, executions and alerts in particular. Storing them once more, in whatever world,
changes nothing. -/
theorem definitions_all_or_nothing {σ : Type} (d : Definitions) (outside : World σ)
    (r : MemoryRepository) (s : σ) :
    let visit := d.store.visit outside r s
    (¬ d.Acceptable ∧ (∃ text, d.Fault text ∧ visit.ending = .error (.invalid text)) ∧
        visit.after = r) ∨
      d.Acceptable ∧ visit.ending = .value d.summary ∧
        (∀ kind id, (visit.after.get kind).get? id
          = (kind.last? id (d.entries kind)).or ((r.get kind).get? id)) ∧
        visit.after.executions = r.executions ∧ visit.after.alerts = r.alerts ∧
        ∀ (outside' : World σ) (s' : σ),
          (d.store.visit outside' visit.after s').ending = .value d.summary ∧
          (d.store.visit outside' visit.after s').after = visit.after := by
  intro visit
  rcases validate_cases d with ⟨hok, hacceptable⟩ | ⟨text, herror, hfault⟩
  · have hrun := run_store_of_ok hok outside r s
    have hafter : visit.after = d.stored r := congrArg (fun end_ => end_.2.1) hrun
    have hending : visit.ending = .value d.summary := congrArg Prod.fst hrun
    refine .inr ⟨hacceptable, hending, ?_, ?_, ?_, ?_⟩
    · intro kind id
      rw [hafter, get_stored, Table.get?_saveAll]
    · rw [hafter]
      rfl
    · rw [hafter]
      rfl
    · intro outside' s'
      have hagain := run_store_of_ok hok outside' visit.after s'
      refine ⟨congrArg Prod.fst hagain, ?_⟩
      refine (congrArg (fun end_ => end_.2.1) hagain).trans ?_
      rw [hafter, stored_stored]
  · have hrun := run_store_of_error herror outside r s
    exact .inl ⟨hfault.not_acceptable, ⟨text, hfault, congrArg Prod.fst hrun⟩,
      congrArg (fun end_ => end_.2.1) hrun⟩

end Bulletin
