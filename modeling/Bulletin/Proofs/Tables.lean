import Bulletin.Repository.Faulty

/-!
# Tables as maps

A table answers like a map from identifiers to entities. Saving changes what stands under one
identifier, and a listing holds the entities of its scope, each of them once.

* `Table.get?_eq_some_iff`, `Table.get?_save` — tables in memory
* `mem_putEntry` — tables of texts
-/

namespace Bulletin

/-! ## Entries -/

theorem mem_upsert {α κ : Type} [DecidableEq κ] {key : α → κ} {entry a : α} {entries : List α}
    (h : (entries.map key).Nodup) :
    a ∈ upsert key entry entries ↔ a = entry ∨ a ∈ entries ∧ key a ≠ key entry := by
  induction entries with
  | nil => simp [upsert]
  | cons first rest ih =>
    rw [List.map_cons, List.nodup_cons] at h
    by_cases hk : key first = key entry
    · have hrest : a ∈ rest → key a ≠ key entry := by
        intro ha he
        exact h.1 (hk ▸ he ▸ List.mem_map_of_mem ha)
      simp only [upsert, hk, if_true, List.mem_cons]
      constructor
      · rintro (rfl | ha)
        · exact .inl rfl
        · exact .inr ⟨.inr ha, hrest ha⟩
      · rintro (rfl | ⟨rfl | ha, hne⟩)
        · exact .inl rfl
        · exact absurd hk hne
        · exact .inr ha
    · simp only [upsert, hk, if_false, List.mem_cons, ih h.2]
      constructor
      · rintro (rfl | rfl | ⟨ha, hne⟩)
        · exact .inr ⟨.inl rfl, hk⟩
        · exact .inl rfl
        · exact .inr ⟨.inr ha, hne⟩
      · rintro (rfl | ⟨rfl | ha, hne⟩)
        · exact .inr (.inl rfl)
        · exact .inl rfl
        · exact .inr (.inr ⟨ha, hne⟩)

theorem mem_putEntry {α : Type} {key : String} {value : α} {entry : String × α}
    {entries : List (String × α)} (h : (entries.map Prod.fst).Nodup) :
    entry ∈ putEntry key value entries ↔
      entry = (key, value) ∨ entry ∈ entries ∧ entry.1 ≠ key := by
  have hput : putEntry key value entries = upsert Prod.fst (key, value) entries := by
    induction entries with
    | nil => rfl
    | cons first rest ih =>
      rw [List.map_cons, List.nodup_cons] at h
      simp only [putEntry, upsert, ih h.2]
  rw [hput]
  exact mem_upsert h

theorem lookupValue?_putEntry {α : Type} (key other : String) (value : α)
    (entries : List (String × α)) :
    lookupValue? other (putEntry key value entries)
      = if key = other then some value else lookupValue? other entries := by
  induction entries with
  | nil => rfl
  | cons first rest ih =>
    rw [putEntry]
    by_cases hk : first.1 = key
    · rw [if_pos hk]
      by_cases ho : key = other
      · rw [if_pos ho]
        exact if_pos ho
      · have hne : first.1 ≠ other := hk ▸ ho
        rw [if_neg ho]
        exact (if_neg ho).trans (if_neg hne).symm
    · rw [if_neg hk]
      by_cases hf : first.1 = other
      · have hne : key ≠ other := fun h => hk (hf.trans h.symm)
        rw [if_neg hne]
        exact (if_pos hf).trans (if_pos hf).symm
      · exact (if_neg hf).trans (ih.trans (by rw [lookupValue?, if_neg hf]))

/-- A field that was written has its new value, and the others have theirs. -/
theorem Fields.get?_insert {α : Type} (fields : Fields α) (key other : String) (value : α) :
    (fields.insert key value).get? other
      = if key = other then some value else fields.get? other :=
  lookupValue?_putEntry key other value fields.entries

theorem mem_of_lookupValue? {α : Type} {key : String} {value : α} {entries : List (String × α)}
    (h : lookupValue? key entries = some value) : (key, value) ∈ entries := by
  induction entries with
  | nil => cases h
  | cons entry rest ih =>
    simp only [lookupValue?] at h
    split at h
    · next hk =>
      cases h
      rw [← hk]
      exact List.mem_cons_self
    · exact List.mem_cons_of_mem _ (ih h)

/-- A field has the value of its entry. -/
theorem Fields.get?_eq_some_iff {α : Type} {fields : Fields α} {key : String} {value : α} :
    fields.get? key = some value ↔ (key, value) ∈ fields.entries := by
  refine ⟨mem_of_lookupValue?, fun h => ?_⟩
  obtain ⟨entries, hd⟩ := fields
  change lookupValue? key entries = some value
  induction entries with
  | nil => cases h
  | cons entry rest ih =>
    rw [List.map_cons, List.nodup_cons] at hd
    rcases List.mem_cons.mp h with rfl | h
    · exact if_pos rfl
    · have hne : entry.1 ≠ key := fun he => hd.1 (he ▸ List.mem_map_of_mem (f := Prod.fst) h)
      exact (if_neg hne).trans (ih hd.2 h)

/-- In a list without repeated keys the first entry with a key is the only one. -/
theorem find?_key_eq_some_iff {α κ : Type} [DecidableEq κ] {key : α → κ} {k : κ} {a : α}
    {entries : List α} (h : (entries.map key).Nodup) :
    entries.find? (fun entry => key entry = k) = some a ↔ a ∈ entries ∧ key a = k := by
  induction entries with
  | nil => simp
  | cons first rest ih =>
    rw [List.map_cons, List.nodup_cons] at h
    by_cases hk : key first = k
    · have hrest : a ∈ rest → key a ≠ k := by
        intro ha he
        exact h.1 (hk.trans he.symm ▸ List.mem_map_of_mem ha)
      simp only [List.find?_cons, hk, decide_true, Option.some.injEq, List.mem_cons]
      constructor
      · rintro rfl
        exact ⟨.inl rfl, hk⟩
      · rintro ⟨rfl | ha, he⟩
        · rfl
        · exact absurd he (hrest ha)
    · simp only [List.find?_cons, hk, decide_false, ih h.2, List.mem_cons]
      constructor
      · exact fun ⟨ha, he⟩ => ⟨.inr ha, he⟩
      · rintro ⟨rfl | ha, he⟩
        · exact absurd he hk
        · exact ⟨ha, he⟩

/-- In a list without repeated keys no other entry has the key of an entry. -/
theorem filter_key_eq {α κ : Type} [DecidableEq κ] {key : α → κ} {k : κ} {a : α}
    {entries : List α} (h : (entries.map key).Nodup) (ha : a ∈ entries) (hk : key a = k) :
    entries.filter (fun entry => key entry = k) = [a] := by
  induction entries with
  | nil => cases ha
  | cons first rest ih =>
    rw [List.map_cons, List.nodup_cons] at h
    rcases List.mem_cons.mp ha with rfl | ha
    · have hrest : rest.filter (fun entry => key entry = k) = [] := by
        refine List.filter_eq_nil_iff.mpr fun other hother he => ?_
        exact h.1 (hk.trans (of_decide_eq_true he).symm ▸ List.mem_map_of_mem hother)
      simp only [List.filter_cons, hk, decide_true, if_true, hrest]
    · have hne : key first ≠ k := fun he => h.1 (he.trans hk.symm ▸ List.mem_map_of_mem ha)
      simp only [List.filter_cons, hne, decide_false, Bool.false_eq_true, if_false, ih h.2 ha]

/-! ## Tables in memory -/

namespace Table

variable {kind : EntityKind} {table : Table kind}

theorem get?_eq_some_iff {id : Id kind} {entity : kind.Entity} :
    table.get? id = some entity ↔ entity ∈ table.entities ∧ kind.id entity = id :=
  find?_key_eq_some_iff table.distinct

/-- Under an identifier there is one entity. -/
theorem filter_id {id : Id kind} {entity : kind.Entity} (h : table.get? id = some entity) :
    table.entities.filter (fun other => kind.id other = id) = [entity] := by
  obtain ⟨hmem, hid⟩ := get?_eq_some_iff.mp h
  exact filter_key_eq table.distinct hmem hid

theorem mem_save {entity other : kind.Entity} :
    other ∈ (table.save entity).entities ↔
      other = entity ∨ other ∈ table.entities ∧ kind.id other ≠ kind.id entity :=
  mem_upsert table.distinct

theorem get?_save (entity : kind.Entity) (id : Id kind) :
    (table.save entity).get? id = if kind.id entity = id then some entity else table.get? id := by
  refine Option.ext fun found => ?_
  rw [get?_eq_some_iff, mem_save]
  split
  · next h =>
    rw [Option.some.injEq]
    constructor
    · rintro ⟨rfl | ⟨-, hne⟩, hid⟩
      · rfl
      · exact absurd (hid.trans h.symm) hne
    · rintro rfl
      exact ⟨.inl rfl, h⟩
  · next h =>
    rw [get?_eq_some_iff]
    constructor
    · rintro ⟨rfl | ⟨hmem, -⟩, hid⟩
      · exact absurd hid h
      · exact ⟨hmem, hid⟩
    · rintro ⟨hmem, hid⟩
      exact ⟨.inr ⟨hmem, fun he => h (he ▸ hid)⟩, hid⟩

@[simp] theorem get?_save_self (entity : kind.Entity) :
    (table.save entity).get? (kind.id entity) = some entity := by
  rw [get?_save, if_pos rfl]

end Table

theorem EntityKind.mem_listing {kind : EntityKind} {scope : kind.Scope} {entity : kind.Entity}
    {entities : List kind.Entity} :
    entity ∈ kind.listing scope entities ↔
      entity ∈ entities ∧ kind.inScope scope entity = true := by
  unfold EntityKind.listing
  rw [(List.mergeSort_perm _ _).mem_iff, List.mem_filter]

end Bulletin
