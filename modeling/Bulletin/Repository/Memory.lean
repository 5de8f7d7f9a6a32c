import Bulletin.Repository.Call
import Bulletin.Repository.Tables

/-!
# The repository in memory

A table is a list of entities in which no identifier occurs twice. The order of the list is that
of the first saving and is never seen: `get` looks for an identifier and a listing sorts.
-/

namespace Bulletin

/-! ## Tables -/

/-- Replaces the entry with the same key in its place, or adds the entry at the end. -/
def upsert {α κ : Type} [DecidableEq κ] (key : α → κ) (entry : α) : List α → List α
  | [] => [entry]
  | first :: rest =>
    if key first = key entry then entry :: rest else first :: upsert key entry rest

/-- Writing an entry keeps the keys that are there and adds a new key at the end. -/
theorem map_key_upsert {α κ : Type} [DecidableEq κ] (key : α → κ) (entry : α) (entries : List α) :
    (upsert key entry entries).map key =
      if key entry ∈ entries.map key then entries.map key
      else entries.map key ++ [key entry] := by
  induction entries with
  | nil => simp [upsert]
  | cons first rest ih =>
    by_cases h : key first = key entry
    · simp [upsert, h]
    · have : ¬ key entry = key first := fun e => h e.symm
      by_cases hr : key entry ∈ rest.map key <;> simp_all [upsert]

theorem nodup_upsert {α κ : Type} [DecidableEq κ] {key : α → κ} {entry : α} {entries : List α}
    (h : (entries.map key).Nodup) : ((upsert key entry entries).map key).Nodup := by
  rw [map_key_upsert]
  split
  · exact h
  · rename_i hk
    rw [List.nodup_append]
    refine ⟨h, by simp, ?_⟩
    intro a ha b hb
    rw [List.mem_singleton] at hb
    rintro rfl
    exact hk (hb ▸ ha)

/-- The entities of one kind. -/
structure Table (kind : EntityKind) where
  entities : List kind.Entity
  distinct : (entities.map kind.id).Nodup

namespace Table

variable {kind : EntityKind}

def empty : Table kind := ⟨[], List.nodup_nil⟩

def get? (table : Table kind) (id : Id kind) : Option kind.Entity :=
  table.entities.find? fun entity => kind.id entity = id

def save (table : Table kind) (entity : kind.Entity) : Table kind :=
  ⟨upsert kind.id entity table.entities, nodup_upsert table.distinct⟩

def list (table : Table kind) (scope : kind.Scope) : List kind.Entity :=
  kind.listing scope table.entities

end Table

/-! ## The repository -/

/-- The tables of all kinds. -/
abbrev MemoryRepository := Tables Table

namespace MemoryRepository

def empty : MemoryRepository := Tables.all fun _ => Table.empty

/-- Answers a call. -/
def answer (repository : MemoryRepository) : (call : Call) → call.Answer × MemoryRepository
  | .get kind id => (.ok ((repository.get kind).get? id), repository)
  | .save kind entity => (.ok (), repository.set kind ((repository.get kind).save entity))
  | .list kind scope => (.ok ((repository.get kind).list scope), repository)
  | .createActive alert =>
    if repository.alerts.entities.any (Alert.blocks alert.ruleId) then (.ok false, repository)
    else (.ok true, repository.set .alert (repository.alerts.save alert))

end MemoryRepository

end Bulletin
