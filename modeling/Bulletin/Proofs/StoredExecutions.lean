import Bulletin.Proofs.IdentText
import Bulletin.Proofs.Tables

/-!
# Executions in a repository

A repository of either make keeps a list of executions: as they are, or as texts under their keys.
Saving an execution writes it into the list, and no other call makes a difference.

* `keepsExecutions_save`, `keepsExecutions_of_other` — what a call does to the list
-/

namespace Bulletin

/-! ## Lists of entries -/

/-- Whoever is in a list after an entry was written is that entry or was there before. -/
theorem eq_or_mem_of_mem_upsert {α κ : Type} [DecidableEq κ] {key : α → κ} {entry a : α}
    {entries : List α} (h : a ∈ upsert key entry entries) : a = entry ∨ a ∈ entries := by
  induction entries with
  | nil => exact .inl (List.mem_singleton.mp h)
  | cons first rest ih =>
    unfold upsert at h
    split at h
    · exact (List.mem_cons.mp h).imp_right (List.mem_cons_of_mem _)
    · rcases List.mem_cons.mp h with rfl | h
      · exact .inr List.mem_cons_self
      · exact (ih h).imp_right (List.mem_cons_of_mem _)

/-- Texts under the keys of what they stand for are written where the entries are. -/
theorem map_upsert {α κ β : Type} [DecidableEq κ] {id : α → κ} {key : α → String}
    (hkey : ∀ a b, key a = key b ↔ id a = id b) (value : α → β) (entry : α) (entries : List α) :
    (upsert id entry entries).map (fun a => (key a, value a))
      = putEntry (key entry) (value entry) (entries.map fun a => (key a, value a)) := by
  induction entries with
  | nil => rfl
  | cons first rest ih =>
    rw [upsert, List.map_cons, putEntry]
    by_cases h : id first = id entry
    · rw [if_pos h, if_pos ((hkey _ _).mpr h), List.map_cons]
    · rw [if_neg h, if_neg fun he => h ((hkey _ _).mp he), List.map_cons, ih]

/-! ## Repositories -/

namespace Repository

/-- A repository keeps some executions. -/
def KeepsExecutions : Repository → List Execution → Prop
  | .memory tables, executions => tables.executions.entities = executions
  | .keyed tables, executions => tables.executions.entries
      = executions.map fun execution => (execution.id.key, execution.toJson.compact)

variable {r : Repository} {executions : List Execution}

theorem keepsExecutions_save (h : r.KeepsExecutions executions) (execution : Execution) :
    (r.answer (.save .execution execution)).2.KeepsExecutions
      (upsert Execution.id execution executions) := by
  cases r with
  | memory tables => exact congrArg (upsert Execution.id execution) h
  | keyed tables =>
    have hput := congrArg (putEntry execution.id.key execution.toJson.compact) h
    have hkey : ∀ a b : Execution, a.id.key = b.id.key ↔ a.id = b.id :=
      fun _ _ => ⟨fun h => Id.key_injective h, congrArg Id.key⟩
    have hmap := map_upsert hkey (fun execution => execution.toJson.compact) execution executions
    exact hput.trans hmap.symm

/-- Only saving an execution makes a difference to the executions. -/
theorem keepsExecutions_of_other {call : Call}
    (hne : ∀ execution, call ≠ .save .execution execution) (h : r.KeepsExecutions executions) :
    (r.answer call).2.KeepsExecutions executions := by
  cases call with
  | get kind other => cases r <;> exact h
  | list kind scope => cases r <;> exact h
  | save kind entity =>
    cases kind with
    | execution => exact absurd rfl (hne entity)
    | report | dashboard | widget | rule | alert => cases r <;> exact h
  | createActive alert =>
    cases r with
    | memory tables =>
      simp only [answer, MemoryRepository.answer]
      split <;> exact h
    | keyed tables =>
      simp only [answer, KeyedRepository.answer]
      split <;> exact h

end Repository

end Bulletin
