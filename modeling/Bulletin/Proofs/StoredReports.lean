import Bulletin.Proofs.RepositoriesAgree

/-!
# Reports in a repository

The two makes of repositories, seen through what they answer to whoever asks for a report.

* `Repository.report?_save` — what is answered after a report was saved
* `Repository.report?_of_other` — no other call makes a difference
-/

namespace Bulletin

namespace Repository

/-- What is answered to whoever asks for a report. -/
def report? (r : Repository) (id : ReportId) : Except StorageError (Option Report) :=
  (r.answer (.get .report id)).1

/-- A report that is saved can be read again. A repository in memory keeps it as it is. -/
def Retains : Repository → Report → Prop
  | .memory _, _ => True
  | .keyed _, report => EntityKind.report.ReadsBack report

/-- Whoever asks for a report gets one with the identifier asked for. -/
def ReportsInPlace (r : Repository) : Prop :=
  ∀ id report, r.report? id = .ok (some report) → report.id = id

variable {r r' : Repository}

theorem reportsInPlace_memory (tables : MemoryRepository) : (memory tables).ReportsInPlace := by
  intro id report h
  have hfound : tables.reports.get? id = some report := Except.ok.inj h
  exact (Table.get?_eq_some_iff.mp hfound).2

theorem retains_answer (call : Call) (report : Report) :
    (r.answer call).2.Retains report ↔ r.Retains report := by
  cases r <;> exact Iff.rfl

theorem report?_save {report : Report} (h : r.Retains report) (id : ReportId) :
    (r.answer (.save .report report)).2.report? id
      = if report.id = id then .ok (some report) else r.report? id := by
  cases r with
  | memory tables =>
    change Except.ok ((tables.reports.save report).get? id) = _
    rw [Table.get?_save]
    change Except.ok (if report.id = id then _ else _) = _
    split <;> rfl
  | keyed tables =>
    change TextTable.get (TextTable.save tables.reports .report report) .report id = _
    unfold TextTable.get TextTable.save
    rw [Fields.get?_insert]
    by_cases hid : report.id = id
    · have hkey : (EntityKind.report.id report).key = id.key := congrArg Id.key hid
      rw [if_pos hid, if_pos hkey]
      change (TextTable.decode .report _).map some = _
      rw [h]
      rfl
    · have hkey : (EntityKind.report.id report).key ≠ id.key := fun h => hid (Id.key_injective h)
      rw [if_neg hid, if_neg hkey]
      rfl

/-- Only saving a report makes a difference to what is answered about reports. -/
theorem report?_of_other {call : Call} (h : ∀ report, call ≠ .save .report report) (id : ReportId) :
    (r.answer call).2.report? id = r.report? id := by
  cases call with
  | get kind other => cases r <;> rfl
  | list kind scope => cases r <;> rfl
  | save kind entity =>
    cases kind with
    | report => exact absurd rfl (h entity)
    | execution | dashboard | widget | rule | alert => cases r <;> rfl
  | createActive alert =>
    cases r with
    | memory tables =>
      simp only [answer, MemoryRepository.answer]
      split <;> rfl
    | keyed tables =>
      simp only [answer, KeyedRepository.answer]
      split <;> rfl

end Repository

end Bulletin
