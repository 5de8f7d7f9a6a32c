import Bulletin.Proofs.Traces

/-!
# One action among other writers

An action works on a repository in memory while others write to it. What happened is one list of
entries: the events of the action, and the calls of the others in between. The calls alone, made
from the same beginning, lead to the repository that there would be without the action. As long as
the action saves nothing but one execution, and nobody else saves this one, the two repositories
differ in it and in nothing else.

* `MemoryRepository.Amid` — the repository goes through the entries
* `MemoryRepository.Amid.agreeApart` — what the action has changed
* `MemoryRepository.reports_afterCalls` — the version of a report that was saved last
* `MemoryRepository.Amid.keeps_stored`, `MemoryRepository.Amid.eq_afterCalls` — what stays
* `Action.log` — what happens while an action runs, whatever the others do
-/

namespace Bulletin

/-! ## Entries -/

/-- What happens at a repository: an event of one action, or a call of another writer. -/
inductive LogEntry where
  | own (event : Event)
  | other (c : Call)

namespace LogEntry

def event? : LogEntry → Option Event
  | .own event => some event
  | .other _ => none

def call? : LogEntry → Option Call
  | .own _ => none
  | .other c => some c

end LogEntry

/-- An entry as others see it: a call of the action is the call of another writer. -/
def LogEntry.fromAside? : LogEntry → Option LogEntry
  | .own ⟨.call c, _⟩ => some (.other c)
  | .own _ => none
  | .other c => some (.other c)

/-- The entries as they are seen by somebody who has done nothing. -/
def fromAside (entries : List LogEntry) : List LogEntry := entries.filterMap LogEntry.fromAside?

/-- The events of the action. -/
def ownEvents (entries : List LogEntry) : List Event := entries.filterMap LogEntry.event?

/-- The calls of the other writers. -/
def otherCalls (entries : List LogEntry) : List Call := entries.filterMap LogEntry.call?

section

variable {entries entries' : List LogEntry} {event : Event} {c : Call}

@[simp] theorem ownEvents_append :
    ownEvents (entries ++ entries') = ownEvents entries ++ ownEvents entries' :=
  List.filterMap_append

@[simp] theorem otherCalls_append :
    otherCalls (entries ++ entries') = otherCalls entries ++ otherCalls entries' :=
  List.filterMap_append

@[simp] theorem ownEvents_own : ownEvents (.own event :: entries) = event :: ownEvents entries :=
  rfl

@[simp] theorem ownEvents_other : ownEvents (.other c :: entries) = ownEvents entries := rfl

@[simp] theorem otherCalls_own : otherCalls (.own event :: entries) = otherCalls entries := rfl

@[simp] theorem otherCalls_other : otherCalls (.other c :: entries) = c :: otherCalls entries :=
  rfl

/-- An event of the action has its place among the entries. -/
theorem ownEvents_eq_append_cons {first rest : List Event}
    (h : ownEvents entries = first ++ event :: rest) :
    ∃ before after, entries = before ++ .own event :: after ∧ ownEvents before = first ∧
      ownEvents after = rest := by
  obtain ⟨before, others, rfl, hbefore, hothers⟩ := List.filterMap_eq_append_iff.mp h
  obtain ⟨calls, entry, after, rfl, hcalls, hentry, hafter⟩ := List.filterMap_eq_cons_iff.mp hothers
  cases entry with
  | other c => cases hentry
  | own event' =>
    cases hentry
    refine ⟨before ++ calls, after, by rw [List.append_assoc], ?_, hafter⟩
    have hnone : ownEvents calls = [] := List.filterMap_eq_nil_iff.mpr hcalls
    rw [ownEvents_append, hnone, List.append_nil]
    exact hbefore

@[simp] theorem ownEvents_fromAside (entries : List LogEntry) :
    ownEvents (fromAside entries) = [] := by
  refine List.filterMap_eq_nil_iff.mpr fun entry hmem => ?_
  obtain ⟨seen, -, hseen⟩ := List.mem_filterMap.mp hmem
  cases seen with
  | other c =>
    cases hseen
    rfl
  | own event =>
    obtain ⟨request, answer⟩ := event
    cases request with
    | call c =>
      cases hseen
      rfl
    | now | freshId | relational | dataset | api | putArtifact | notify | launch => cases hseen

/-- Entries without other writers. -/
theorem eq_map_own (h : otherCalls entries = []) : entries = (ownEvents entries).map .own := by
  induction entries with
  | nil => rfl
  | cons entry rest ih =>
    cases entry with
    | own event => exact congrArg _ (ih h)
    | other c => cases h

end

/-! ## A repository among writers -/

namespace MemoryRepository

/-- The repository after some calls. -/
def afterCalls (r : MemoryRepository) (calls : List Call) : MemoryRepository :=
  calls.foldl (fun r c => (r.answer c).2) r

/-- A repository answers the calls among some entries, the oldest first, and is then another. -/
inductive Amid : MemoryRepository → List LogEntry → MemoryRepository → Prop
  | nil {r : MemoryRepository} : Amid r [] r
  | call {r r₁ r' : MemoryRepository} {c : Call} {answer : c.Answer} {entries : List LogEntry}
      (h : r.answer c = (answer, r₁)) :
      Amid r₁ entries r' → Amid r (.own ⟨.call c, answer⟩ :: entries) r'
  | aside {r r' : MemoryRepository} {event : Event} {entries : List LogEntry}
      (h : ∀ c, event.request ≠ .call c) : Amid r entries r' → Amid r (.own event :: entries) r'
  | other {r r' : MemoryRepository} (c : Call) {entries : List LogEntry} :
      Amid (r.answer c).2 entries r' → Amid r (.other c :: entries) r'

/-- Two repositories differ in one execution at most. -/
structure AgreeApart (id : ExecutionId) (r q : MemoryRepository) : Prop where
  tables : ∀ kind, kind ≠ .execution → r.get kind = q.get kind
  executions : ∀ other, other ≠ id → r.executions.get? other = q.executions.get? other

end MemoryRepository

/-- A call does not save an execution. -/
def Call.Spares (id : ExecutionId) : Call → Prop
  | .save .execution execution => execution.id ≠ id
  | _ => True

/-- An event saves nothing but an execution. -/
def Event.Records (id : ExecutionId) : Event → Prop
  | ⟨.call (.save .execution execution), _⟩ => execution.id = id
  | ⟨.call (.save _ _), _⟩ => False
  | ⟨.call (.createActive _), _⟩ => False
  | _ => True

/-- A request leaves every repository as it is. -/
def Request.SavesNothing : Request → Prop
  | .call (.save _ _) => False
  | .call (.createActive _) => False
  | _ => True

namespace MemoryRepository

variable {id : ExecutionId} {r r' q : MemoryRepository} {entries : List LogEntry}

theorem amid_append {first second : List LogEntry} :
    r.Amid (first ++ second) r' ↔ ∃ m, r.Amid first m ∧ m.Amid second r' := by
  constructor
  · intro h
    induction first generalizing r with
    | nil => exact ⟨r, .nil, h⟩
    | cons entry rest ih =>
      cases h with
      | call ha h =>
        obtain ⟨m, hrest, hsecond⟩ := ih h
        exact ⟨m, .call ha hrest, hsecond⟩
      | aside ha h =>
        obtain ⟨m, hrest, hsecond⟩ := ih h
        exact ⟨m, .aside ha hrest, hsecond⟩
      | other c h =>
        obtain ⟨m, hrest, hsecond⟩ := ih h
        exact ⟨m, .other c hrest, hsecond⟩
  · rintro ⟨m, hfirst, hsecond⟩
    induction hfirst with
    | nil => exact hsecond
    | call ha _ ih => exact .call ha (ih hsecond)
    | aside ha _ ih => exact .aside ha (ih hsecond)
    | other c _ ih => exact .other c (ih hsecond)

/-- The repository goes the same way, whoever is asked about it. -/
theorem Amid.fromAside (h : r.Amid entries r') : r.Amid (fromAside entries) r' := by
  induction h with
  | nil => exact .nil
  | call ha _ ih =>
    refine .other _ ?_
    rw [ha]
    exact ih
  | @aside _ _ event _ ha _ ih =>
    obtain ⟨request, answer⟩ := event
    cases request with
    | call c => exact absurd rfl (ha c)
    | now | freshId | relational | dataset | api | putArtifact | notify | launch => exact ih
  | other c _ ih => exact .other c ih

/-- What an action does in part of its time, the rest being left to others. -/
theorem Amid.part {first part last : List Event} (h : r.Amid entries r')
    (hown : ownEvents entries = first ++ (part ++ last)) :
    ∃ entries', ownEvents entries' = part ∧ r.Amid entries' r' := by
  obtain ⟨before, rest, rfl, -, hrest⟩ := List.filterMap_eq_append_iff.mp hown
  obtain ⟨own, after, rfl, hpart, -⟩ := List.filterMap_eq_append_iff.mp hrest
  obtain ⟨m, hbefore, hrest⟩ := amid_append.mp h
  obtain ⟨m', hown, hafter⟩ := amid_append.mp hrest
  refine ⟨Bulletin.fromAside before ++ (own ++ Bulletin.fromAside after), ?_,
    amid_append.mpr ⟨m, hbefore.fromAside, amid_append.mpr ⟨m', hown, hafter.fromAside⟩⟩⟩
  rw [ownEvents_append, ownEvents_append, ownEvents_fromAside, ownEvents_fromAside,
    List.nil_append, List.append_nil]
  exact hpart

/-- An own call is answered by the repository. -/
theorem amid_call {c : Call} {answer : c.Answer} :
    r.Amid (.own ⟨.call c, answer⟩ :: entries) r' ↔
      (r.answer c).1 = answer ∧ (r.answer c).2.Amid entries r' := by
  constructor
  · intro h
    cases h with
    | call ha h =>
      rw [ha]
      exact ⟨rfl, h⟩
    | aside ha h => exact absurd rfl (ha c)
  · rintro ⟨rfl, h⟩
    exact .call rfl h

/-- The entries before and after an own call, and the repository that answers it. -/
theorem Amid.split {first rest : List Event} {c : Call} {answer : c.Answer}
    (h : r.Amid entries r') (hown : ownEvents entries = first ++ ⟨.call c, answer⟩ :: rest) :
    ∃ before after m, entries = before ++ .own ⟨.call c, answer⟩ :: after ∧
      ownEvents before = first ∧ ownEvents after = rest ∧ r.Amid before m ∧
      (m.answer c).1 = answer ∧ (m.answer c).2.Amid after r' := by
  obtain ⟨before, after, rfl, hbefore, hafter⟩ := ownEvents_eq_append_cons hown
  obtain ⟨m, hm, hrest⟩ := amid_append.mp h
  obtain ⟨hanswer, hrest⟩ := amid_call.mp hrest
  exact ⟨before, after, m, rfl, hbefore, hafter, hm, hanswer, hrest⟩

/-! ## What stays -/

theorem get_put_self (r : MemoryRepository) (kind : EntityKind) (entity : kind.Entity) :
    (r.put kind entity).get kind = (r.get kind).save entity :=
  r.get_set_self kind _

theorem get_put_of_ne (r : MemoryRepository) {kind other : EntityKind} (entity : kind.Entity)
    (h : other ≠ kind) : (r.put kind entity).get other = r.get other :=
  r.get_set_of_ne h _

/-- Others write alike to both repositories. -/
theorem AgreeApart.answer (h : r.AgreeApart id q) {c : Call} (hc : c.Spares id) :
    (r.answer c).2.AgreeApart id (q.answer c).2 := by
  cases c with
  | get kind other => exact h
  | list kind scope => exact h
  | save kind entity =>
    refine ⟨fun other hother => ?_, fun other hother => ?_⟩
    · show (r.put kind entity).get other = (q.put kind entity).get other
      by_cases hk : other = kind
      · subst hk
        rw [get_put_self, get_put_self, h.tables other hother]
      · rw [get_put_of_ne r entity hk, get_put_of_ne q entity hk, h.tables other hother]
    · show ((r.put kind entity).get .execution).get? other
        = ((q.put kind entity).get .execution).get? other
      by_cases hk : EntityKind.execution = kind
      · subst hk
        rw [get_put_self, get_put_self, Table.get?_save, Table.get?_save]
        exact congrArg _ (h.executions other hother)
      · rw [get_put_of_ne r entity hk, get_put_of_ne q entity hk]
        exact h.executions other hother
  | createActive alert =>
    have halerts : r.alerts = q.alerts := h.tables .alert nofun
    simp only [MemoryRepository.answer, halerts]
    split
    · exact h
    · refine ⟨fun other hother => ?_, h.executions⟩
      by_cases hk : other = .alert
      · subst hk
        rw [Tables.get_set_self, Tables.get_set_self]
      · rw [Tables.get_set_of_ne _ hk, Tables.get_set_of_ne _ hk, h.tables other hother]

/-- The action writes its execution only. -/
theorem AgreeApart.record (h : r.AgreeApart id q) {c : Call} {answer : c.Answer}
    (hc : Event.Records id ⟨.call c, answer⟩) : (r.answer c).2.AgreeApart id q := by
  cases c with
  | get | list => exact h
  | createActive => exact hc.elim
  | save kind entity =>
    cases kind with
    | execution =>
      have hid : EntityKind.execution.id entity = id := hc
      refine ⟨fun other hother => ?_, fun other hother => ?_⟩
      · exact (get_put_of_ne r entity hother).trans (h.tables other hother)
      · refine ((r.executions.get?_save entity other).trans (if_neg ?_)).trans
          (h.executions other hother)
        rw [hid]
        exact Ne.symm hother
    | report | dashboard | widget | rule | alert => exact hc.elim

/-- An action that saves nothing but one execution leaves the rest to the other writers. -/
theorem Amid.agreeApart (h : r.Amid entries r')
    (hown : ∀ event ∈ ownEvents entries, event.Records id)
    (hothers : ∀ c ∈ otherCalls entries, c.Spares id) (hq : r.AgreeApart id q) :
    r'.AgreeApart id (q.afterCalls (otherCalls entries)) := by
  induction h generalizing q with
  | nil => exact hq
  | call ha _ ih =>
    obtain ⟨hevent, hown⟩ := List.forall_mem_cons.mp hown
    have hnext := hq.record hevent
    rw [ha] at hnext
    exact ih hown hothers hnext
  | aside _ _ ih => exact ih (List.forall_mem_cons.mp hown).2 hothers hq
  | other c _ ih =>
    obtain ⟨hc, hothers⟩ := List.forall_mem_cons.mp hothers
    exact ih hown hothers (hq.answer hc)

theorem AgreeApart.refl (id : ExecutionId) (r : MemoryRepository) : r.AgreeApart id r :=
  ⟨fun _ _ => rfl, fun _ _ => rfl⟩

theorem executions_answer (r : MemoryRepository) {c : Call} (hc : c.Spares id) :
    (r.answer c).2.executions.get? id = r.executions.get? id := by
  cases c with
  | get | list => rfl
  | createActive alert =>
    simp only [MemoryRepository.answer]
    split <;> rfl
  | save kind entity =>
    cases kind with
    | execution => exact (r.executions.get?_save entity id).trans (if_neg hc)
    | report | dashboard | widget | rule | alert => rfl

/-- An execution that nobody saves stays as it is. -/
theorem Amid.keeps_execution (h : r.Amid entries r')
    (hown : ∀ event ∈ ownEvents entries, ∀ execution,
      event.request ≠ .call (.save .execution execution))
    (hothers : ∀ c ∈ otherCalls entries, c.Spares id) :
    r'.executions.get? id = r.executions.get? id := by
  induction h with
  | nil => rfl
  | @call r _ _ c answer _ ha _ ih =>
    obtain ⟨hevent, hown⟩ := List.forall_mem_cons.mp hown
    have hspares : c.Spares id := by
      cases c with
      | get | list | createActive => trivial
      | save kind entity =>
        cases kind with
        | execution => exact absurd rfl (hevent entity)
        | report | dashboard | widget | rule | alert => trivial
    rw [ih hown hothers, ← executions_answer r hspares, ha]
  | aside _ _ ih => exact ih (List.forall_mem_cons.mp hown).2 hothers
  | other c _ ih =>
    obtain ⟨hc, hothers⟩ := List.forall_mem_cons.mp hothers
    rw [ih hown hothers, executions_answer _ hc]

/-! ## Versions of a report -/

/-- The versions of a report that some calls save, in order. -/
def savedVersions (id : ReportId) (calls : List Call) : List Report :=
  calls.filterMap fun
    | .save .report report => if report.id = id then some report else none
    | _ => none

/-- The version of a report after a call. -/
theorem reports_answer (r : MemoryRepository) (id : ReportId) (c : Call) :
    (r.answer c).2.reports.get? id = (savedVersions id [c]).getLast?.or (r.reports.get? id) := by
  cases c with
  | get | list => rfl
  | createActive alert =>
    simp only [MemoryRepository.answer]
    split <;> rfl
  | save kind entity =>
    cases kind with
    | report =>
      refine (r.reports.get?_save entity id).trans ?_
      show (if entity.id = id then some entity else r.reports.get? id) = _
      unfold savedVersions
      rw [List.filterMap_cons]
      by_cases hid : entity.id = id
      · simp [hid]
      · simp [hid]
    | execution | dashboard | widget | rule | alert => rfl

/-- After some calls a report stands as it was saved last, or as it stood. -/
theorem reports_afterCalls (r : MemoryRepository) (id : ReportId) (calls : List Call) :
    (r.afterCalls calls).reports.get? id
      = (savedVersions id calls).getLast?.or (r.reports.get? id) := by
  induction calls generalizing r with
  | nil => rfl
  | cons c rest ih =>
    have happend : savedVersions id (c :: rest)
        = savedVersions id [c] ++ savedVersions id rest := List.filterMap_append (l := [c])
    rw [happend, List.getLast?_append, Option.or_assoc, ← reports_answer]
    exact ih _

/-! ## What is stored stays stored -/

theorem stored_put {kind other : EntityKind} {id : Id kind} {r : MemoryRepository}
    (entity : other.Entity) (h : (r.get kind).get? id ≠ none) :
    ((r.put other entity).get kind).get? id ≠ none := by
  by_cases hk : kind = other
  · subst hk
    rw [get_put_self, Table.get?_save]
    split
    · nofun
    · exact h
  · rw [get_put_of_ne r entity hk]
    exact h

theorem stored_answer {kind : EntityKind} {id : Id kind} {r : MemoryRepository} (c : Call)
    (h : (r.get kind).get? id ≠ none) : ((r.answer c).2.get kind).get? id ≠ none := by
  cases c with
  | get | list => exact h
  | save other entity => exact stored_put entity h
  | createActive alert =>
    simp only [MemoryRepository.answer]
    split
    · exact h
    · exact @stored_put kind .alert id r alert h

/-- Nothing that is stored is ever lost. -/
theorem Amid.keeps_stored {kind : EntityKind} {id : Id kind} (h : r.Amid entries r')
    (hstored : (r.get kind).get? id ≠ none) : (r'.get kind).get? id ≠ none := by
  induction h with
  | nil => exact hstored
  | @call r _ _ c _ _ ha _ ih =>
    have hnext := stored_answer c hstored
    rw [ha] at hnext
    exact ih hnext
  | aside _ _ ih => exact ih hstored
  | other c _ ih => exact ih (stored_answer c hstored)

/-- A report that is stored stays stored. -/
theorem Amid.keeps_report {id : ReportId} (h : r.Amid entries r')
    (hstored : r.reports.get? id ≠ none) : r'.reports.get? id ≠ none :=
  @Amid.keeps_stored r r' entries .report id h hstored

/-! ## Reading -/

theorem afterCalls_append (r : MemoryRepository) (calls calls' : List Call) :
    r.afterCalls (calls ++ calls') = (r.afterCalls calls).afterCalls calls' :=
  List.foldl_append

/-- An action that saves nothing leaves everything to the other writers. -/
theorem Amid.eq_afterCalls (h : r.Amid entries r')
    (hown : ∀ event ∈ ownEvents entries, event.request.SavesNothing) :
    r' = r.afterCalls (otherCalls entries) := by
  induction h with
  | nil => rfl
  | @call r _ _ c _ _ ha _ ih =>
    obtain ⟨hcall, hown⟩ := List.forall_mem_cons.mp hown
    rw [ih hown]
    cases c with
    | get | list =>
      cases ha
      rfl
    | save | createActive => exact hcall.elim
  | aside _ _ ih => exact ih (List.forall_mem_cons.mp hown).2
  | other c _ ih => exact ih hown

end MemoryRepository

/-! ## Worlds with other writers -/

section

variable {σ ε α : Type} (others : MemoryRepository → σ → List Call × σ) (outside : World σ)

/-- A repository in memory to which others write as well: until a request is answered they have
made the calls that `others` tells. -/
def MemoryRepository.shared : World (MemoryRepository × σ) := fun request (r, s) =>
  MemoryRepository.world outside request (r.afterCalls (others r s).1, (others r s).2)

/-- What happens at the repository while an action runs. -/
def Action.log : Action ε α → MemoryRepository × σ → List LogEntry
  | .stop _, _ => []
  | .ask request next, (r, s) =>
    let (answer, state) := MemoryRepository.shared others outside request (r, s)
    (others r s).1.map .other ++ .own ⟨request, answer⟩ :: (next answer).log state

variable {others outside}

theorem MemoryRepository.amid_others {r r' : MemoryRepository} {entries : List LogEntry}
    (calls : List Call) (h : (r.afterCalls calls).Amid entries r') :
    r.Amid (calls.map .other ++ entries) r' := by
  induction calls generalizing r with
  | nil => exact h
  | cons c rest ih => exact .other c (ih h)

theorem MemoryRepository.amid_own {r r' : MemoryRepository} {s : σ} {entries : List LogEntry}
    (request : Request) (h : (world outside request (r, s)).2.1.Amid entries r') :
    r.Amid (.own ⟨request, (world outside request (r, s)).1⟩ :: entries) r' := by
  cases request with
  | call c => exact .call rfl h
  | now | freshId | relational | dataset | api | putArtifact | notify | launch =>
    exact .aside (fun _ => Request.noConfusion) h

namespace Action

theorem ownEvents_log (action : Action ε α) (r : MemoryRepository) (s : σ) :
    ownEvents (action.log others outside (r, s))
      = action.trace (MemoryRepository.shared others outside) (r, s) := by
  induction action generalizing r s with
  | stop ending => rfl
  | ask request next ih =>
    have hothers : ownEvents ((others r s).1.map .other) = [] := by
      simp [ownEvents, LogEntry.event?, Function.comp_def]
    rw [Action.log, ownEvents_append, hothers, List.nil_append, ownEvents_own, ih]
    rfl

/-- The repository goes through the entries. -/
theorem amid_log (action : Action ε α) (r : MemoryRepository) (s : σ) :
    r.Amid (action.log others outside (r, s))
      (action.run (MemoryRepository.shared others outside) (r, s)).2.1 := by
  induction action generalizing r s with
  | stop ending => exact .nil
  | ask request next ih =>
    exact MemoryRepository.amid_others _ (MemoryRepository.amid_own request (ih _ _ _))

end Action

end

end Bulletin
