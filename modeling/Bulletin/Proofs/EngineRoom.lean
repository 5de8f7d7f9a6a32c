import Bulletin.Artifact.Memory
import Bulletin.Engine.Schedule
import Bulletin.Proofs.Queries
import Bulletin.Proofs.SideBySide
import Bulletin.Proofs.Tables
import Bulletin.Repository.Faulty

/-!
# The engine among others

Any number of triggers and ticks of one engine run side by side over one repository and one store of
artifacts, and reports may be edited meanwhile. A run that a trigger leaves to the background is
one more action beside the others. The repository and the store answer each request in one step;
clocks and connectors answer anything at all, and no identifier is given out twice.

* `EngineRoom.Permits` — the answers that a request may get, wherever artifacts are kept
* `EngineRoom.Answers` — those that it gets where artifacts are kept in memory
-/

namespace Bulletin

/-! ## Calls -/

/-- What a call of the engine comes to. -/
inductive EngineResult where
  | triggered (triggered : Engine.Triggered)
  | finished (execution : Execution)
  | ticked (executions : List ExecutionId)
  | edited

/-- A call of the engine, or an edit of a report. -/
inductive EngineCall where
  | trigger (id : ReportId) (cause : Trigger)
  | run (id : ReportId) (cause : Trigger)
  | tick
  | edit (report : Report)

namespace EngineCall

def action (engine : Engine) : EngineCall → Action EngineError EngineResult
  | .trigger id cause => do return .triggered (← engine.trigger id cause)
  | .run id cause => do return .finished (← engine.run id cause)
  | .tick => do return .ticked (← engine.tick)
  | .edit report => do
    Action.call .storage (.save .report report)
    return .edited

/-- Whether a call is one of the engine. -/
def ofEngine : EngineCall → Bool
  | .edit _ => false
  | .trigger _ _ | .run _ _ | .tick => true

end EngineCall

/-- A run in the background. -/
def Engine.background (engine : Engine) (report : Report) (execution : Execution) :
    Action EngineError EngineResult := do
  return .finished (← engine.conduct report execution)

/-- What an event sets going. -/
def Engine.launches (engine : Engine) : Event → List (Action EngineError EngineResult)
  | ⟨.launch report execution, _⟩ => [engine.background report execution]
  | _ => []

/-! ## The room -/

/-- What the actions share: a repository, a store of artifacts, and the identifiers that were given
out. -/
structure EngineRoom where
  repository : Repository
  store : MemoryStore
  drawn : List Uuid

/-- How a request may be answered. -/
def EngineRoom.Answers : (request : Request) → EngineRoom → request.Answer → EngineRoom → Prop
  | .call c, s, answer, s' =>
    s.repository.answer c = (answer, s'.repository) ∧ s'.store = s.store ∧ s'.drawn = s.drawn
  | .putArtifact name bytes, s, answer, s' =>
    s.store.put name bytes = (answer, s'.store) ∧ s'.repository = s.repository ∧
      s'.drawn = s.drawn
  | .freshId, s, id, s' => id ∉ s.drawn ∧ s' = { s with drawn := id :: s.drawn }
  | _, s, _, s' => s' = s

/-- How a request may be answered wherever artifacts are kept: they may get any place, or none. -/
def EngineRoom.Permits : (request : Request) → EngineRoom → request.Answer → EngineRoom → Prop
  | .putArtifact _ _, s, _, s' => s'.repository = s.repository ∧ s'.drawn = s.drawn
  | request, s, answer, s' => EngineRoom.Answers request s answer s'

theorem MemoryStore.put_ok {store store' : MemoryStore} {name path : String} {content : ByteArray}
    (h : store.put name content = (.ok path, store')) :
    store'.contents = store.contents.insert name content := by
  unfold put at h
  split at h
  · cases congrArg Prod.fst h
  · rw [← (Prod.mk.inj h).2]

theorem MemoryStore.put_error {store store' : MemoryStore} {name : String} {content : ByteArray}
    {e : ArtifactError} (h : store.put name content = (.error e, store')) : store' = store := by
  unfold put at h
  split at h
  · exact (Prod.mk.inj h).2.symm
  · cases congrArg Prod.fst h

/-- A store in memory is one of the places where artifacts may be kept. -/
theorem EngineRoom.Answers.permits {s s' : EngineRoom} {request : Request}
    {answer : request.Answer} (h : EngineRoom.Answers request s answer s') :
    EngineRoom.Permits request s answer s' := by
  cases request with
  | putArtifact name bytes => exact h.2
  | call | relational | dataset | api | now | freshId | notify | launch => exact h

namespace EngineRoom.Permits

variable {s s' : EngineRoom} {request : Request} {answer : request.Answer}

theorem repository_of_call {call : Call} {answer : call.Answer}
    (h : EngineRoom.Permits (.call call) s answer s') :
    s.repository.answer call = (answer, s'.repository) := h.1

theorem repository_of_other (h : EngineRoom.Permits request s answer s')
    (hne : ∀ call, request ≠ .call call) : s'.repository = s.repository := by
  cases request with
  | call c => exact absurd rfl (hne c)
  | putArtifact name bytes => exact h.1
  | freshId => rw [h.2]
  | relational | dataset | api | now | notify | launch => exact congrArg EngineRoom.repository h

theorem drawn_subset (h : EngineRoom.Permits request s answer s') : s.drawn ⊆ s'.drawn := by
  cases request with
  | call c =>
    rw [h.2.2]
    exact List.Subset.refl _
  | putArtifact name bytes =>
    rw [h.2]
    exact List.Subset.refl _
  | freshId =>
    rw [h.2]
    exact List.subset_cons_self _ _
  | relational | dataset | api | now | notify | launch =>
    rw [show s' = s from h]
    exact List.Subset.refl _

end EngineRoom.Permits

namespace EngineRoom.Answers

variable {s s' : EngineRoom} {request : Request} {answer : request.Answer}

theorem repository_of_call {call : Call} {answer : call.Answer}
    (h : EngineRoom.Answers (.call call) s answer s') :
    s'.repository = (s.repository.answer call).2 :=
  (congrArg Prod.snd h.1).symm

theorem repository_of_other (h : EngineRoom.Answers request s answer s')
    (hne : ∀ call, request ≠ .call call) : s'.repository = s.repository :=
  h.permits.repository_of_other hne

theorem drawn_subset (h : EngineRoom.Answers request s answer s') : s.drawn ⊆ s'.drawn :=
  h.permits.drawn_subset

/-- A file that is written stands under its name. -/
theorem get?_put {name path : String} {content : ByteArray}
    (h : EngineRoom.Answers (.putArtifact name content) s (.ok path) s') :
    s'.store.contents.get? name = some content := by
  rw [MemoryStore.put_ok h.1, Fields.get?_insert, if_pos rfl]

/-- What stands under a name stays there unless something is written under the name. -/
theorem get?_of_other {name : String} (h : EngineRoom.Answers request s answer s')
    (hne : ∀ content path, (⟨request, answer⟩ : Event) ≠ ⟨.putArtifact name content, .ok path⟩) :
    s'.store.contents.get? name = s.store.contents.get? name := by
  cases request with
  | putArtifact other content =>
    cases answer with
    | error e => rw [MemoryStore.put_error h.1]
    | ok path =>
      have hname : other ≠ name := fun he => hne content path (he ▸ rfl)
      rw [MemoryStore.put_ok h.1, Fields.get?_insert, if_neg hname]
  | call c => rw [h.2.1]
  | freshId => rw [h.2]
  | relational | dataset | api | now | notify | launch => rw [show s' = s from h]

end EngineRoom.Answers

/-- The setting of an engine at work. -/
def engineSetting (engine : Engine) : Setting EngineRoom EngineError EngineResult where
  answers := EngineRoom.Answers
  launches := engine.launches
  forks _ := []

/-- The setting of an engine at work, wherever artifacts are kept. -/
def openSetting (engine : Engine) : Setting EngineRoom EngineError EngineResult :=
  { engineSetting engine with answers := EngineRoom.Permits }

/-- Some calls about to begin in a room. -/
def engineScene (engine : Engine) (calls : List EngineCall) (s : EngineRoom) :
    Scene EngineRoom EngineError EngineResult :=
  .begin (calls.map (EngineCall.action engine)) s

variable {engine : Engine} {c c' : Scene EngineRoom EngineError EngineResult}

/-- A turn changes the room as its answer says. -/
theorem answers_of_takes {turn : Turn} (h : Takes (engineSetting engine) c turn c') :
    EngineRoom.Answers turn.event.request c.state turn.event.answer c'.state := by
  cases h with
  | ask ha => exact ha

/-- An action that has ended leaves the room as it is. -/
theorem room_of_fork (h : Step (engineSetting engine) c none c') : c'.state = c.state := by
  cases h
  rfl

/-! ## Protocols -/

/-- The parts of which all calls of an engine are made obey a protocol. What holds when an execution
has begun is what its run needs. -/
structure Engine.Respects (engine : Engine) (rule : Protocol)
    (begun : List Event → Report → Execution → Prop) : Prop where
  now : ∀ past, rule past .now
  list : ∀ past, rule past (.call (.list .report ()))
  start : ∀ id cause past, (Engine.start id cause).Obeys rule (fun past ending =>
    ∀ report execution, ending = .value (.started report execution) →
      begun past report execution) past
  conduct : ∀ report execution past, begun past report execution →
    (engine.conduct report execution : Action EngineError Execution).Obeys rule
      (fun _ _ => True) past
  launch : ∀ report execution past, begun past report execution →
    rule past (.launch report execution)
  stampDue : ∀ id now past, (Engine.stampDue id now).Obeys rule (fun _ _ => True) past

namespace Engine.Respects

variable {rule : Protocol} {begun : List Event → Report → Execution → Prop}

theorem trigger (h : engine.Respects rule begun) (id : ReportId) (cause : Trigger)
    (past : List Event) : (engine.trigger id cause).Obeys rule (fun _ _ => True) past := by
  refine Action.obeys_bind.mpr ((h.start id cause past).imp ?_)
  rintro past (_ | _ | _) hbegun
  · next begun =>
    cases begun with
    | served execution => trivial
    | started report execution =>
      dsimp only
      split
      · exact (h.conduct report execution past (hbegun _ _ rfl)).bind fun _ _ => trivial
      · exact Action.obeys_request_bind.mpr
          ⟨h.launch report execution past (hbegun _ _ rfl), fun _ => trivial⟩
  · trivial
  · trivial

theorem run (h : engine.Respects rule begun) (id : ReportId) (cause : Trigger)
    (past : List Event) : (engine.run id cause).Obeys rule (fun _ _ => True) past := by
  refine Action.obeys_bind.mpr ((h.start id cause past).imp ?_)
  rintro past (_ | _ | _) hbegun
  · next begun =>
    cases begun with
    | served execution => trivial
    | started report execution => exact h.conduct report execution past (hbegun _ _ rfl)
  · trivial
  · trivial

theorem tickReport (h : engine.Respects rule begun) (now : Instant) (listed : Report)
    (past : List Event) :
    (engine.tickReport now listed).Obeys rule (fun _ _ => True) past := by
  unfold Engine.tickReport
  cases listed.due now with
  | none => trivial
  | some due =>
    cases due with
    | false => trivial
    | true =>
      refine (h.stampDue listed.id now past).bind fun past stamped => ?_
      cases stamped with
      | false => trivial
      | true =>
        refine ((h.trigger listed.id .scheduled past).result).bind ?_
        rintro past (_ | _) <;> trivial

theorem tickReports (h : engine.Respects rule begun) (now : Instant) (reports : List Report)
    (past : List Event) :
    (engine.tickReports now reports).Obeys rule (fun _ _ => True) past := by
  induction reports generalizing past with
  | nil => trivial
  | cons listed rest ih =>
    refine (h.tickReport now listed past).bind fun past execution => ?_
    exact (ih past).bind fun _ _ => trivial

/-- Every call obeys the protocol, if the edits among them do. -/
theorem call (h : engine.Respects rule begun) {call : EngineCall}
    (hedit : ∀ report, call = .edit report → rule [] (.call (.save .report report))) :
    (call.action engine).Obeys rule (fun _ _ => True) [] := by
  cases call with
  | trigger id cause => exact (h.trigger id cause []).bind fun _ _ => trivial
  | run id cause => exact (h.run id cause []).bind fun _ _ => trivial
  | tick =>
    refine Action.Obeys.bind ?_ fun _ _ => trivial
    refine Action.obeys_request_bind.mpr ⟨h.now _, fun now => ?_⟩
    refine Action.obeys_call_bind.mpr ⟨h.list _, fun reports => ?_, fun _ => trivial⟩
    exact h.tickReports now reports _
  | edit report =>
    exact Action.obeys_call_bind.mpr ⟨hedit report rfl, fun _ => trivial, fun _ => trivial⟩

theorem background (h : engine.Respects rule begun) {report : Report} {execution : Execution}
    (hbegun : begun [] report execution) :
    (engine.background report execution).Obeys rule (fun _ _ => True) [] :=
  (h.conduct report execution [] hbegun).bind fun _ _ => trivial

end Engine.Respects

/-- The engine obeys a protocol if its calls and its runs in the background do. -/
theorem engineSetting_obeys {rule : Protocol}
    (h : ∀ report execution, (engine.background report execution).Obeys rule (fun _ _ => True) []) :
    (engineSetting engine).Obeys rule where
  launches event action ha := by
    change action ∈ engine.launches event at ha
    unfold Engine.launches at ha
    split at ha
    · obtain rfl := List.mem_singleton.mp ha
      exact h _ _
    · cases ha
  forks _ _ ha := absurd ha List.not_mem_nil

theorem engineScene_obeys {rule : Protocol} {calls : List EngineCall} {s : EngineRoom}
    (h : ∀ call ∈ calls, (call.action engine).Obeys rule (fun _ _ => True) []) :
    (engineScene engine calls s).Obeys rule := by
  refine Scene.obeys_begin fun action ha => ?_
  obtain ⟨call, hcall, rfl⟩ := List.mem_map.mp ha
  exact h call hcall

/-! ## A room at work -/

/-- A world in which every dataset has the same rows, or is missing, and time stands still. -/
def EngineRoom.still (rows : Option (List Record)) (now : Instant) : World EngineRoom
  | .call c, s => ((s.repository.answer c).1, { s with repository := (s.repository.answer c).2 })
  | .relational _ _, s => (.value (rows.getD []), s)
  | .dataset _, s => (.value rows, s)
  | .api _, s => (.value (rows.getD []), s)
  | .now, s => (now, s)
  | .freshId, s => (.ofNat s.drawn.length, { s with drawn := .ofNat s.drawn.length :: s.drawn })
  | .putArtifact name bytes, s =>
    ((s.store.put name bytes).1, { s with store := (s.store.put name bytes).2 })
  | .notify _ _, s => (.ok (), s)
  | .launch _ _, s => ((), s)

end Bulletin
