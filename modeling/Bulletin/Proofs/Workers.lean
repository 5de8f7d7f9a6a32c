import Bulletin.Proofs.ExecutionsInHand

/-!
# Workers

The actions under way, each with the run that it was set going with. No execution is in the hands of
two of them: an identifier that is drawn is new, and a run that is left to the background leaves the
hand that it was in. So nobody writes over the files of an execution that another one has in hand.

* `hands_event` — what one event brings to hand
* `inHands_turn` — no execution is in two hands
* `Custody` — the workers keep to what they have in hand, turn after turn
* `Worker.KeepsFiles` — the files of an execution in hand stay as they were written
-/

namespace Bulletin

/-! ## Executions in hand -/

/-- An action under way, with the run that it was set going with, if it is one in the background. -/
structure Worker where
  given : Option (Report × Execution)
  thread : Thread EngineError EngineResult

namespace Worker

def hands (w : Worker) : List ExecutionId := Bulletin.hands w.given w.thread.past

/-- The worker after one more event. -/
def next (w : Worker) (event : Event) (rest : Action EngineError EngineResult) : Worker :=
  ⟨w.given, event :: w.thread.past, rest⟩

def Obeys (engine : Engine) (w : Worker) : Prop :=
  w.thread.rest.Obeys (executionProtocol engine w.given) (fun _ _ => True) w.thread.past

/-- What the worker has written last under a name is the file of an execution, and stands there as
long as it has the execution in hand. -/
def KeepsFiles (w : Worker) (room : EngineRoom) : Prop :=
  ∀ name content, written? name w.thread.past = some content →
    ∃ id format, Document.filename? id format = some name ∧ id.uuid ∈ room.drawn ∧
      (id ∈ w.hands → room.store.contents.get? name = some content)

end Worker

/-- The workers that an event sets going. -/
def Engine.hires (engine : Engine) : Event → List Worker
  | ⟨.launch report execution, _⟩ =>
    [⟨some (report, execution), .begin (engine.background report execution)⟩]
  | _ => []

theorem map_thread_hires (engine : Engine) (event : Event) :
    (engine.hires event).map Worker.thread = (engine.launches event).map Thread.begin := by
  obtain ⟨request, answer⟩ := event
  cases request <;> rfl

/-- All executions in hand. -/
def inHands (workers : List Worker) : List ExecutionId := workers.flatMap Worker.hands

variable {engine : Engine} {before after : List Worker} {w : Worker} {request : Request}
  {answer : request.Answer} {room room' : EngineRoom}

/-- The executions in hand of a worker, after an event, and of those that it sets going. -/
theorem hands_event (next : Action EngineError EngineResult)
    (hallowed : executionProtocol engine w.given w.thread.past request)
    (ha : EngineRoom.Permits request room answer room') (hdistinct : w.hands.Nodup)
    (hdrawn : ∀ id ∈ w.hands, id.uuid ∈ room.drawn) :
    ((w.next ⟨request, answer⟩ next).hands ++ inHands (engine.hires ⟨request, answer⟩)).Nodup ∧
      ∀ id ∈ (w.next ⟨request, answer⟩ next).hands ++ inHands (engine.hires ⟨request, answer⟩),
        id ∈ w.hands ∨ id.uuid ∉ room.drawn ∧ id.uuid ∈ room'.drawn := by
  -- nothing new comes to hand unless an identifier is drawn or a run is launched
  have hkept : ∀ ids : List ExecutionId, ids.Sublist w.hands → (ids ++ inHands []).Nodup ∧
      ∀ id ∈ ids ++ inHands [], id ∈ w.hands ∨ id.uuid ∉ room.drawn ∧ id.uuid ∈ room'.drawn := by
    intro ids hsub
    change (ids ++ []).Nodup ∧ ∀ id ∈ ids ++ [], _
    rw [List.append_nil]
    exact ⟨hdistinct.sublist hsub, fun id hmem => .inl (hsub.subset hmem)⟩
  cases request with
  | freshId =>
    obtain ⟨hfresh, hroom⟩ := ha
    let new : ExecutionId := ⟨answer⟩
    change ((new :: w.hands) ++ []).Nodup ∧ ∀ id ∈ (new :: w.hands) ++ [], _
    rw [List.append_nil]
    refine ⟨List.nodup_cons.mpr ⟨fun hmem => hfresh (hdrawn _ hmem), hdistinct⟩, ?_⟩
    refine List.forall_mem_cons.mpr ⟨.inr ⟨hfresh, ?_⟩, fun id hmem => .inl hmem⟩
    rw [hroom]
    exact List.mem_cons_self
  | launch report execution =>
    have hperm : w.hands.Perm (w.hands.erase execution.id ++ [execution.id]) :=
      (List.perm_cons_erase hallowed.inHand).trans (List.perm_append_singleton _ _).symm
    exact ⟨hperm.nodup hdistinct, fun id hmem => .inl (hperm.mem_iff.mpr hmem)⟩
  | call c =>
    cases c with
    | save kind entity =>
      cases kind with
      | execution =>
        refine hkept (if entity.status.terminal then w.hands.erase entity.id else w.hands) ?_
        split
        · exact List.erase_sublist
        · exact List.Sublist.refl _
      | report | dashboard | widget | rule | alert => exact hkept _ (List.Sublist.refl _)
    | get | list | createActive => exact hkept _ (List.Sublist.refl _)
  | relational | dataset | api | now | putArtifact | notify =>
    exact hkept _ (List.Sublist.refl _)

/-- The executions in hand of one worker and of those it has hired, and those of the others. -/
theorem inHands_perm (before after hired : List Worker) (w : Worker) :
    (inHands (before ++ w :: (after ++ hired))).Perm
      ((w.hands ++ inHands hired) ++ inHands (before ++ after)) := by
  have hworkers : (before ++ w :: (after ++ hired)).Perm ((w :: hired) ++ (before ++ after)) := by
    refine List.perm_middle.trans (.cons w ?_)
    rw [← List.append_assoc]
    exact List.perm_append_comm
  refine (hworkers.flatMap_right Worker.hands).trans (.of_eq ?_)
  rw [List.flatMap_append, List.flatMap_cons]
  rfl

theorem inHands_perm_of_one (before after : List Worker) (w : Worker) :
    (inHands (before ++ w :: after)).Perm (w.hands ++ inHands (before ++ after)) := by
  have hperm := inHands_perm before after [] w
  have hnobody : w.hands ++ inHands [] = w.hands := List.append_nil _
  rwa [List.append_nil, hnobody] at hperm

/-- What one worker has in hand, the others have not. -/
theorem hands_apart (hdistinct : (inHands (before ++ w :: after)).Nodup) :
    w.hands.Nodup ∧ ∀ v ∈ before ++ after, ∀ id ∈ v.hands, id ∉ w.hands := by
  obtain ⟨hown, -, hapart⟩ :=
    List.nodup_append.mp ((inHands_perm_of_one before after w).nodup hdistinct)
  refine ⟨hown, fun v hv id hid hmem => ?_⟩
  exact hapart id hmem id (List.mem_flatMap.mpr ⟨v, hv, hid⟩) rfl

/-- A turn leaves no execution in two hands, and brings only new ones to hand. -/
theorem inHands_turn (next : Action EngineError EngineResult)
    (hallowed : executionProtocol engine w.given w.thread.past request)
    (ha : EngineRoom.Permits request room answer room')
    (hdistinct : (inHands (before ++ w :: after)).Nodup)
    (hdrawn : ∀ id ∈ inHands (before ++ w :: after), id.uuid ∈ room.drawn) :
    let workers := before ++ w.next ⟨request, answer⟩ next ::
      (after ++ engine.hires ⟨request, answer⟩)
    (inHands workers).Nodup ∧ ∀ id ∈ inHands workers,
      id ∈ inHands (before ++ w :: after) ∨ id.uuid ∉ room.drawn ∧ id.uuid ∈ room'.drawn := by
  intro workers
  have hold := inHands_perm_of_one before after w
  have hnew := inHands_perm before after (engine.hires ⟨request, answer⟩)
    (w.next ⟨request, answer⟩ next)
  obtain ⟨hown, hothers, hapart⟩ := List.nodup_append.mp (hold.nodup hdistinct)
  have hdrawn' : ∀ id ∈ w.hands ++ inHands (before ++ after), id.uuid ∈ room.drawn :=
    fun id hmem => hdrawn id (hold.mem_iff.mpr hmem)
  obtain ⟨hdrawnOwn, hdrawnOthers⟩ := List.forall_mem_append.mp hdrawn'
  obtain ⟨hevent, hfrom⟩ := hands_event next hallowed ha hown hdrawnOwn
  refine ⟨hnew.symm.nodup (List.nodup_append.mpr ⟨hevent, hothers, ?_⟩), ?_⟩
  · rintro id hid _ hother rfl
    rcases hfrom id hid with hid | ⟨hfresh, -⟩
    · exact hapart id hid id hother rfl
    · exact hfresh (hdrawnOthers id hother)
  · intro id hid
    rcases List.mem_append.mp (hnew.mem_iff.mp hid) with hid | hid
    · exact (hfrom id hid).imp_left fun hmem => hold.mem_iff.mpr (List.mem_append_left _ hmem)
    · exact .inl (hold.mem_iff.mpr (List.mem_append_right _ hid))

/-! ## Custody -/

/-- What is in hand before an event stays in hand, unless the last version of it is saved. -/
theorem mem_hands_next (answer : request.Answer) (next : Action EngineError EngineResult)
    (hallowed : executionProtocol engine w.given w.thread.past request) {id : ExecutionId}
    (hid : id ∈ w.hands) :
    id ∈ (w.next ⟨request, answer⟩ next).hands ++ inHands (engine.hires ⟨request, answer⟩) ∨
      ∃ execution : Execution, request = .call (.save .execution execution) ∧ execution.id = id ∧
        execution.status.terminal = true := by
  cases request with
  | freshId => exact .inl (List.mem_append_left _ (List.mem_cons_of_mem _ hid))
  | launch report execution =>
    refine .inl ?_
    change id ∈ w.hands.erase execution.id ++ [execution.id]
    exact (List.perm_append_singleton _ _).symm.mem_iff.mp
      ((List.perm_cons_erase hallowed.inHand).mem_iff.mp hid)
  | call c =>
    cases c with
    | save kind entity =>
      cases kind with
      | execution =>
        by_cases hlast : entity.status.terminal = true ∧ entity.id = id
        · exact .inr ⟨entity, rfl, hlast.2, hlast.1⟩
        · refine .inl (List.mem_append_left _ ?_)
          change id ∈ if entity.status.terminal then w.hands.erase entity.id else w.hands
          split
          · next hterminal =>
            exact (List.mem_erase_of_ne fun he => hlast ⟨hterminal, he.symm⟩).mpr hid
          · exact hid
      | report | dashboard | widget | rule | alert => exact .inl (List.mem_append_left _ hid)
    | get | list | createActive => exact .inl (List.mem_append_left _ hid)
  | relational | dataset | api | now | putArtifact | notify =>
    exact .inl (List.mem_append_left _ hid)

theorem mem_hires {event : Event} {v : Worker} (h : v ∈ engine.hires event) :
    ∃ report execution, event = ⟨.launch report execution, ()⟩ ∧
      v = ⟨some (report, execution), .begin (engine.background report execution)⟩ := by
  unfold Engine.hires at h
  split at h
  · exact ⟨_, _, rfl, List.mem_singleton.mp h⟩
  · cases h

theorem mem_workers {hired : List Worker} {v w' : Worker} :
    v ∈ before ++ w' :: (after ++ hired) ↔ v = w' ∨ v ∈ before ++ after ∨ v ∈ hired := by
  simp only [List.mem_append, List.mem_cons]
  tauto

theorem mem_workers_of_other {v : Worker} (h : v ∈ before ++ after) : v ∈ before ++ w :: after := by
  rcases List.mem_append.mp h with h | h
  · exact List.mem_append_left _ h
  · exact List.mem_append_right _ (List.mem_cons_of_mem _ h)

section

variable {next : request.Answer → Action EngineError EngineResult}
  (rule : Option (Report × Execution) → Protocol)
  (post : Option (Report × Execution) → List Event → Ending EngineError EngineResult → Prop)

/-- What is asked in a turn is allowed to the worker who takes it. -/
theorem allowed_of_obeys
    (h : ∀ v ∈ before ++ w :: after,
      v.thread.rest.Obeys (rule v.given) (post v.given) v.thread.past)
    (hrest : w.thread.rest = .ask request next) : rule w.given w.thread.past request := by
  have hobeys := h w (by simp)
  rw [hrest] at hobeys
  exact hobeys.1

/-- Workers go on to obey a protocol, if the runs that are launched do. -/
theorem forall_obeys_of_turn
    (h : ∀ v ∈ before ++ w :: after,
      v.thread.rest.Obeys (rule v.given) (post v.given) v.thread.past)
    (hrest : w.thread.rest = .ask request next)
    (hlaunch : ∀ report execution, request = .launch report execution →
      (engine.background report execution).Obeys (rule (some (report, execution)))
        (post (some (report, execution))) []) :
    ∀ v ∈ before ++ w.next ⟨request, answer⟩ (next answer) ::
        (after ++ engine.hires ⟨request, answer⟩),
      v.thread.rest.Obeys (rule v.given) (post v.given) v.thread.past := by
  intro v hv
  rcases mem_workers.mp hv with rfl | hv | hv
  · have hobeys := h w (by simp)
    rw [hrest] at hobeys
    exact hobeys.2 answer
  · exact h v (mem_workers_of_other hv)
  · obtain ⟨report, execution, he, rfl⟩ := mem_hires hv
    cases he
    exact hlaunch report execution rfl

/-- What holds of all runs that workers were set going with goes on to hold, if it holds of those
that are launched. -/
theorem forall_given_of_turn {P : Report → Execution → Prop}
    (h : ∀ v ∈ before ++ w :: after, ∀ report execution, v.given = some (report, execution) →
      P report execution)
    (hlaunch : ∀ report execution, request = .launch report execution → P report execution) :
    ∀ v ∈ before ++ w.next ⟨request, answer⟩ (next answer) ::
        (after ++ engine.hires ⟨request, answer⟩),
      ∀ report execution, v.given = some (report, execution) → P report execution := by
  intro v hv report execution hgiven
  rcases mem_workers.mp hv with rfl | hv | hv
  · exact h w (by simp) report execution hgiven
  · exact h v (mem_workers_of_other hv) report execution hgiven
  · obtain ⟨report', execution', he, rfl⟩ := mem_hires hv
    cases he
    cases hgiven
    exact hlaunch report execution rfl

end

/-- Workers who keep to what they have in hand. -/
structure Custody (engine : Engine) (workers : List Worker) (room : EngineRoom) : Prop where
  obeys : ∀ w ∈ workers, w.Obeys engine
  /-- no execution is in two hands -/
  distinct : (inHands workers).Nodup
  drawn : ∀ id ∈ inHands workers, id.uuid ∈ room.drawn

/-- Calls that are about to begin. -/
def newcomers (engine : Engine) (calls : List EngineCall) : List Worker :=
  calls.map fun call => ⟨none, .begin (call.action engine)⟩

theorem inHands_newcomers (engine : Engine) (calls : List EngineCall) :
    inHands (newcomers engine calls) = [] := by
  refine List.flatMap_eq_nil_iff.mpr fun w hw => ?_
  obtain ⟨call, -, rfl⟩ := List.mem_map.mp hw
  rfl

theorem map_thread_newcomers {calls : List EngineCall} :
    (newcomers engine calls).map Worker.thread = (engineScene engine calls room).threads := by
  change _ = (calls.map (EngineCall.action engine)).map Thread.begin
  unfold newcomers
  rw [List.map_map, List.map_map]
  rfl

/-- Of the workers, one takes the turn. -/
theorem Takes.exists_worker {S : Setting EngineRoom EngineError EngineResult}
    {c c' : Scene EngineRoom EngineError EngineResult} {turn : Turn} {workers : List Worker}
    (hS : S.launches = engine.launches) (h : Takes S c turn c')
    (hthreads : workers.map Worker.thread = c.threads) :
    ∃ (before : List Worker) (w : Worker) (after : List Worker) (request : Request)
      (next : request.Answer → Action EngineError EngineResult) (answer : request.Answer),
      workers = before ++ w :: after ∧ w.thread.rest = .ask request next ∧
        turn = ⟨w.thread.past, ⟨request, answer⟩⟩ ∧
        S.answers request c.state answer c'.state ∧
        (before ++ w.next ⟨request, answer⟩ (next answer) ::
          (after ++ engine.hires ⟨request, answer⟩)).map Worker.thread = c'.threads := by
  cases h with
  | @ask before after past request next s s' answer ha =>
    obtain ⟨wb, rest, rfl, rfl, hrest⟩ := List.map_eq_append_iff.mp hthreads
    obtain ⟨w, wa, rfl, hw, rfl⟩ := List.map_eq_cons_iff.mp hrest
    obtain ⟨given, thread⟩ := w
    obtain rfl : thread = ⟨past, .ask request next⟩ := hw
    refine ⟨wb, _, wa, request, next, answer, rfl, rfl, rfl, ha, ?_⟩
    rw [List.map_append, List.map_cons, List.map_append, map_thread_hires, hS]
    rfl

namespace Custody

theorem start (engine : Engine) (calls : List EngineCall) (room : EngineRoom) :
    Custody engine (newcomers engine calls) room := by
  refine ⟨fun w hw => ?_, ?_, ?_⟩
  · obtain ⟨call, -, rfl⟩ := List.mem_map.mp hw
    exact inHand_call engine call
  · rw [inHands_newcomers]
    exact List.nodup_nil
  · rw [inHands_newcomers]
    exact fun _ hid => nomatch hid

variable {next : request.Answer → Action EngineError EngineResult}

theorem allowed (h : Custody engine (before ++ w :: after) room)
    (hrest : w.thread.rest = .ask request next) :
    executionProtocol engine w.given w.thread.past request :=
  allowed_of_obeys (executionProtocol engine) (fun _ _ _ => True) h.obeys hrest

/-- What is in hand after a turn, was so before or is new. -/
theorem inHand_of_turn (h : Custody engine (before ++ w :: after) room)
    (hrest : w.thread.rest = .ask request next)
    (ha : EngineRoom.Permits request room answer room') {id : ExecutionId}
    (hid : id ∈ inHands (before ++ w.next ⟨request, answer⟩ (next answer) ::
      (after ++ engine.hires ⟨request, answer⟩))) :
    id ∈ inHands (before ++ w :: after) ∨ id.uuid ∉ room.drawn ∧ id.uuid ∈ room'.drawn :=
  (inHands_turn (next answer) (h.allowed hrest) ha h.distinct h.drawn).2 id hid

/-- What leaves the hands in a turn, has been saved for the last time. -/
theorem saved_of_turn (h : Custody engine (before ++ w :: after) room)
    (hrest : w.thread.rest = .ask request next) {id : ExecutionId}
    (hid : id ∈ inHands (before ++ w :: after))
    (hnot : id ∉ inHands (before ++ w.next ⟨request, answer⟩ (next answer) ::
      (after ++ engine.hires ⟨request, answer⟩))) :
    ∃ execution : Execution, request = .call (.save .execution execution) ∧ execution.id = id ∧
      execution.status.terminal = true := by
  have hnew := inHands_perm before after (engine.hires ⟨request, answer⟩)
    (w.next ⟨request, answer⟩ (next answer))
  rcases List.mem_append.mp ((inHands_perm_of_one before after w).mem_iff.mp hid) with hid | hid
  · refine (mem_hands_next answer (next answer) (h.allowed hrest) hid).resolve_left fun hkept => ?_
    exact hnot (hnew.mem_iff.mpr (List.mem_append_left _ hkept))
  · exact absurd (hnew.mem_iff.mpr (List.mem_append_right _ hid)) hnot

/-- **One turn.** -/
theorem turn (h : Custody engine (before ++ w :: after) room)
    (hrest : w.thread.rest = .ask request next)
    (ha : EngineRoom.Permits request room answer room') :
    Custody engine (before ++ w.next ⟨request, answer⟩ (next answer) ::
      (after ++ engine.hires ⟨request, answer⟩)) room' := by
  have hallowed := h.allowed hrest
  refine ⟨forall_obeys_of_turn (executionProtocol engine) (fun _ _ _ => True) h.obeys hrest ?_, ?_,
    fun id hid => ?_⟩
  · rintro report execution rfl
    exact inHand_background hallowed.reportId hallowed.running
  · exact (inHands_turn (next answer) hallowed ha h.distinct h.drawn).1
  · rcases h.inHand_of_turn hrest ha hid with hid | ⟨-, hdrawn⟩
    · exact ha.drawn_subset (h.drawn id hid)
    · exact hdrawn

end Custody

/-! ## Files -/

/-- A worker leaves alone the files of executions that it has not in hand. -/
theorem get?_of_not_inHand (hallowed : executionProtocol engine w.given w.thread.past request)
    (ha : EngineRoom.Answers request room answer room') {id : ExecutionId}
    {format : OutputFormat} {name : String} (hname : Document.filename? id format = some name)
    (hid : id ∉ w.hands) :
    room'.store.contents.get? name = room.store.contents.get? name := by
  refine ha.get?_of_other fun content path he => ?_
  cases he
  obtain ⟨id', hin, format', hname'⟩ := hallowed
  obtain ⟨rfl, -⟩ := Document.filename?_injective hname hname'
  exact hid hin

theorem Worker.KeepsFiles.other
    (hallowed : executionProtocol engine w.given w.thread.past request)
    (ha : EngineRoom.Answers request room answer room') {v : Worker} (hv : v.KeepsFiles room)
    (hapart : ∀ id ∈ v.hands, id ∉ w.hands) : v.KeepsFiles room' := by
  intro name content hwritten
  obtain ⟨id, format, hname, hdrawn, hkept⟩ := hv name content hwritten
  refine ⟨id, format, hname, ha.drawn_subset hdrawn, fun hid => ?_⟩
  rw [get?_of_not_inHand hallowed ha hname (hapart id hid)]
  exact hkept hid

theorem Worker.KeepsFiles.own {next : Action EngineError EngineResult}
    (hallowed : executionProtocol engine w.given w.thread.past request)
    (ha : EngineRoom.Answers request room answer room') (hw : w.KeepsFiles room)
    (hdistinct : w.hands.Nodup) (hdrawn : ∀ id ∈ w.hands, id.uuid ∈ room.drawn) :
    (w.next ⟨request, answer⟩ next).KeepsFiles room' := by
  intro name content hwritten
  change written? name (⟨request, answer⟩ :: w.thread.past) = some content at hwritten
  unfold written? at hwritten
  rw [List.findSome?_cons] at hwritten
  cases hwrote : Event.wrote? name ⟨request, answer⟩ with
  | some written =>
    rw [hwrote] at hwritten
    cases hwritten
    obtain ⟨path, he⟩ := Event.wrote?_eq_some_iff.mp hwrote
    cases he
    obtain ⟨id, hin, format, hname⟩ := hallowed
    exact ⟨id, format, hname, ha.drawn_subset (hdrawn id hin), fun _ => ha.get?_put⟩
  | none =>
    rw [hwrote] at hwritten
    obtain ⟨id, format, hname, hknown, hkept⟩ := hw name content hwritten
    refine ⟨id, format, hname, ha.drawn_subset hknown, fun hid => ?_⟩
    have hother := ha.get?_of_other fun content path he => by
      rw [he, Event.wrote?_eq_some_iff.mpr ⟨path, rfl⟩] at hwrote
      cases hwrote
    rw [hother]
    obtain ⟨-, hfrom⟩ := hands_event next hallowed ha.permits hdistinct hdrawn
    rcases hfrom id (List.mem_append_left _ hid) with hin | ⟨hfresh, -⟩
    · exact hkept hin
    · exact absurd hknown hfresh

end Bulletin
