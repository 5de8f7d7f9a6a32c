import Bulletin.Proofs.CacheHistory
import Bulletin.Proofs.StandingResults

/-!
# What a run records

A trigger saves its execution for the last time either with a payload from the cache that it was
just shown, or right after a run, with what the run came to. A report is saved only to renew its
cache: with the payload of a run that has just succeeded, and with the time that was just read.

All of this is said of one action by itself, in terms of what it was answered so far. Nothing is
said about who answers.

* `Engine.Ends`, `Serves`, `Engine.Renews` — the three ways to record something for good
* `recordProtocol` — nothing else is recorded
* `Engine.Settled` — an action that has ended has nothing in hand, and its success is in the cache
* `records_trigger`, `records_background` — all triggers and their runs keep to this
-/

namespace Bulletin

/-! ## Records -/

/-- The report with what a success has written to its cache, if there was one. -/
def Report.refreshed (report : Report) (success : Option (Json × Instant)) : Report :=
  { report with cache := report.cache.refreshed success }

/-- An execution of a report as it is when its run begins. -/
def Report.Begun (report : Report) (execution : Execution) : Prop :=
  ∃ cause created begun, execution = .running execution.id report.id cause created begun

/-- The last that was done was a run of a report, which came to an end; then the clock was read. An
execution records this. -/
def Engine.Ends (engine : Engine) (report : Report) (ending : Ending EngineError Engine.Output)
    (past : List Event) (final : Execution) : Prop :=
  ∃ cause created begun asked now earlier,
    past = ⟨.now, now⟩ :: (asked.reverse ++ earlier) ∧
      (engine.pipeline report final.id).Yields asked ending ∧
      final = (Engine.settle (.running final.id report.id cause created begun) ending now).1

/-- A report was shown, and its cache may serve a payload. An execution records this. -/
def Serves (past : List Event) (execution : Execution) : Prop :=
  ∃ id report now fresh payload earlier,
    past = ⟨.freshId, fresh⟩ :: ⟨.now, now⟩ :: ⟨.call (.get .report id), .ok (some report)⟩ ::
        earlier ∧
      report.cache.fresh now = some (some payload) ∧
      execution = .cached ⟨fresh⟩ report.id payload now

/-- A run of a report has succeeded and its execution was saved; then a report was shown and the
clock was read. The update of the report records the payload and this time. -/
def Engine.Renews (engine : Engine) (report : Report) (output : Engine.Output) (written : Instant)
    (past : List Event) (updated : Report) : Prop :=
  ∃ final saved stored earlier,
    past = ⟨.now, written⟩ :: ⟨.call (.get .report report.id), .ok (some stored)⟩ ::
        ⟨.call (.save .execution final), saved⟩ :: earlier ∧
      engine.Ends report (.value output) earlier final ∧
      updated = { stored with cache := stored.cache.store output.payload written }

/-- What an execution tells about the end of its run. -/
def Execution.Tells (execution : Execution) : Ending EngineError Engine.Output → Prop
  | .value output => execution.status = .completed ∧ execution.payload = some output.payload ∧
      execution.artifacts = output.artifacts ∧ execution.error = none
  | .error e => execution.status = .failed ∧ execution.payload = none ∧
      execution.error = some e.message
  | .crash c => execution.status = .failed ∧ execution.payload = none ∧
      execution.error = some (EngineError.execution c.message).message

section

variable {engine : Engine} {report : Report} {ending : Ending EngineError Engine.Output}
  {past : List Event} {final : Execution}

theorem settle_running (id : ExecutionId) (cause : Trigger) (created begun now : Instant)
    (ending : Ending EngineError Engine.Output) :
    let final := (Engine.settle (.running id report.id cause created begun) ending now).1
    final.id = id ∧ final.reportId = report.id ∧ final.Tells ending := by
  cases ending with
  | value output => exact ⟨rfl, rfl, rfl, rfl, rfl, rfl⟩
  | error e => exact ⟨rfl, rfl, rfl, rfl, rfl⟩
  | crash c => exact ⟨rfl, rfl, rfl, rfl, rfl⟩

theorem Engine.Ends.tells (h : engine.Ends report ending past final) :
    final.reportId = report.id ∧ final.Tells ending := by
  obtain ⟨cause, created, begun, asked, now, earlier, -, -, hfinal⟩ := h
  rw [hfinal]
  exact (settle_running _ cause created begun now ending).2

theorem Execution.Tells.terminal (h : final.Tells ending) : final.status.terminal = true := by
  cases ending <;> rw [h.1] <;> rfl

/-- A run does not depend on the cache of its report. -/
theorem ends_refreshed {success : Option (Json × Instant)} :
    engine.Ends (report.refreshed success) ending past final ↔
      engine.Ends report ending past final := Iff.rfl

theorem renews_refreshed {success : Option (Json × Instant)} {output : Engine.Output}
    {written : Instant} {updated : Report} :
    engine.Renews (report.refreshed success) output written past updated ↔
      engine.Renews report output written past updated := Iff.rfl

end

/-! ## The protocol -/

/-- Only ends of runs, payloads from caches and renewed caches are recorded for good. -/
def recordProtocol (engine : Engine) (given : Option (Report × Execution)) : Protocol
  | past, .call (.save .execution execution) => execution.status.terminal = true →
    Serves past execution ∨
      ∃ report ending, Reads given past report ∧ engine.Ends report ending past execution
  | past, .call (.save .report updated) =>
    ∃ report output written, Reads given past report ∧
      engine.Renews report output written past updated
  | past, .launch report execution => Reads given past report ∧ report.Begun execution
  | _, _ => True

/-- A call that the repository has answered with an error. -/
def Event.Refused : Event → Prop
  | ⟨.call _, .error _⟩ => True
  | _ => False

/-- No execution was saved as completed. -/
def NoneCompleted (past : List Event) : Prop :=
  ∀ event ∈ past, ∀ execution, event.request = .call (.save .execution execution) →
    execution.status ≠ .completed

/-- A report was asked for, and if one was shown, then it was saved. -/
def Refreshes (id : ReportId) (past : List Event) : Prop :=
  ∃ answer, ⟨.call (.get .report id), answer⟩ ∈ past ∧ ∀ stored, answer = .ok (some stored) →
    ∃ updated saved, updated.id = stored.id ∧ ⟨.call (.save .report updated), saved⟩ ∈ past

/-- After every run that has succeeded the cache of its report was renewed. -/
def Engine.CachesSuccess (engine : Engine) (past : List Event) : Prop :=
  ∀ event earlier, event :: earlier <:+ past →
    ∀ final, event.request = .call (.save .execution final) →
      ∀ report output, engine.Ends report (.value output) earlier final →
        Refreshes report.id past

/-- An action that has ended, and was refused nothing, has nothing in hand, and its success is in
the cache. -/
def Engine.Settled (engine : Engine) (given : Option (Report × Execution)) (past : List Event) :
    Prop :=
  (∀ event ∈ past, ¬ event.Refused) → hands given past = [] ∧ engine.CachesSuccess past

variable {engine : Engine} {given : Option (Report × Execution)} {past : List Event}
  {report : Report} {execution final : Execution}

theorem recordProtocol_of_isWork (past : List Event) (request : Request) (h : request.IsWork) :
    recordProtocol engine given past request := by
  cases request with
  | call c => exact absurd h (not_isWork_call c)
  | launch => cases h
  | now | freshId | relational | dataset | api | putArtifact | notify => trivial

theorem Reads.later (h : Reads given past report) (events : List Event) :
    Reads given (events ++ past) report :=
  h.imp_right fun ⟨id, hread⟩ => ⟨id, List.mem_append_right _ hread⟩

/-! ## Ends -/

theorem settled_of_refused {event : Event} (hmem : event ∈ past) (h : event.Refused) :
    engine.Settled given past :=
  fun hnone => absurd h (hnone event hmem)

/-- Without a completed execution there is no success to be kept. -/
theorem settled_of_noneCompleted (hhands : hands given past = []) (h : NoneCompleted past) :
    engine.Settled given past := by
  refine fun _ => ⟨hhands, fun event earlier hpast final hsave report output hends => ?_⟩
  exact absurd hends.tells.2.1 (h event (hpast.subset List.mem_cons_self) final hsave)

/-- A run works on nothing that is in hand. -/
theorem hands_work {asked : List Event} (h : ∀ event ∈ asked, event.request.IsWork)
    (past : List Event) : hands given (asked ++ past) = hands given past := by
  induction asked with
  | nil => rfl
  | cons event asked ih =>
    obtain ⟨hevent, hasked⟩ := List.forall_mem_cons.mp h
    refine Eq.trans ?_ (ih hasked)
    obtain ⟨request, answer⟩ := event
    cases request with
    | call c => exact absurd hevent (not_isWork_call c)
    | freshId | launch => cases hevent
    | now | relational | dataset | api | putArtifact | notify => rfl

/-- Requests among which no execution is saved. -/
theorem noneCompleted_of_requests {P : Request → Prop}
    (hP : ∀ execution, ¬ P (.call (.save .execution execution))) {events : List Event}
    (h : ∀ event ∈ events, P event.request) : NoneCompleted events := by
  intro event he execution hsave
  have hevent := h event he
  rw [hsave] at hevent
  exact absurd hevent (hP execution)

theorem noneCompleted_work {asked : List Event} (h : ∀ event ∈ asked, event.request.IsWork) :
    NoneCompleted asked := noneCompleted_of_requests (fun _ => not_isWork_call _) h

theorem noneCompleted_of_isFree {events : List Event}
    (h : ∀ event ∈ events, event.request.IsFree) : NoneCompleted events :=
  noneCompleted_of_requests (fun _ => id) h

theorem NoneCompleted.append {events : List Event} (h : NoneCompleted events)
    (hpast : NoneCompleted past) : NoneCompleted (events ++ past) := by
  intro event he
  exact (List.mem_append.mp he).elim (h event) (hpast event)

/-- What is in hand and known when the run of an execution begins. -/
structure Underway (given : Option (Report × Execution)) (past : List Event) (report : Report)
    (execution : Execution) : Prop where
  reads : Reads given past report
  begun : report.Begun execution
  hands : hands given past = [execution.id]
  before : NoneCompleted past

/-- What follows a recorded run takes nothing in hand, and a success goes to the cache. -/
structure Concluding (given : Option (Report × Execution)) (report : Report) (final : Execution)
    (newer : List Event) : Prop where
  free : ∀ event ∈ newer, event.request.IsFree
  hands : ∀ past, hands given (newer ++ past) = hands given past
  refreshes : final.status = .completed → Refreshes report.id newer

theorem Refreshes.mono {id : ReportId} {events : List Event} (h : Refreshes id past)
    (hsub : past ⊆ events) : Refreshes id events := by
  obtain ⟨answer, hget, hsave⟩ := h
  refine ⟨answer, hsub hget, fun stored hstored => ?_⟩
  obtain ⟨updated, saved, hid, hmem⟩ := hsave stored hstored
  exact ⟨updated, saved, hid, hsub hmem⟩

/-- A run that has been recorded and concluded is settled. -/
theorem settled_of_run {newer asked : List Event} {saved : Call.Answer (.save .execution final)}
    {now : Instant} (h : Underway given past report execution)
    (hasked : ∀ event ∈ asked, event.request.IsWork) (hid : final.id = execution.id)
    {ending : Ending EngineError Engine.Output}
    (hends : engine.Ends report ending (⟨.now, now⟩ :: (asked ++ past)) final)
    (hnewer : Concluding given report final newer) :
    engine.Settled given
      (newer ++ ⟨.call (.save .execution final), saved⟩ :: ⟨.now, now⟩ :: (asked ++ past)) := by
  obtain ⟨hreport, htells⟩ := hends.tells
  refine fun _ => ⟨?_, fun event earlier hpast last hsave other output hlast => ?_⟩
  · rw [hnewer.hands]
    change (if final.status.terminal then (hands given (asked ++ past)).erase final.id
      else hands given (asked ++ past)) = []
    rw [if_pos htells.terminal, hands_work hasked, h.hands, hid, List.erase_cons_head]
  · have hcompleted : last.status = .completed := hlast.tells.2.1
    have hothers : NoneCompleted (⟨.now, now⟩ :: (asked ++ past)) :=
      List.forall_mem_cons.mpr ⟨by rintro _ ⟨⟩, (noneCompleted_work hasked).append h.before⟩
    -- so the only completed execution is the one of this run
    obtain rfl : last = final := by
      rcases List.mem_append.mp (hpast.subset List.mem_cons_self) with hmem | hmem
      · exact absurd hcompleted (noneCompleted_of_isFree hnewer.free event hmem last hsave)
      · rcases List.mem_cons.mp hmem with rfl | hmem
        · cases hsave
          rfl
        · exact absurd hcompleted (hothers event hmem last hsave)
    rw [← hlast.tells.1, hreport]
    exact (hnewer.refreshes hcompleted).mono (List.subset_append_left _ _)

/-! ## Runs -/

/-- What a run comes to, is recorded; only a payload of a success goes to the cache. -/
theorem settle_begun {asked : List Event} {ending : Ending EngineError Engine.Output}
    (h : report.Begun execution)
    (hyields : (engine.pipeline report execution.id).Yields asked ending) (now : Instant)
    (past : List Event) :
    ∃ final payload, Engine.settle execution ending now = (final, payload) ∧
      final.id = execution.id ∧
      engine.Ends report ending (⟨.now, now⟩ :: (asked.reverse ++ past)) final ∧
      ((∃ output, ending = .value output ∧ payload = some output.payload) ∨
        payload = none ∧ final.status ≠ .completed) := by
  obtain ⟨cause, created, begun, hrunning⟩ := h
  generalize execution.id = id at hrunning hyields
  subst hrunning
  cases ending with
  | value output =>
    exact ⟨_, _, rfl, rfl, ⟨cause, created, begun, asked, now, past, rfl, hyields, rfl⟩,
      .inl ⟨output, rfl, rfl⟩⟩
  | error e =>
    exact ⟨_, _, rfl, rfl, ⟨cause, created, begun, asked, now, past, rfl, hyields, rfl⟩,
      .inr ⟨rfl, nofun⟩⟩
  | crash c =>
    exact ⟨_, _, rfl, rfl, ⟨cause, created, begun, asked, now, past, rfl, hyields, rfl⟩,
      .inr ⟨rfl, nofun⟩⟩

/-- No report is shown, so none is saved. -/
theorem concluding_of_unshown {answer : Call.Answer (.get .report report.id)}
    (h : ∀ stored, answer ≠ .ok (some stored)) :
    Concluding given report final [⟨.call (.get .report report.id), answer⟩] where
  free := List.forall_mem_singleton.mpr trivial
  hands _ := rfl
  refreshes _ := ⟨answer, List.mem_singleton.mpr rfl, fun stored he => absurd he (h stored)⟩

/-- After a success the cache of the report is renewed, if the report is still there. -/
theorem records_refreshCache {ε : Type} {output : Engine.Output}
    {saved : Call.Answer (.save .execution final)} (hreads : Reads given past report)
    (hends : engine.Ends report (.value output) past final) :
    (Engine.refreshCache report.id output.payload : Action ε Unit).Obeys
      (recordProtocol engine given)
      (fun past' _ => ∃ newer, past' = newer ++ ⟨.call (.save .execution final), saved⟩ :: past ∧
        Concluding given report final newer)
      (⟨.call (.save .execution final), saved⟩ :: past) := by
  refine Action.obeys_request_bind.mpr ⟨trivial, ?_⟩
  rintro (e | _ | stored)
  · exact ⟨[_], rfl, concluding_of_unshown fun _ => nofun⟩
  · exact ⟨[_], rfl, concluding_of_unshown fun _ => nofun⟩
  · refine Action.obeys_request_bind.mpr ⟨trivial, fun written => ?_⟩
    refine Action.obeys_request_bind.mpr ⟨⟨report, output, written, ?_, ?_⟩, fun updated => ?_⟩
    · exact hreads.later [_, _, _]
    · exact ⟨final, saved, stored, past, rfl, hends, rfl⟩
    · refine ⟨[_, _, _], rfl, ⟨?_, fun _ => rfl, fun _ => ?_⟩⟩
      · exact List.forall_mem_cons.mpr ⟨trivial,
          List.forall_mem_cons.mpr ⟨trivial, List.forall_mem_singleton.mpr trivial⟩⟩
      · refine ⟨_, List.mem_cons_of_mem _ (List.mem_cons_of_mem _ List.mem_cons_self), ?_⟩
        rintro _ ⟨⟩
        exact ⟨_, updated, rfl, List.mem_cons_self⟩

/-- **A run.** -/
theorem records_conduct {ε : Type} (h : Underway given past report execution) :
    (engine.conduct report execution : Action ε Execution).Obeys (recordProtocol engine given)
      (fun past' ending => engine.Settled given past' ∧
        ∀ final, ending = .value final → final.id = execution.id) past := by
  have hpipeline := asksOnly_pipeline engine report execution.id
  have hworks : (engine.pipeline report execution.id).Obeys (recordProtocol engine given)
      (fun _ _ => True) past := hpipeline.obeys recordProtocol_of_isWork past
  refine Action.obeys_ending_bind.mpr (hworks.yields.imp ?_)
  rintro past' ending ⟨-, asked, rfl, hyields⟩
  have hasked : ∀ event ∈ asked.reverse, event.request.IsWork := fun event he =>
    hyields.forall_mem hpipeline event (List.mem_reverse.mp he)
  refine Action.obeys_request_bind.mpr ⟨trivial, fun now => ?_⟩
  obtain ⟨final, payload, hsettle, hid, hends, hpayload⟩ := settle_begun h.begun hyields now past
  have hreads : Reads given (⟨.now, now⟩ :: (asked.reverse ++ past)) report :=
    h.reads.later (⟨.now, now⟩ :: asked.reverse)
  rw [hsettle]
  refine Action.obeys_request_bind.mpr ⟨fun _ => .inr ⟨report, ending, hreads, hends⟩, ?_⟩
  intro saved
  rcases hpayload with ⟨output, rfl, rfl⟩ | ⟨rfl, hfailed⟩
  · refine Action.obeys_bind.mpr ((records_refreshCache hreads hends).imp ?_)
    rintro past' (_ | _ | _) ⟨newer, rfl, hnewer⟩
    · exact ⟨settled_of_run h hasked hid hends hnewer, by rintro _ ⟨⟩; exact hid⟩
    · exact ⟨settled_of_run h hasked hid hends hnewer, by rintro _ ⟨⟩⟩
    · exact ⟨settled_of_run h hasked hid hends hnewer, by rintro _ ⟨⟩⟩
  · have hnothing : Concluding given report final [] :=
      ⟨List.forall_mem_nil _, fun _ => rfl, fun he => absurd he hfailed⟩
    exact ⟨settled_of_run h hasked hid hends hnothing, by rintro _ ⟨⟩; exact hid⟩

/-! ## Triggers -/

/-- An execution that was answered from the cache is settled. -/
theorem settled_of_served {fresh : Uuid} {saved : Call.Answer (.save .execution execution)}
    {earlier : List Event} (hhands : hands given earlier = []) (h : NoneCompleted earlier)
    (hid : execution.id = ⟨fresh⟩) (hterminal : execution.status.terminal = true) :
    engine.Settled given
      (⟨.call (.save .execution execution), saved⟩ :: ⟨.freshId, fresh⟩ :: earlier) := by
  refine fun _ => ⟨?_, fun event rest hpast final hsave report output hends => ?_⟩
  · change (if execution.status.terminal then (⟨fresh⟩ :: hands given earlier).erase execution.id
      else ⟨fresh⟩ :: hands given earlier) = []
    rw [if_pos hterminal, hid, List.erase_cons_head, hhands]
  · rcases List.suffix_cons_iff.mp hpast with hwhole | hlater
    · -- before a run is recorded the clock is read, and not an identifier drawn
      obtain ⟨_, _, _, asked, now, before, hrest, -⟩ := hends
      obtain ⟨-, hrest'⟩ := List.cons.inj hwhole
      cases hrest.symm.trans hrest'
    · have hdrawn : NoneCompleted (⟨.freshId, fresh⟩ :: earlier) :=
        List.forall_mem_cons.mpr ⟨by rintro _ ⟨⟩, h⟩
      exact absurd hends.tells.2.1
        (hdrawn event (hlater.subset List.mem_cons_self) final hsave)

/-- How far a trigger has come before its run: a run is about to begin, or all is settled. -/
def Engine.Opened (engine : Engine) (past : List Event) :
    Ending EngineError Engine.Begun → Prop
  | .value (.started report execution) => Underway none past report execution ∧
      ⟨.freshId, execution.id.uuid⟩ ∈ past
  | .value (.served execution) => engine.Settled none past ∧
      ⟨.freshId, execution.id.uuid⟩ ∈ past
  | .error _ | .crash _ => engine.Settled none past

/-- **The beginning of a trigger.** -/
theorem records_start (engine : Engine) (id : ReportId) (cause : Trigger) :
    (Engine.start id cause).Obeys (recordProtocol engine none) engine.Opened [] := by
  refine Action.obeys_call_bind.mpr
    ⟨trivial, ?_, fun _ => settled_of_refused List.mem_cons_self trivial⟩
  rintro (_ | report)
  · refine settled_of_noneCompleted rfl ?_
    exact noneCompleted_of_isFree (List.forall_mem_singleton.mpr trivial)
  have hshown : ∀ event ∈ [(⟨.call (.get .report id), .ok (some report)⟩ : Event)],
      event.request.IsFree := List.forall_mem_singleton.mpr trivial
  refine Action.obeys_ofExcept_bind.mpr
    ⟨fun _ _ => ?_, fun _ _ => settled_of_noneCompleted rfl (noneCompleted_of_isFree hshown)⟩
  refine Action.obeys_request_bind.mpr ⟨trivial, fun now => ?_⟩
  have hnow : NoneCompleted [⟨.now, now⟩, ⟨.call (.get .report id), .ok (some report)⟩] :=
    noneCompleted_of_isFree (List.forall_mem_cons.mpr ⟨trivial, hshown⟩)
  cases hfresh : report.cache.fresh now with
  | none => exact settled_of_noneCompleted rfl hnow
  | some payload =>
    cases payload with
    | some payload =>
      refine Action.obeys_request_bind.mpr ⟨trivial, fun fresh => ?_⟩
      refine Action.obeys_call_bind.mpr ⟨fun _ => .inl ?_, fun _ => ⟨?_, ?_⟩,
        fun _ => settled_of_refused List.mem_cons_self trivial⟩
      · exact ⟨id, report, now, fresh, payload, [], rfl, hfresh, rfl⟩
      · exact settled_of_served rfl hnow rfl rfl
      · exact List.mem_cons_of_mem _ List.mem_cons_self
    | none =>
      refine Action.obeys_request_bind.mpr ⟨trivial, fun fresh => ?_⟩
      refine Action.obeys_call_bind.mpr ⟨nofun, fun _ => ?_,
        fun _ => settled_of_refused List.mem_cons_self trivial⟩
      refine Action.obeys_request_bind.mpr ⟨trivial, fun begun => ?_⟩
      rw [Execution.start_queued]
      refine Action.obeys_call_bind.mpr ⟨nofun, fun _ => ⟨?_, ?_⟩,
        fun _ => settled_of_refused List.mem_cons_self trivial⟩
      · refine ⟨.inr ⟨id, by simp⟩, ⟨cause, now, begun, rfl⟩, rfl, ?_⟩
        -- the execution has been saved as queued and as running
        refine List.forall_mem_cons.mpr ⟨by rintro _ ⟨⟩; exact nofun, ?_⟩
        refine List.forall_mem_cons.mpr ⟨by rintro _ ⟨⟩, ?_⟩
        refine List.forall_mem_cons.mpr ⟨by rintro _ ⟨⟩; exact nofun, ?_⟩
        exact List.forall_mem_cons.mpr ⟨by rintro _ ⟨⟩, hnow⟩
      · simp [Execution.running, Execution.queued]

/-- An action that has ended. What a trigger gives to its caller is an execution that it has
drawn. -/
def Engine.Over (engine : Engine) (given : Option (Report × Execution)) (past : List Event)
    (ending : Ending EngineError EngineResult) : Prop :=
  engine.Settled given past ∧ ∀ triggered, ending = .value (.triggered triggered) →
    ⟨.freshId, triggered.execution.id.uuid⟩ ∈ past

/-- How a trigger goes on after its beginning. -/
def Engine.goOn (engine : Engine) : Engine.Begun → Action EngineError EngineResult
  | .served execution => return .triggered (.finished execution)
  | .started report execution =>
    if engine.config.awaitCompletion then do
      return .triggered (.finished (← engine.conduct report execution))
    else do
      Action.request (.launch report execution)
      return .triggered (.launched execution)

theorem action_trigger (engine : Engine) (id : ReportId) (cause : Trigger) :
    (EngineCall.trigger id cause).action engine = Engine.start id cause >>= engine.goOn := by
  refine (bind_assoc _ _ _).trans (congrArg (Engine.start id cause >>= ·) (funext fun begun => ?_))
  cases begun with
  | served execution => rfl
  | started report execution =>
    change ((if engine.config.awaitCompletion then _ else _) >>= _)
      = if engine.config.awaitCompletion then _ else _
    split
    · exact bind_assoc _ _ _
    · rfl

/-- **A trigger.** -/
theorem records_trigger (engine : Engine) (id : ReportId) (cause : Trigger) :
    ((EngineCall.trigger id cause).action engine).Obeys (recordProtocol engine none)
      (engine.Over none) [] := by
  rw [action_trigger]
  refine Action.obeys_bind.mpr ((records_start engine id cause).imp ?_)
  rintro past ((execution | ⟨report, execution⟩) | _ | _) hopened
  · refine ⟨hopened.1, ?_⟩
    rintro _ ⟨⟩
    exact hopened.2
  · obtain ⟨hunderway, hdrawn⟩ := hopened
    dsimp only [Engine.goOn]
    split
    · refine Action.obeys_bind.mpr ((records_conduct hunderway).yields.imp ?_)
      rintro past' (final | _ | _) ⟨⟨hsettled, hid⟩, events, rfl, -⟩
      · refine ⟨hsettled, ?_⟩
        rintro _ ⟨⟩
        change ⟨.freshId, final.id.uuid⟩ ∈ events.reverse ++ past
        rw [hid final rfl]
        exact List.mem_append_right _ hdrawn
      · exact ⟨hsettled, by rintro _ ⟨⟩⟩
      · exact ⟨hsettled, by rintro _ ⟨⟩⟩
    · refine Action.obeys_request_bind.mpr
        ⟨⟨hunderway.reads, hunderway.begun⟩, fun _ => ⟨settled_of_noneCompleted ?_ ?_, ?_⟩⟩
      · change (hands none past).erase execution.id = []
        rw [hunderway.hands, List.erase_cons_head]
      · exact List.forall_mem_cons.mpr ⟨by rintro _ ⟨⟩, hunderway.before⟩
      · rintro _ ⟨⟩
        exact List.mem_cons_of_mem _ hdrawn
  · exact ⟨hopened, by rintro _ ⟨⟩⟩
  · exact ⟨hopened, by rintro _ ⟨⟩⟩

/-- **A run in the background.** -/
theorem records_background (engine : Engine) (h : report.Begun execution) :
    (engine.background report execution).Obeys (recordProtocol engine (some (report, execution)))
      (engine.Over (some (report, execution))) [] := by
  have hunderway : Underway (some (report, execution)) [] report execution :=
    ⟨.inl ⟨execution, rfl⟩, h, rfl, List.forall_mem_nil _⟩
  refine Action.obeys_bind.mpr ((records_conduct hunderway).imp ?_)
  rintro past (_ | _ | _) ⟨hsettled, -⟩
  · exact ⟨hsettled, by rintro _ ⟨⟩⟩
  · exact ⟨hsettled, by rintro _ ⟨⟩⟩
  · exact ⟨hsettled, by rintro _ ⟨⟩⟩

end Bulletin
