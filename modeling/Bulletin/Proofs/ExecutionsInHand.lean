import Bulletin.Proofs.EngineRoom
import Bulletin.Proofs.ReportRuns
import Bulletin.Proofs.RunResults

/-!
# Executions in hand

An execution is *in hand* of the action that works on it: from the moment its identifier is drawn
until its end is recorded, or until it is left to a run in the background, which then has it in
hand. An action saves executions that it has in hand, and writes files under their names only. The
last version that it saves of one holds what its run came to, and the files are those it has
written.

* `executionProtocol` — this rule, as a protocol
* `inHand_conduct`, `inHand_start` — runs and triggers
* `inHand_engine` — all that the engine does
-/

namespace Bulletin

/-! ## Executions in hand -/

/-- The executions in hand after an event, the last drawn first. -/
def Event.hands : Event → List ExecutionId → List ExecutionId
  | ⟨.freshId, id⟩, ids => ⟨id⟩ :: ids
  | ⟨.launch _ execution, _⟩, ids => ids.erase execution.id
  | ⟨.call (.save .execution execution), _⟩, ids =>
    if execution.status.terminal then ids.erase execution.id else ids
  | _, ids => ids

/-- The executions in hand of an action, which may have been set going with one. -/
def hands (given : Option (Report × Execution)) (past : List Event) : List ExecutionId :=
  past.foldr Event.hands (given.toList.map fun handed => handed.2.id)

/-- What an event has written under a name. -/
def Event.wrote? (name : String) : Event → Option ByteArray
  | ⟨.putArtifact other content, .ok _⟩ => if other = name then some content else none
  | _ => none

/-- What was written last under a name. -/
def written? (name : String) (past : List Event) : Option ByteArray :=
  past.findSome? (Event.wrote? name)

/-- A report that an action has read, or was set going with. -/
def Reads (given : Option (Report × Execution)) (past : List Event) (report : Report) : Prop :=
  (∃ execution, given = some (report, execution)) ∨
    ∃ id, ⟨.call (.get .report id), .ok (some report)⟩ ∈ past

/-- The last that an action did, before it looked at the clock, was a run of a report, whose sources
supplied some rows. -/
def Engine.RanLast (engine : Engine) (report : Report) (parts : List (List Record))
    (past : List Event) : Prop :=
  ∃ now asked written earlier, past = ⟨.now, now⟩ :: ((asked ++ written).reverse ++ earlier) ∧
    Query.Supplies engine.connectors report.query.input report.sources asked parts

/-- An execution holds what a run of a report comes to, if its sources supply some rows, and its
files are in some place. -/
structure Engine.Result (engine : Engine) (report : Report) (parts : List (List Record))
    (place : String → Option ByteArray) (execution : Execution) : Prop where
  reportId : execution.reportId = report.id
  payload : execution.payload = some (Engine.payload (report.resultRows parts)
    (engine.resultCharts report (report.resultRows parts)))
  formats : execution.artifacts.map Artifact.format = report.formats.filter OutputFormat.supported
  files : ∀ artifact ∈ execution.artifacts, ∃ content,
    Document.FileOf (report.resultRows parts)
      (engine.resultCharts report (report.resultRows parts)) execution.id artifact content ∧
    place artifact.filename = some content

/-- What a run needs: its execution is in hand, has begun and belongs to a report that was read. -/
structure RunsWith (given : Option (Report × Execution)) (past : List Event) (report : Report)
    (execution : Execution) : Prop where
  inHand : execution.id ∈ hands given past
  reads : Reads given past report
  reportId : execution.reportId = report.id
  running : execution.status = .running

/-- What may be saved, written and left to the background. -/
def executionProtocol (engine : Engine) (given : Option (Report × Execution)) : Protocol
  | past, .call (.save .execution execution) =>
    execution.id ∈ hands given past ∧
      (execution.status = .completed → execution.trigger ≠ .cached →
        ∃ report parts, Reads given past report ∧
          engine.RanLast report parts past ∧
          engine.Result report parts (written? · past) execution)
  | past, .putArtifact name _ =>
    ∃ id ∈ hands given past, ∃ format, Document.filename? id format = some name
  | past, .launch report execution => RunsWith given past report execution
  | _, _ => True

/-! ## Files -/

theorem Event.wrote?_eq_some_iff {event : Event} {name : String} {content : ByteArray} :
    event.wrote? name = some content ↔
      ∃ path, event = ⟨.putArtifact name content, .ok path⟩ := by
  constructor
  · intro h
    unfold Event.wrote? at h
    split at h
    · next other found path =>
      split at h
      · next hname =>
        cases h
        exact ⟨path, by rw [hname]⟩
      · cases h
    · cases h
  · rintro ⟨path, rfl⟩
    exact if_pos rfl

/-- A file that is written with one content only was written last with it. -/
theorem written?_append {name path : String} {content : ByteArray} {events : List Event}
    (past : List Event) (hput : ⟨.putArtifact name content, .ok path⟩ ∈ events)
    (hsame : ∀ event ∈ events, ∀ other, event.request = .putArtifact name other →
      other = content) : written? name (events ++ past) = some content := by
  unfold written?
  rw [List.findSome?_append]
  cases hfound : events.findSome? (Event.wrote? name) with
  | none =>
    have hnone := List.findSome?_eq_none_iff.mp hfound _ hput
    rw [Event.wrote?_eq_some_iff.mpr ⟨path, rfl⟩] at hnone
    cases hnone
  | some other =>
    obtain ⟨event, hmem, hwrote⟩ := List.exists_of_findSome?_eq_some hfound
    obtain ⟨_, rfl⟩ := Event.wrote?_eq_some_iff.mp hwrote
    rw [hsame _ hmem other rfl]
    rfl

/-! ## Runs -/

variable {engine : Engine} {given : Option (Report × Execution)} {past : List Event}
  {report : Report} {execution : Execution}

/-- A pipeline keeps in hand what is in hand. -/
theorem inHand_pipeline {id : ExecutionId} (h : id ∈ hands given past) :
    (engine.pipeline report id).Obeys (executionProtocol engine given) (fun past' ending =>
      hands given past' = hands given past ∧ ∃ events, past' = events.reverse ++ past ∧
        (engine.pipeline report id).Yields events ending) past := by
  refine (Action.AsksOnly.obeys_keeping (fun past' => hands given past' = hands given past) ?_ ?_
    (asksOnly_pipeline_files engine report id) rfl).yields
  · rintro past' request hkeeps (hquery | ⟨rows, charts, hfile⟩)
    · cases request <;> trivial
    · cases request with
      | putArtifact name content =>
        obtain ⟨format, text, hname, -, -⟩ := hfile
        exact ⟨id, hkeeps ▸ h, format, hname⟩
      | call | relational | dataset | api | now | freshId | notify | launch => cases hfile
  · rintro past' ⟨request, answer⟩ hkeeps hwork
    refine Eq.trans ?_ hkeeps
    cases request with
    | relational | dataset | api | putArtifact => rfl
    | call | now | freshId | notify | launch =>
      rcases hwork with hquery | ⟨_, _, hfile⟩
      · cases hquery
      · cases hfile

/-- A running execution after its run has come to a result. -/
def Engine.completed (execution : Execution) (output : Output) (now : Instant) : Execution :=
  Execution.finish { execution with
    status := .completed, payload := some output.payload, artifacts := output.artifacts } now

/-- A run that has come to a result completes its execution; any other fails it. -/
theorem settle_cases (h : execution.status = .running) (ending : Ending EngineError Engine.Output)
    (now : Instant) :
    (∃ output, ending = .value output ∧ Engine.settle execution ending now =
      (Engine.completed execution output now, some output.payload)) ∨
      ∃ final, Engine.settle execution ending now = (final, none) ∧ final.status = .failed ∧
        final.id = execution.id := by
  have hfail : ∀ e : EngineError, ∃ final, Engine.failed execution e now = final ∧
      final.status = .failed ∧ final.id = execution.id := by
    intro e
    have hgoes : ¬ execution.status.terminal = true := by
      rw [h]
      decide
    unfold Engine.failed Execution.fail
    rw [if_neg hgoes]
    exact ⟨_, rfl, rfl, rfl⟩
  cases ending with
  | value output =>
    have hcomplete : execution.complete output.payload output.artifacts now
        = .ok (Engine.completed execution output now) := if_pos h
    exact .inl ⟨output, rfl, by simp only [Engine.settle, hcomplete]⟩
  | error e =>
    obtain ⟨final, hfinal, hstatus, hid⟩ := hfail e
    exact .inr ⟨final, Prod.ext hfinal rfl, hstatus, hid⟩
  | crash c =>
    obtain ⟨final, hfinal, hstatus, hid⟩ := hfail (.execution c.message)
    exact .inr ⟨final, Prod.ext hfinal rfl, hstatus, hid⟩

/-- What is recorded of a run that has come to a result. -/
theorem result_of_yields {events : List Event} {output : Engine.Output}
    {parts : List (List Record)} (h : engine.Yields report execution.id parts events output)
    (hreport : execution.reportId = report.id) (now : Instant) (past : List Event) :
    engine.Result report parts (fun name => written? name (events.reverse ++ past))
      (Engine.completed execution output now) where
  reportId := hreport
  payload := congrArg some h.payload
  formats := h.formats
  files artifact hmem := by
    obtain ⟨content, path, hfile, hput⟩ := h.files artifact hmem
    refine ⟨content, hfile, written?_append past (List.mem_reverse.mpr hput) ?_⟩
    -- whatever else is written under the name is the same file once more
    intro event he other hrequest
    rcases h.puts event (List.mem_reverse.mp he) with hquery | hputs
    · rw [hrequest] at hquery
      cases hquery
    · rw [hrequest] at hputs
      obtain ⟨format, text, hname, htext, rfl⟩ := hputs
      obtain ⟨text', htext', rfl⟩ := hfile.encoded
      obtain ⟨-, rfl⟩ := Document.filename?_injective hname hfile.filename
      rw [Option.some.inj (htext.symm.trans htext')]

/-- A request that the protocol has nothing to say about. -/
def Request.IsFree : Request → Prop
  | .call (.save .execution _) | .putArtifact _ _ | .launch _ _ => False
  | _ => True

theorem executionProtocol_of_isFree (past : List Event) (request : Request) (h : request.IsFree) :
    executionProtocol engine given past request := by
  unfold executionProtocol
  split
  · cases h
  · cases h
  · cases h
  · trivial

theorem asksOnly_refreshCache {ε : Type} (id : ReportId) (payload : Json) :
    (Engine.refreshCache id payload : Action ε Unit).AsksOnly Request.IsFree := by
  refine Action.asksOnly_bind (Action.asksOnly_request trivial) ?_
  rintro (_ | _ | report)
  · trivial
  · trivial
  · refine Action.asksOnly_bind (Action.asksOnly_request trivial) fun now => ?_
    exact Action.asksOnly_bind (Action.asksOnly_request trivial) fun _ => trivial

/-- A run saves its execution once more, with what it came to. -/
theorem inHand_conduct {ε : Type} (h : RunsWith given past report execution) :
    (engine.conduct report execution : Action ε Execution).Obeys (executionProtocol engine given)
      (fun _ _ => True) past := by
  refine Action.obeys_ending_bind.mpr ((inHand_pipeline h.inHand).imp ?_)
  rintro past' ending ⟨hhands, events, rfl, hyields⟩
  have hin : execution.id ∈ hands given (events.reverse ++ past) := hhands ▸ h.inHand
  refine Action.obeys_request_bind.mpr ⟨trivial, fun now => ?_⟩
  rcases settle_cases h.running ending now with
    ⟨output, rfl, hsettle⟩ | ⟨final, hsettle, hstatus, hid⟩
  · obtain ⟨parts, hparts⟩ := yields_pipeline hyields
    rw [hsettle]
    refine Action.obeys_request_bind.mpr ⟨⟨hin, fun _ _ => ?_⟩, fun saved => ?_⟩
    · have hresult := result_of_yields hparts h.reportId now past
      refine ⟨report, parts, ?_, ?_, hresult⟩
      · refine h.reads.imp_right fun ⟨id, hread⟩ => ⟨id, ?_⟩
        exact List.mem_cons_of_mem _ (List.mem_append_right _ hread)
      · obtain ⟨asked, written, rfl, hsupplied⟩ := hparts.supplied
        exact ⟨now, asked, written, past, rfl, hsupplied⟩
    · refine Action.Obeys.bind ?_ fun _ _ => trivial
      exact (asksOnly_refreshCache _ _).obeys executionProtocol_of_isFree _
  · rw [hsettle]
    refine Action.obeys_request_bind.mpr ⟨⟨hid ▸ hin, fun hcompleted => ?_⟩, fun _ => trivial⟩
    rw [hstatus] at hcompleted
    cases hcompleted

/-! ## Triggers -/

/-- A trigger has its new execution in hand. -/
theorem inHand_start (id : ReportId) (cause : Trigger) (past : List Event) :
    (Engine.start id cause).Obeys (executionProtocol engine given) (fun past ending =>
      ∀ report execution, ending = .value (.started report execution) →
        RunsWith given past report execution) past := by
  refine Action.obeys_call_bind.mpr ⟨trivial, ?_, fun _ _ _ => nofun⟩
  rintro (_ | report)
  · exact fun _ _ => nofun
  refine Action.obeys_ofExcept_bind.mpr ⟨fun _ _ => ?_, fun _ _ _ _ => nofun⟩
  refine Action.obeys_request_bind.mpr ⟨trivial, fun now => ?_⟩
  cases report.cache.fresh now with
  | none => exact fun _ _ => nofun
  | some payload =>
    cases payload with
    | some payload =>
      refine Action.obeys_request_bind.mpr ⟨trivial, fun fresh => ?_⟩
      refine Action.obeys_call_bind.mpr ⟨⟨List.mem_cons_self, ?_⟩, fun _ _ _ => nofun,
        fun _ _ _ => nofun⟩
      exact fun _ hcached => absurd rfl hcached
    | none =>
      refine Action.obeys_request_bind.mpr ⟨trivial, fun fresh => ?_⟩
      refine Action.obeys_call_bind.mpr ⟨⟨List.mem_cons_self, nofun⟩, fun _ => ?_,
        fun _ _ _ => nofun⟩
      refine Action.obeys_request_bind.mpr ⟨trivial, fun begun => ?_⟩
      rw [Execution.start_queued]
      refine Action.obeys_call_bind.mpr ⟨⟨List.mem_cons_self, nofun⟩, ?_,
        fun _ _ _ => nofun⟩
      rintro _ _ _ ⟨⟩
      exact ⟨List.mem_cons_self, .inr ⟨id, by simp⟩, rfl, rfl⟩

theorem asksOnly_stampDue (id : ReportId) (now : Instant) :
    (Engine.stampDue id now).AsksOnly Request.IsFree := by
  refine Action.asksOnly_bind (Action.asksOnly_request trivial) ?_
  rintro (_ | _ | report)
  · trivial
  · trivial
  · dsimp only
    cases report.due now with
    | none => trivial
    | some due =>
      cases due with
      | false => trivial
      | true =>
        refine ⟨trivial, ?_⟩
        rintro (_ | _) <;> trivial

theorem inHand_engine (engine : Engine) (given : Option (Report × Execution)) :
    engine.Respects (executionProtocol engine given) (RunsWith given) where
  now _ := trivial
  list _ := trivial
  start := inHand_start
  conduct _ _ _ h := inHand_conduct h
  launch _ _ _ h := h
  stampDue id now past := (asksOnly_stampDue id now).obeys executionProtocol_of_isFree past

theorem inHand_call (engine : Engine) (call : EngineCall) :
    (call.action engine).Obeys (executionProtocol engine none) (fun _ _ => True) [] :=
  (inHand_engine engine none).call fun _ _ => trivial

/-- A run in the background has in hand the execution that it was set going with. -/
theorem inHand_background (hreport : execution.reportId = report.id)
    (hrunning : execution.status = .running) :
    (engine.background report execution).Obeys
      (executionProtocol engine (some (report, execution))) (fun _ _ => True) [] :=
  (inHand_engine engine _).background
    ⟨List.mem_cons_self, .inl ⟨execution, rfl⟩, hreport, hrunning⟩

end Bulletin
