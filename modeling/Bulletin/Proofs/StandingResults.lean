import Bulletin.Proofs.StoredExecutions
import Bulletin.Proofs.TriggerOutcomes
import Bulletin.Proofs.Workers
import Mathlib.Data.List.Flatten

/-!
# Results that stand

A completed execution tells what its run came to, and its files stay as they were written, whatever
else the engine does and however its runs come one after the other.

The invariant is that no execution is in hand of two actions. An action writes files of executions
in its hand only, and a completed execution is in nobody's hand. So nobody writes over its files.

* `AtWork` — the invariant
* `AtWork.turn` — every turn keeps it
* `stored_results_stand` — every run
-/

namespace Bulletin

/-! ## Executions kept -/

/-- The executions that are kept after a request. -/
def Request.record : Request → List Execution → List Execution
  | .call (.save .execution execution), executions => upsert Execution.id execution executions
  | _, executions => executions

theorem Request.record_of_other {request : Request} {executions : List Execution}
    (h : ∀ execution, request ≠ .call (.save .execution execution)) :
    request.record executions = executions := by
  unfold record
  split
  · exact absurd rfl (h _)
  · rfl

theorem Request.eq_or_mem_of_mem_record {request : Request} {execution : Execution}
    {executions : List Execution} (h : execution ∈ request.record executions) :
    request = .call (.save .execution execution) ∨ execution ∈ executions := by
  unfold record at h
  split at h
  · rcases eq_or_mem_of_mem_upsert h with rfl | h
    · exact .inl rfl
    · exact .inr h
  · exact .inr h

theorem EngineRoom.Answers.keepsExecutions {request : Request} {answer : request.Answer}
    {s s' : EngineRoom} {executions : List Execution}
    (h : EngineRoom.Answers request s answer s')
    (hkeeps : s.repository.KeepsExecutions executions) :
    s'.repository.KeepsExecutions (request.record executions) := by
  by_cases hcall : ∃ c, request = .call c
  · obtain ⟨c, rfl⟩ := hcall
    rw [h.repository_of_call]
    by_cases hsave : ∃ execution, c = .save .execution execution
    · obtain ⟨execution, rfl⟩ := hsave
      exact Repository.keepsExecutions_save hkeeps execution
    · rw [Request.record_of_other fun e he => hsave ⟨e, Request.call.inj he⟩]
      exact Repository.keepsExecutions_of_other (fun e he => hsave ⟨e, he⟩) hkeeps
  · rw [h.repository_of_other fun c he => hcall ⟨c, he⟩,
      Request.record_of_other fun e he => hcall ⟨_, he⟩]
    exact hkeeps

/-- What an execution should hold, it holds wherever its files are. -/
theorem Engine.Result.moved {engine : Engine} {report : Report} {parts : List (List Record)}
    {place place' : String → Option ByteArray} {execution : Execution}
    (h : engine.Result report parts place execution)
    (hplace : ∀ format name content, Document.filename? execution.id format = some name →
      place name = some content → place' name = some content) :
    engine.Result report parts place' execution where
  reportId := h.reportId
  payload := h.payload
  formats := h.formats
  files artifact hmem := by
    obtain ⟨content, hfile, hheld⟩ := h.files artifact hmem
    exact ⟨content, hfile, hplace _ _ _ hfile.filename hheld⟩

/-! ## The invariant -/

/-- A report was shown to whoever asked for it. -/
def ReportShown (turns : List Turn) (report : Report) : Prop :=
  ∃ turn ∈ turns, ∃ id, turn.event = ⟨.call (.get .report id), .ok (some report)⟩

/-- An execution was saved right after a run of a report, with what the run came to. The report had
been shown, and the files are stored. -/
def Delivered (engine : Engine) (turns : List Turn) (store : MemoryStore)
    (execution : Execution) : Prop :=
  ∃ turn ∈ turns, turn.event.request = .call (.save .execution execution) ∧
    ∃ report parts, ReportShown turns report ∧ engine.RanLast report parts turn.past ∧
      engine.Result report parts store.contents.get? execution

/-- The engine at work, after some turns. -/
structure AtWork (engine : Engine) (turns : List Turn) (workers : List Worker) (room : EngineRoom)
    (executions : List Execution) : Prop where
  obeys : ∀ w ∈ workers, w.Obeys engine
  shown : ∀ w ∈ workers, ∀ report execution, w.given = some (report, execution) →
    ReportShown turns report
  /-- no execution is in two hands -/
  distinct : (inHands workers).Nodup
  drawn : ∀ id ∈ inHands workers, id.uuid ∈ room.drawn
  files : ∀ w ∈ workers, w.KeepsFiles room
  stored : room.repository.KeepsExecutions executions
  results : ∀ execution ∈ executions, execution.status = .completed →
    execution.trigger ≠ .cached →
      execution.id.uuid ∈ room.drawn ∧ execution.id ∉ inHands workers ∧
        Delivered engine turns room.store execution

theorem ReportShown.mono {turns turns' : List Turn} {report : Report} (h : ReportShown turns report)
    (hsub : turns ⊆ turns') : ReportShown turns' report := by
  obtain ⟨turn, hmem, hshown⟩ := h
  exact ⟨turn, hsub hmem, hshown⟩

/-- A report that an action goes by was shown, if the one that it was set going with was. -/
theorem Reads.reportShown {given : Option (Report × Execution)} {past : List Event}
    {turns : List Turn} {report : Report} (h : Reads given past report)
    (hgiven : ∀ execution, given = some (report, execution) → ReportShown turns report)
    (hpast : ∀ event ∈ past, ∃ turn ∈ turns, turn.event = event) : ReportShown turns report := by
  rcases h with ⟨execution, hgiven'⟩ | ⟨id, hread⟩
  · exact hgiven execution hgiven'
  · obtain ⟨turn, hmem, hevent⟩ := hpast _ hread
    exact ⟨turn, hmem, id, hevent⟩

namespace AtWork

variable {engine : Engine} {turns : List Turn} {before after : List Worker} {w : Worker}
  {request : Request} {answer : request.Answer} {room room' : EngineRoom}
  {executions : List Execution} {next : request.Answer → Action EngineError EngineResult}

theorem custody {workers : List Worker} (h : AtWork engine turns workers room executions) :
    Custody engine workers room := ⟨h.obeys, h.distinct, h.drawn⟩

/-- What an action goes by, was shown in some turn. -/
theorem shown_of_reads (h : AtWork engine turns (before ++ w :: after) room executions)
    (hpast : ∀ event ∈ w.thread.past, ∃ turn ∈ turns, turn.event = event) {report : Report}
    (hreads : Reads w.given w.thread.past report) : ReportShown turns report :=
  hreads.reportShown (h.shown w (by simp) report) hpast

/-- A completed execution stays as it is, and so do its files. -/
theorem results_kept (h : AtWork engine turns (before ++ w :: after) room executions)
    (hallowed : executionProtocol engine w.given w.thread.past request)
    (ha : EngineRoom.Answers request room answer room') {execution : Execution}
    (hmem : execution ∈ executions) (hcompleted : execution.status = .completed)
    (hcached : execution.trigger ≠ .cached) :
    execution.id.uuid ∈ room'.drawn ∧
      execution.id ∉ inHands (before ++ w.next ⟨request, answer⟩ (next answer) ::
        (after ++ engine.hires ⟨request, answer⟩)) ∧
      Delivered engine (turns ++ [⟨w.thread.past, ⟨request, answer⟩⟩]) room'.store execution := by
  obtain ⟨hdrawn, hnot, turn, hturn, hsave, report, parts, hshown, hran, hresult⟩ :=
    h.results execution hmem hcompleted hcached
  obtain ⟨-, hfrom⟩ := inHands_turn (next answer) hallowed ha.permits h.distinct h.drawn
  have hsub : turns ⊆ turns ++ [⟨w.thread.past, ⟨request, answer⟩⟩] :=
    List.subset_append_left _ _
  refine ⟨ha.drawn_subset hdrawn, fun hid => ?_, turn, hsub hturn, hsave, report, parts,
    hshown.mono hsub, hran, hresult.moved fun format name content hname hheld => ?_⟩
  · rcases hfrom _ hid with hid | ⟨hfresh, -⟩
    · exact hnot hid
    · exact hfresh hdrawn
  · have hother : execution.id ∉ w.hands := fun hid =>
      hnot (List.mem_flatMap.mpr ⟨w, by simp, hid⟩)
    rw [get?_of_not_inHand hallowed ha hname hother]
    exact hheld

/-- An execution that is saved as completed holds what its run came to, and is in hand no more. -/
theorem results_saved {execution : Execution}
    {answer : Call.Answer (.save .execution execution)}
    {next : Call.Answer (.save .execution execution) → Action EngineError EngineResult}
    (h : AtWork engine turns (before ++ w :: after) room executions)
    (hpast : ∀ event ∈ w.thread.past, ∃ turn ∈ turns, turn.event = event)
    (hallowed : executionProtocol engine w.given w.thread.past (.call (.save .execution execution)))
    (ha : EngineRoom.Answers (.call (.save .execution execution)) room answer room')
    (hcompleted : execution.status = .completed) (hcached : execution.trigger ≠ .cached) :
    execution.id.uuid ∈ room'.drawn ∧
      execution.id ∉ inHands (before ++
        w.next ⟨.call (.save .execution execution), answer⟩ (next answer) ::
          (after ++ engine.hires ⟨.call (.save .execution execution), answer⟩)) ∧
      Delivered engine
        (turns ++ [⟨w.thread.past, ⟨.call (.save .execution execution), answer⟩⟩]) room'.store
        execution := by
  obtain ⟨hin, hresult⟩ := hallowed
  obtain ⟨report, parts, hreads, hran, hresult⟩ := hresult hcompleted hcached
  have hw : w ∈ before ++ w :: after := by simp
  have hheld : execution.id ∈ inHands (before ++ w :: after) :=
    List.mem_flatMap.mpr ⟨w, hw, hin⟩
  obtain ⟨hown, hapart⟩ := hands_apart h.distinct
  let saving : Turn := ⟨w.thread.past, ⟨.call (.save .execution execution), answer⟩⟩
  refine ⟨ha.drawn_subset (h.drawn _ hheld), fun hid => ?_, saving, by simp [saving], rfl,
    report, parts, (h.shown_of_reads hpast hreads).mono (List.subset_append_left _ _), hran,
    hresult.moved fun format name content hname hwritten => ?_⟩
  · obtain ⟨v, hv, hid⟩ := List.mem_flatMap.mp hid
    rcases mem_workers.mp hv with rfl | hv | hv
    · have herase : (w.next ⟨.call (.save .execution execution), answer⟩ (next answer)).hands
          = w.hands.erase execution.id := if_pos (by rw [hcompleted]; rfl)
      rw [herase] at hid
      exact hown.not_mem_erase hid
    · exact hapart v hv _ hid hin
    · cases hv
  · obtain ⟨id, format', hname', -, hkept⟩ := h.files w hw name content hwritten
    obtain ⟨rfl, -⟩ := Document.filename?_injective hname hname'
    rw [ha.2.1]
    exact hkept hin

/-- **One turn.** -/
theorem turn (h : AtWork engine turns (before ++ w :: after) room executions)
    (hrest : w.thread.rest = .ask request next)
    (hpast : ∀ event ∈ w.thread.past, ∃ turn ∈ turns, turn.event = event)
    (ha : EngineRoom.Answers request room answer room') :
    AtWork engine (turns ++ [⟨w.thread.past, ⟨request, answer⟩⟩])
      (before ++ w.next ⟨request, answer⟩ (next answer) ::
        (after ++ engine.hires ⟨request, answer⟩)) room' (request.record executions) := by
  have hw : w ∈ before ++ w :: after := by simp
  have hallowed := h.custody.allowed hrest
  have hcustody := h.custody.turn hrest ha.permits
  obtain ⟨hown, hapart⟩ := hands_apart h.distinct
  have hsub : turns ⊆ turns ++ [⟨w.thread.past, ⟨request, answer⟩⟩] :=
    List.subset_append_left _ _
  refine ⟨hcustody.obeys, forall_given_of_turn ?_ ?_, hcustody.distinct, hcustody.drawn, ?_,
    ha.keepsExecutions h.stored, ?_⟩
  · exact fun v hv report execution hgiven => (h.shown v hv report execution hgiven).mono hsub
  · rintro report execution rfl
    exact (h.shown_of_reads hpast hallowed.reads).mono hsub
  · intro v hv
    rcases mem_workers.mp hv with rfl | hv | hv
    · exact (h.files w hw).own hallowed ha hown fun id hid =>
        h.drawn id (List.mem_flatMap.mpr ⟨w, hw, hid⟩)
    · exact (h.files v (mem_workers_of_other hv)).other hallowed ha (hapart v hv)
    · obtain ⟨report, execution, -, rfl⟩ := mem_hires hv
      exact fun _ _ hwritten => nomatch hwritten
  · intro execution hmem hcompleted hcached
    rcases Request.eq_or_mem_of_mem_record hmem with rfl | hmem
    · exact h.results_saved hpast hallowed ha hcompleted hcached
    · exact h.results_kept hallowed ha hmem hcompleted hcached

/-- A worker that has come to its end leaves. -/
theorem leave (h : AtWork engine turns (before ++ w :: after) room executions) :
    AtWork engine turns (before ++ after) room executions := by
  have hsub : (before ++ after).Sublist (before ++ w :: after) :=
    (List.sublist_cons_self w after).append_left before
  have hhands : (inHands (before ++ after)).Sublist (inHands (before ++ w :: after)) :=
    hsub.flatMap Worker.hands
  refine ⟨fun v hv => h.obeys v (hsub.subset hv), fun v hv => h.shown v (hsub.subset hv),
    h.distinct.sublist hhands, fun id hid => h.drawn id (hhands.subset hid),
    fun v hv => h.files v (hsub.subset hv), h.stored, ?_⟩
  intro execution hmem hcompleted hcached
  obtain ⟨hdrawn, hnot, hdelivered⟩ := h.results execution hmem hcompleted hcached
  exact ⟨hdrawn, fun hid => hnot (hhands.subset hid), hdelivered⟩

/-- Calls that are about to begin have nothing in hand. -/
theorem start (hnone : room.repository.KeepsExecutions []) (calls : List EngineCall) :
    AtWork engine [] (newcomers engine calls) room [] := by
  have hcustody : Custody engine (newcomers engine calls) room := .start engine calls room
  refine ⟨hcustody.obeys, ?_, hcustody.distinct, hcustody.drawn, ?_, hnone,
    fun _ hmem => nomatch hmem⟩
  · intro w hw report execution hgiven
    obtain ⟨call, -, rfl⟩ := List.mem_map.mp hw
    cases hgiven
  · intro w hw name content hwritten
    obtain ⟨call, -, rfl⟩ := List.mem_map.mp hw
    cases hwritten

end AtWork

/-! ## Runs -/

variable {engine : Engine} {calls : List EngineCall} {room : EngineRoom} {turns : List Turn}
  {c : Scene EngineRoom EngineError EngineResult}

theorem atWork_turns (hnone : room.repository.KeepsExecutions [])
    (hturns : Turns (engineSetting engine) (engineScene engine calls room) turns c) :
    ∃ workers executions, workers.map Worker.thread = c.threads ∧
      AtWork engine turns workers c.state executions := by
  induction hturns with
  | start => exact ⟨_, [], map_thread_newcomers, .start hnone calls⟩
  | take hbefore htake ih =>
    obtain ⟨workers, executions, hthreads, hwork⟩ := ih
    obtain ⟨before, w, after, request, next, answer, rfl, hrest, rfl, ha, hnext⟩ :=
      htake.exists_worker rfl hthreads
    have hw : w.thread ∈ (before ++ w :: after).map Worker.thread := List.mem_map_of_mem (by simp)
    exact ⟨_, _, hnext, hwork.turn hrest (fun _ he => hbefore.mem_of_past (hthreads ▸ hw) he) ha⟩
  | fork hbefore hs ih =>
    obtain ⟨workers, executions, hthreads, hwork⟩ := ih
    cases hs with
    | fork =>
      obtain ⟨wb, rest, rfl, rfl, hrest⟩ := List.map_eq_append_iff.mp hthreads
      obtain ⟨w, wa, rfl, -, rfl⟩ := List.map_eq_cons_iff.mp hrest
      exact ⟨wb ++ wa, executions, List.map_append, hwork.leave⟩

/--
**Results that stand.** Any number of triggers, runs and ticks of an engine are under way over a
repository of either make that keeps no execution at first, and a store of artifacts in memory;
reports may be edited meanwhile, and no identifier is given out twice. Then after every run, each
completed execution that is kept and was not answered from a cache was saved right after a run of a
report that the repository had shown:

* its payload tells the rows that the sources supplied in this run, joined and transformed, their
  number, and the charts;
* its files are of the known formats of the report, one for each, in order;
* under the name of each file the store holds what the format makes of the rows and charts, and its
  size and checksum are recorded.
-/
theorem stored_results_stand (hnone : room.repository.KeepsExecutions [])
    (hturns : Turns (engineSetting engine) (engineScene engine calls room) turns c) :
    ∃ executions, c.state.repository.KeepsExecutions executions ∧
      ∀ execution ∈ executions, execution.status = .completed → execution.trigger ≠ .cached →
        ∃ turn ∈ turns, turn.event.request = .call (.save .execution execution) ∧
          ∃ report parts, ReportShown turns report ∧ execution.reportId = report.id ∧
            engine.RanLast report parts turn.past ∧
            let rows := TransformStep.applyAll parts.flatten report.query.transformations
            let charts := Chart.buildAll engine.config.chartCap rows report.charts.charts
            execution.payload = some (.object [("row_count", .nat rows.length),
              ("data", rowsJson rows),
              ("visualizations", Json.ofFields (charts.map Chart.toJson))]) ∧
            execution.artifacts.map Artifact.format
              = report.formats.filter OutputFormat.supported ∧
            ∀ artifact ∈ execution.artifacts, ∃ text,
              Document.filename? execution.id artifact.format = some artifact.filename ∧
              Document.encode? rows charts artifact.format execution.id = some text ∧
              c.state.store.get artifact.filename = .ok (Document.bytes text) ∧
              artifact.size = .ofNat (Document.bytes text).size ∧
              artifact.checksum = Blake3.hash (Document.bytes text) := by
  obtain ⟨workers, executions, -, hwork⟩ := atWork_turns hnone hturns
  refine ⟨executions, hwork.stored, fun execution hmem hcompleted hcached => ?_⟩
  obtain ⟨-, -, turn, hturn, hsave, report, parts, hshown, hran, hresult⟩ :=
    hwork.results execution hmem hcompleted hcached
  refine ⟨turn, hturn, hsave, report, parts, hshown, hresult.reportId, hran,
    hresult.payload, hresult.formats, fun artifact hartifact => ?_⟩
  obtain ⟨content, hfile, hheld⟩ := hresult.files artifact hartifact
  obtain ⟨text, htext, rfl⟩ := hfile.encoded
  refine ⟨text, hfile.filename, htext, ?_, hfile.size, hfile.checksum⟩
  unfold MemoryStore.get
  rw [hheld]

/-- A report that is printed twice, and in a format that is not known. -/
def printed : Report := { Engine.loads with formats := [.csv, .unsupported "html", .csv] }

/-- A room with this report. -/
def printedRoom : EngineRoom :=
  ⟨.memory (MemoryRepository.empty.put .report printed), .empty, []⟩

/-- After a trigger of the report both of its files stand in the store. -/
theorem printed_files_stand :
    ∃ turns c execution, Turns (engineSetting Engine.patient)
        (engineScene Engine.patient [.trigger printed.id .manual] printedRoom) turns c ∧
      c.state.repository.KeepsExecutions [execution] ∧ execution.status = .completed ∧
      execution.artifacts.map Artifact.format = [.csv, .csv] ∧
      ∀ artifact ∈ execution.artifacts, ∃ content,
        c.state.store.get artifact.filename = .ok content ∧
        artifact.checksum = Blake3.hash content := by
  have hadmits : (engineSetting Engine.patient).Admits (EngineRoom.still (some [∅]) default)
      (EngineCall.action Engine.patient (.trigger printed.id .manual)) printedRoom :=
    ⟨⟨rfl, rfl, rfl⟩, rfl, rfl, rfl, ⟨List.not_mem_nil, rfl⟩, rfl, ⟨rfl, rfl, rfl⟩, rfl, rfl, rfl,
      ⟨rfl, rfl, rfl⟩, rfl, rfl, rfl, ⟨rfl, rfl, rfl⟩, rfl, ⟨rfl, rfl, rfl⟩, rfl, rfl, rfl,
      ⟨rfl, rfl, rfl⟩, rfl, ⟨rfl, rfl, rfl⟩, rfl, rfl, rfl, ⟨rfl, rfl, rfl⟩, rfl, trivial⟩
  have hturns := Turns.alone hadmits [] [] []
  change Turns _ (engineScene Engine.patient [.trigger printed.id .manual] printedRoom) _ _
    at hturns
  have hnone : printedRoom.repository.KeepsExecutions [] := rfl
  obtain ⟨executions, hkeeps, hresults⟩ := stored_results_stand hnone hturns
  obtain ⟨execution, rfl, hcompleted, hcached, hformats⟩ : ∃ execution, executions = [execution] ∧
      execution.status = .completed ∧ execution.trigger ≠ .cached ∧
      execution.artifacts.map Artifact.format = [.csv, .csv] := by
    rw [← show _ = executions from hkeeps]
    exact ⟨_, rfl, rfl, nofun, rfl⟩
  obtain ⟨-, -, -, report, parts, -, -, -, -, -, hfiles⟩ :=
    hresults execution (List.mem_singleton.mpr rfl) hcompleted hcached
  refine ⟨_, _, execution, hturns, hkeeps, hcompleted, hformats, fun artifact hmem => ?_⟩
  obtain ⟨text, -, -, hheld, -, hchecksum⟩ := hfiles artifact hmem
  exact ⟨Document.bytes text, hheld, hchecksum⟩

end Bulletin
