import Bulletin.Artifact.Memory
import Bulletin.Proofs.IdentText
import Bulletin.Proofs.ReportRuns

/-!
# What a run yields

The rows of a pipeline are those that its sources supply, joined and transformed. Its files stand in
the order of the formats that are known, one for each, and each is what was written under its name.
A name tells the execution and the format, so no two of them write to one place.

* `yields_executeAll` — the rows of several sources
* `filename?_injective` — names of files
* `yields_renderAll` — the files
* `yields_pipeline` — a whole run
-/

namespace Bulletin

/-! ## Rows -/

/-- Some sources have supplied their rows, one after the other, and these are all events of it. -/
inductive Query.Supplies (connectors : Connectors) (input : QueryInput) :
    List Source → List Event → List (List Record) → Prop
  | nil : Supplies connectors input [] [] []
  | cons {source : Source} {sources : List Source} {first others : List Event}
      {rows : List Record} {parts : List (List Record)} :
      (Query.execute connectors source input).Yields first (.value rows) →
      Supplies connectors input sources others parts →
      Supplies connectors input (source :: sources) (first ++ others) (rows :: parts)

theorem yields_executeAll {connectors : Connectors} {input : QueryInput} {sources : List Source}
    {events : List Event} {rows : List Record}
    (h : (Query.executeAll connectors input sources).Yields events (.value rows)) :
    ∃ parts, Query.Supplies connectors input sources events parts ∧ rows = parts.flatten := by
  induction sources generalizing events rows with
  | nil =>
    obtain ⟨rfl, hrows⟩ := Action.yields_pure.mp h
    cases hrows
    exact ⟨[], .nil, rfl⟩
  | cons source rest ih =>
    obtain ⟨first, others, part, rfl, hfirst, h⟩ := Action.yields_bind_value.mp h
    obtain ⟨second, last, otherRows, rfl, hsecond, h⟩ := Action.yields_bind_value.mp h
    obtain ⟨parts, hparts, rfl⟩ := ih hsecond
    obtain ⟨rfl, hrows⟩ := Action.yields_pure.mp h
    cases hrows
    rw [List.append_nil]
    exact ⟨part :: parts, .cons hfirst hparts, rfl⟩

/-! ## Names of files -/

namespace Document

theorem length_key {kind : EntityKind} (id : Id kind) : id.key.toList.length = 36 := by
  rw [Id.key, Uuid.key, String.toList_ofList]
  exact Uuid.length_hyphenate (Uuid.length_hexDigits 32 _)

theorem extension?_injective {format format' : OutputFormat} {ending : String}
    (h : format.extension? = some ending) (h' : format'.extension? = some ending) :
    format = format' := by
  cases format <;> cases h <;> cases format' <;> first | rfl | simp [OutputFormat.extension?] at h'

/-- The name of a file tells its execution and its format. -/
theorem filename?_injective {id id' : ExecutionId} {format format' : OutputFormat} {name : String}
    (h : filename? id format = some name) (h' : filename? id' format' = some name) :
    id = id' ∧ format = format' := by
  obtain ⟨ending, hending, rfl⟩ := Option.map_eq_some_iff.mp h
  obtain ⟨ending', hending', heq⟩ := Option.map_eq_some_iff.mp h'
  have hlist := congrArg String.toList heq
  simp only [Id.display, String.toList_append, List.append_assoc] at hlist
  -- both begin with the same words, and keys are of one length
  have hrest := List.append_cancel_left (List.append_cancel_left (List.append_cancel_left hlist))
  obtain ⟨hkey, hrest⟩ := List.append_inj hrest ((length_key id').trans (length_key id).symm)
  have hendings := String.toList_inj.mp (List.append_cancel_left hrest)
  exact ⟨(Id.key_injective (String.toList_inj.mp hkey)).symm,
    extension?_injective hending (hendings ▸ hending')⟩

/-! ## Files -/

/-- The record of a file of an execution, with what the file holds. -/
structure FileOf (rows : List Record) (charts : Fields Chart) (execution : ExecutionId)
    (artifact : Artifact) (content : ByteArray) : Prop where
  filename : filename? execution artifact.format = some artifact.filename
  encoded : ∃ text, encode? rows charts artifact.format execution = some text ∧
    content = bytes text
  size : artifact.size = .ofNat content.size
  checksum : artifact.checksum = Blake3.hash content

variable {rows : List Record} {charts : Fields Chart} {execution : ExecutionId}

theorem filename?_eq_none {format : OutputFormat} (h : format.supported = false) :
    filename? execution format = none := by
  cases format <;> first | rfl | cases h

theorem exists_of_supported {format : OutputFormat} (h : format.supported = true) :
    ∃ filename text, filename? execution format = some filename ∧
      encode? rows charts format execution = some text := by
  cases format <;> first | exact ⟨_, _, rfl, rfl⟩ | cases h

/-- One format gives one file, unless it is not known. -/
theorem yields_render {format : OutputFormat} {events : List Event} {artifact : Option Artifact}
    (h : (render rows charts execution format).Yields events (.value artifact)) :
    format.supported = false ∧ artifact = none ∨
      ∃ file content path, format.supported = true ∧ artifact = some file ∧
        file.format = format ∧ FileOf rows charts execution file content ∧
        ⟨.putArtifact file.filename content, .ok path⟩ ∈ events := by
  unfold render at h
  cases hs : format.supported with
  | false =>
    rw [filename?_eq_none hs] at h
    obtain ⟨-, hartifact⟩ := Action.yields_pure.mp h
    cases hartifact
    exact .inl ⟨rfl, rfl⟩
  | true =>
    obtain ⟨filename, text, hname, htext⟩ := @exists_of_supported rows charts execution format hs
    rw [hname, htext] at h
    obtain ⟨answer, rest, rfl, hrest⟩ := Action.yields_request_bind.mp h
    cases answer with
    | error e => exact nomatch hrest
    | ok path =>
      obtain ⟨-, hartifact⟩ := Action.yields_pure.mp hrest
      cases hartifact
      exact .inr ⟨_, bytes text, path, rfl, rfl, rfl, ⟨hname, ⟨text, htext, rfl⟩, rfl, rfl⟩,
        List.mem_cons_self⟩

/-- A file is written for every format that is known, in the order of the formats. -/
theorem yields_renderAll {formats : List OutputFormat} {events : List Event}
    {artifacts : List Artifact}
    (h : (renderAll rows charts execution formats).Yields events (.value artifacts)) :
    artifacts.map Artifact.format = formats.filter OutputFormat.supported ∧
      ∀ artifact ∈ artifacts, ∃ content path, FileOf rows charts execution artifact content ∧
        ⟨.putArtifact artifact.filename content, .ok path⟩ ∈ events := by
  induction formats generalizing events artifacts with
  | nil =>
    obtain ⟨-, hartifacts⟩ := Action.yields_pure.mp h
    cases hartifacts
    exact ⟨rfl, List.forall_mem_nil _⟩
  | cons format rest ih =>
    obtain ⟨first, others, artifact, rfl, hfirst, h⟩ := Action.yields_bind_value.mp h
    obtain ⟨second, last, files, rfl, hsecond, h⟩ := Action.yields_bind_value.mp h
    obtain ⟨-, hartifacts⟩ := Action.yields_pure.mp h
    cases hartifacts
    obtain ⟨hformats, hfiles⟩ := ih hsecond
    have hlater : ∀ artifact ∈ files, ∃ content path,
        FileOf rows charts execution artifact content ∧
        ⟨.putArtifact artifact.filename content, .ok path⟩ ∈ first ++ (second ++ last) := by
      intro artifact hmem
      obtain ⟨content, path, hfile, hput⟩ := hfiles artifact hmem
      exact ⟨content, path, hfile,
        List.mem_append_right _ (List.mem_append_left _ hput)⟩
    rcases yields_render hfirst with ⟨hs, rfl⟩ | ⟨file, content, path, hs, rfl, rfl, hfile, hput⟩
    · rw [List.filter_cons_of_neg (by rw [hs]; exact Bool.false_ne_true)]
      exact ⟨hformats, hlater⟩
    · rw [List.filter_cons_of_pos hs]
      refine ⟨congrArg (file.format :: ·) hformats, List.forall_mem_cons.mpr ⟨?_, hlater⟩⟩
      exact ⟨content, path, hfile, List.mem_append_left _ hput⟩

end Document

/-! ## Pipelines -/

/-- The rows of a report: those of its sources, joined and transformed. -/
def Report.resultRows (report : Report) (parts : List (List Record)) : List Record :=
  TransformStep.applyAll parts.flatten report.query.transformations

/-- The charts of a report. -/
def Engine.resultCharts (engine : Engine) (report : Report) (rows : List Record) : Fields Chart :=
  Chart.buildAll engine.config.chartCap rows report.charts.charts

/-- What a run of a report comes to, if its sources supply some rows. -/
structure Engine.Yields (engine : Engine) (report : Report) (execution : ExecutionId)
    (parts : List (List Record)) (events : List Event) (output : Output) : Prop where
  supplied : ∃ asked written, events = asked ++ written ∧
    Query.Supplies engine.connectors report.query.input report.sources asked parts
  payload : output.payload = Engine.payload (report.resultRows parts)
    (engine.resultCharts report (report.resultRows parts))
  formats : output.artifacts.map Artifact.format = report.formats.filter OutputFormat.supported
  files : ∀ artifact ∈ output.artifacts, ∃ content path,
    Document.FileOf (report.resultRows parts)
      (engine.resultCharts report (report.resultRows parts)) execution artifact content ∧
    ⟨.putArtifact artifact.filename content, .ok path⟩ ∈ events
  /-- nothing is written but the files -/
  puts : ∀ event ∈ events, event.request.IsQuery ∨ Document.PutsFile
    (report.resultRows parts) (engine.resultCharts report (report.resultRows parts)) execution
    event.request

/-- **A run that comes to a result.** -/
theorem yields_pipeline {engine : Engine} {report : Report} {execution : ExecutionId}
    {events : List Event} {output : Engine.Output}
    (h : (engine.pipeline report execution).Yields events (.value output)) :
    ∃ parts, engine.Yields report execution parts events output := by
  obtain ⟨asked, written, rows, rfl, hrows, h⟩ := Action.yields_bind_value.mp h
  obtain ⟨files, last, artifacts, rfl, hfiles, h⟩ := Action.yields_bind_value.mp h
  obtain ⟨rfl, houtput⟩ := Action.yields_pure.mp h
  cases houtput
  rw [List.append_nil]
  have hqueries := Action.yields_mapError_value.mp hrows
  have hrender := Action.yields_mapError_value.mp hfiles
  obtain ⟨parts, hparts, rfl⟩ := yields_executeAll hqueries
  obtain ⟨hformats, hputs⟩ := Document.yields_renderAll hrender
  refine ⟨parts, ⟨asked, files, rfl, hparts⟩, rfl, hformats, ?_, ?_⟩
  · intro artifact hmem
    obtain ⟨content, path, hfile, hput⟩ := hputs artifact hmem
    exact ⟨content, path, hfile, List.mem_append_right _ hput⟩
  · intro event he
    rcases List.mem_append.mp he with he | he
    · exact .inl (hqueries.forall_mem (asksOnly_executeAll _ _ _) event he)
    · exact .inr (hrender.forall_mem (asksOnly_renderAll _ _ _ _) event he)

end Bulletin
