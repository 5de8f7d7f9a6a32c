import Bulletin.Proofs.RunRecords

/-!
# Triggers side by side

Any number of triggers, of one report and of others, are under way over one repository in memory,
and so are the runs that they leave to the background. Nobody else writes. The requests of all of
them come one after the other in any way.

Reports are read and saved without any lock, so a saved report may be older than the stored one. No
harm is done, since all that a trigger changes in a report is its cache, and it writes the payload
and the time together.

* `MemoryRepository.Answered` — what one event makes of a repository in memory
* `Records` — the invariant, and `Records.turn`, which keeps it
* `triggers_side_by_side` — every run
-/

namespace Bulletin

/-! ## A repository in memory -/

/-- One event, and what it makes of a repository in memory. -/
structure MemoryRepository.Answered (r : MemoryRepository) (event : Event)
    (r' : MemoryRepository) : Prop where
  accepted : ¬ event.Refused
  shown : ∀ kind id answer, event = ⟨.call (.get kind id), answer⟩ →
    answer = .ok ((r.get kind).get? id)
  saved : ∀ kind entity, event.request = .call (.save kind entity) →
    r'.get kind = (r.get kind).save entity
  /-- alerts may also be stored in another way -/
  kept : ∀ kind, kind ≠ .alert → (∀ entity, event.request ≠ .call (.save kind entity)) →
    r'.get kind = r.get kind

theorem MemoryRepository.answered_call {r r' : MemoryRepository} {call : Call}
    {answer : call.Answer} (h : r.answer call = (answer, r')) :
    r.Answered ⟨.call call, answer⟩ r' := by
  cases call with
  | get kind key =>
    cases h
    refine ⟨id, ?_, by rintro _ _ ⟨⟩, fun _ _ _ => rfl⟩
    rintro _ _ _ ⟨⟩
    rfl
  | list kind scope =>
    cases h
    exact ⟨id, by rintro _ _ _ ⟨⟩, by rintro _ _ ⟨⟩, fun _ _ _ => rfl⟩
  | save kind entity =>
    cases h
    refine ⟨id, by rintro _ _ _ ⟨⟩, ?_, fun other _ hne => ?_⟩
    · rintro _ _ ⟨⟩
      exact Tables.get_set_self _ _ _
    · exact Tables.get_set_of_ne _ (by rintro rfl; exact hne entity rfl) _
  | createActive alert =>
    simp only [MemoryRepository.answer] at h
    split at h
    · cases h
      exact ⟨id, by rintro _ _ _ ⟨⟩, by rintro _ _ ⟨⟩, fun _ _ _ => rfl⟩
    · cases h
      exact ⟨id, by rintro _ _ _ ⟨⟩, by rintro _ _ ⟨⟩,
        fun _ hne _ => Tables.get_set_of_ne _ hne _⟩

theorem MemoryRepository.answered_other (r : MemoryRepository) {event : Event}
    (h : ∀ call, event.request ≠ .call call) : r.Answered event r := by
  refine ⟨?_, ?_, fun _ _ he => absurd he (h _), fun _ _ _ => rfl⟩
  · obtain ⟨request, answer⟩ := event
    cases request with
    | call c => exact absurd rfl (h c)
    | relational | dataset | api | now | freshId | putArtifact | notify | launch => exact id
  · rintro kind id answer rfl
    exact absurd rfl (h _)

theorem EngineRoom.Permits.memory {request : Request} {answer : request.Answer}
    {room room' : EngineRoom} {r : MemoryRepository}
    (h : EngineRoom.Permits request room answer room') (hr : room.repository = .memory r) :
    ∃ r', room'.repository = .memory r' ∧ r.Answered ⟨request, answer⟩ r' := by
  by_cases hcall : ∃ c, request = .call c
  · obtain ⟨c, rfl⟩ := hcall
    have hanswer := h.repository_of_call
    rw [hr] at hanswer
    obtain ⟨rfl, hrepository⟩ := Prod.mk.inj hanswer
    exact ⟨_, hrepository.symm, MemoryRepository.answered_call rfl⟩
  · have hne : ∀ c, request ≠ .call c := fun c he => hcall ⟨c, he⟩
    exact ⟨r, (h.repository_of_other hne).trans hr, r.answered_other hne⟩

/-- What stands under an identifier was just saved, or stands there as before. -/
theorem MemoryRepository.Answered.get? {r r' : MemoryRepository} {event : Event}
    (h : r.Answered event r') {kind : EntityKind} (hkind : kind ≠ .alert) (id : Id kind) :
    (∃ entity, event.request = .call (.save kind entity) ∧ kind.id entity = id ∧
      (r'.get kind).get? id = some entity) ∨
    (∀ entity, event.request = .call (.save kind entity) → kind.id entity ≠ id) ∧
      (r'.get kind).get? id = (r.get kind).get? id := by
  by_cases hsave : ∃ entity, event.request = .call (.save kind entity)
  · obtain ⟨entity, hsave⟩ := hsave
    rw [h.saved kind entity hsave, Table.get?_save]
    by_cases hid : kind.id entity = id
    · exact .inl ⟨entity, hsave, hid, if_pos hid⟩
    · refine .inr ⟨fun other hother => ?_, if_neg hid⟩
      cases hsave.symm.trans hother
      exact hid
  · rw [h.kept kind hkind fun entity he => hsave ⟨entity, he⟩]
    exact .inr ⟨fun entity he => absurd ⟨entity, he⟩ hsave, rfl⟩

/-! ## The invariant -/

/-- An execution was saved for the last time: with a payload from a cache, or with the end of a run
of its report. -/
def Closed (engine : Engine) (r₀ : MemoryRepository) (turns : List Turn) (execution : Execution) :
    Prop :=
  execution.status.terminal = true ∧
    ∃ turn ∈ turns, turn.event.request = .call (.save .execution execution) ∧
      (Serves turn.past execution ∨
        ∃ report ending, r₀.reports.get? execution.reportId = some report ∧
          engine.Ends report ending turn.past execution)

/-- What was written last to the cache of a report, by which success. -/
def LastWritten (engine : Engine) (turns : List Turn) (report : Report) :
    Option (Json × Instant) → Prop
  | none => ∀ turn ∈ turns, ∀ updated, turn.event.request = .call (.save .report updated) →
      updated.id ≠ report.id
  | some (payload, written) => ∃ turn ∈ turns, ∃ output updated,
      turn.event.request = .call (.save .report updated) ∧
        engine.Renews report output written turn.past updated ∧ output.payload = payload

/-- Triggers and their runs after some turns, with a repository that has come from `r₀`, where the
identifiers `drawn₀` had been given out. -/
structure Records (engine : Engine) (r₀ : MemoryRepository) (drawn₀ : List Uuid)
    (turns : List Turn) (workers : List Worker) (room : EngineRoom) (r : MemoryRepository) :
    Prop where
  custody : Custody engine workers room
  follows : ∀ w ∈ workers,
    w.thread.rest.Obeys (recordProtocol engine w.given) (engine.Over w.given) w.thread.past
  handed : ∀ w ∈ workers, ∀ report execution, w.given = some (report, execution) →
    ReportShown turns report
  repository : room.repository = .memory r
  accepted : ∀ turn ∈ turns, ¬ turn.event.Refused
  /-- reports differ from those at the start by what was written to their caches -/
  shown : ∀ turn ∈ turns, ∀ id answer, turn.event = ⟨.call (.get .report id), answer⟩ →
    ∃ success, answer = .ok ((r₀.reports.get? id).map (Report.refreshed · success))
  reports : ∀ id, ∃ success,
    r.reports.get? id = (r₀.reports.get? id).map (Report.refreshed · success) ∧
      ∀ report, r₀.reports.get? id = some report → LastWritten engine turns report success
  drawn : drawn₀ ⊆ room.drawn
  draws : ∀ turn ∈ turns, ∀ id, turn.event = ⟨.freshId, id⟩ → id ∈ room.drawn ∧ id ∉ drawn₀
  fresh : ∀ id ∈ inHands workers, id.uuid ∉ drawn₀
  kept : ∀ id : ExecutionId, (id.uuid ∈ room.drawn → id.uuid ∈ drawn₀) →
    r.executions.get? id = r₀.executions.get? id
  /-- what was drawn is in hand, or has been saved for the last time -/
  closed : ∀ id : ExecutionId, id.uuid ∈ room.drawn → id.uuid ∉ drawn₀ → id ∉ inHands workers →
    ∃ execution, r.executions.get? id = some execution ∧ Closed engine r₀ turns execution

theorem Closed.mono {engine : Engine} {r₀ : MemoryRepository} {turns turns' : List Turn}
    {execution : Execution} (h : Closed engine r₀ turns execution) (hsub : turns ⊆ turns') :
    Closed engine r₀ turns' execution := by
  obtain ⟨hterminal, turn, hmem, hrecorded⟩ := h
  exact ⟨hterminal, turn, hsub hmem, hrecorded⟩

theorem LastWritten.snoc {engine : Engine} {turns : List Turn} {turn : Turn} {report : Report}
    {success : Option (Json × Instant)} (h : LastWritten engine turns report success)
    (hother : ∀ updated, turn.event.request = .call (.save .report updated) →
      updated.id ≠ report.id) : LastWritten engine (turns ++ [turn]) report success := by
  cases success with
  | none =>
    exact List.forall_mem_append.mpr ⟨h, List.forall_mem_singleton.mpr hother⟩
  | some success =>
    obtain ⟨earlier, hmem, hwritten⟩ := h
    exact ⟨earlier, List.mem_append_left _ hmem, hwritten⟩

theorem refreshed_store (report : Report) (success : Option (Json × Instant)) (payload : Json)
    (written : Instant) :
    ({ report.refreshed success with
        cache := (report.refreshed success).cache.store payload written } : Report)
      = report.refreshed (some (payload, written)) := by
  unfold Report.refreshed
  rw [store_refreshed]

namespace Records

variable {engine : Engine} {r₀ r r' : MemoryRepository} {drawn₀ : List Uuid} {turns : List Turn}
  {workers before after : List Worker} {w : Worker} {request : Request} {answer : request.Answer}
  {room room' : EngineRoom} {next : request.Answer → Action EngineError EngineResult}

/-- A report that was shown to whoever asked for it is one from the start, but for its cache. -/
theorem original_of_answer (h : Records engine r₀ drawn₀ turns workers room r) {turn : Turn}
    (hmem : turn ∈ turns) {id : ReportId} {report : Report}
    (hevent : turn.event = ⟨.call (.get .report id), .ok (some report)⟩) :
    ∃ original success, r₀.reports.get? id = some original ∧ original.id = id ∧
      report = original.refreshed success := by
  obtain ⟨success, hanswer⟩ := h.shown turn hmem id _ hevent
  obtain ⟨original, horiginal, hreport⟩ :=
    Option.map_eq_some_iff.mp (Except.ok.inj hanswer).symm
  exact ⟨original, success, horiginal, (Table.get?_eq_some_iff.mp horiginal).2, hreport.symm⟩

theorem original (h : Records engine r₀ drawn₀ turns workers room r) {report : Report}
    (hshown : ReportShown turns report) :
    ∃ original success, r₀.reports.get? report.id = some original ∧
      report = original.refreshed success := by
  obtain ⟨turn, hmem, id, hevent⟩ := hshown
  obtain ⟨original, success, horiginal, hid, rfl⟩ := h.original_of_answer hmem hevent
  exact ⟨original, success, hid ▸ horiginal, rfl⟩

theorem allowed (h : Records engine r₀ drawn₀ turns (before ++ w :: after) room r)
    (hrest : w.thread.rest = .ask request next) :
    recordProtocol engine w.given w.thread.past request := allowed_of_obeys _ _ h.follows hrest

/-- An execution that is saved for the last time tells of its run, or of the cache. -/
theorem closed_of_save {execution : Execution}
    (h : Records engine r₀ drawn₀ turns (before ++ w :: after) room r)
    (hrest : w.thread.rest = .ask request next)
    (hpast : ∀ event ∈ w.thread.past, ∃ turn ∈ turns, turn.event = event)
    (hsave : request = .call (.save .execution execution))
    (hterminal : execution.status.terminal = true) :
    Closed engine r₀ (turns ++ [⟨w.thread.past, ⟨request, answer⟩⟩]) execution := by
  refine ⟨hterminal, _, List.mem_append_right _ (List.mem_singleton.mpr rfl), hsave, ?_⟩
  have hallowed := h.allowed hrest
  rw [hsave] at hallowed
  refine (hallowed hterminal).imp_right ?_
  rintro ⟨report, ending, hreads, hends⟩
  obtain ⟨original, success, horiginal, rfl⟩ :=
    h.original (hreads.reportShown (h.handed w (by simp) report) hpast)
  refine ⟨original, ending, ?_, ends_refreshed.mp hends⟩
  rw [hends.tells.1]
  exact horiginal

/-- A report that is saved is one from the start, with the payload and the time of one success. -/
theorem renewed_of_save {updated : Report}
    (h : Records engine r₀ drawn₀ turns (before ++ w :: after) room r)
    (hrest : w.thread.rest = .ask request next)
    (hpast : ∀ event ∈ w.thread.past, ∃ turn ∈ turns, turn.event = event)
    (hsave : request = .call (.save .report updated)) :
    ∃ original output written, r₀.reports.get? updated.id = some original ∧
      engine.Renews original output written w.thread.past updated ∧
      updated = original.refreshed (some (output.payload, written)) := by
  have hallowed := h.allowed hrest
  rw [hsave] at hallowed
  obtain ⟨report, output, written, hreads, hrenews⟩ := hallowed
  obtain ⟨original, success, horiginal, rfl⟩ :=
    h.original (hreads.reportShown (h.handed w (by simp) report) hpast)
  have hrenews' := renews_refreshed.mp hrenews
  obtain ⟨final, saved, stored, earlier, hevents, hends, rfl⟩ := hrenews
  -- the report was read before, maybe with another cache
  obtain ⟨turn, hmem, hevent⟩ := hpast ⟨.call (.get .report original.id), .ok (some stored)⟩
    (by rw [hevents]; exact List.mem_cons_of_mem _ List.mem_cons_self)
  obtain ⟨same, success', hsame, hid, rfl⟩ := h.original_of_answer hmem hevent
  obtain rfl : same = original := Option.some.inj (hsame.symm.trans horiginal)
  refine ⟨same, output, written, horiginal, hrenews', ?_⟩
  exact refreshed_store same success' output.payload written

/-- The reports after a turn. -/
theorem reports_turn (h : Records engine r₀ drawn₀ turns (before ++ w :: after) room r)
    (hrest : w.thread.rest = .ask request next)
    (hpast : ∀ event ∈ w.thread.past, ∃ turn ∈ turns, turn.event = event)
    (ha : r.Answered ⟨request, answer⟩ r') (id : ReportId) :
    ∃ success, r'.reports.get? id = (r₀.reports.get? id).map (Report.refreshed · success) ∧
      ∀ report, r₀.reports.get? id = some report →
        LastWritten engine (turns ++ [⟨w.thread.past, ⟨request, answer⟩⟩]) report success := by
  have hkind : EntityKind.report ≠ .alert := nofun
  rcases ha.get? hkind id with ⟨updated, hsave, rfl, hget⟩ | ⟨hother, hget⟩
  · obtain ⟨original, output, written, horiginal, hrenews, hupdated⟩ :=
      h.renewed_of_save hrest hpast hsave
    change r'.reports.get? updated.id = some updated at hget
    change ∃ success, r'.reports.get? updated.id
      = (r₀.reports.get? updated.id).map (Report.refreshed · success) ∧ _
    refine ⟨some (output.payload, written), ?_, fun report hreport => ?_⟩
    · rw [hget, horiginal]
      exact congrArg some hupdated
    · obtain rfl : original = report := Option.some.inj (horiginal.symm.trans hreport)
      exact ⟨_, List.mem_append_right _ (List.mem_singleton.mpr rfl), output, updated, hsave,
        hrenews, rfl⟩
  · obtain ⟨success, hstored, hlast⟩ := h.reports id
    refine ⟨success, hget.trans hstored, fun report hreport => (hlast report hreport).snoc ?_⟩
    intro updated hsave
    have hid : report.id = id := (Table.get?_eq_some_iff.mp hreport).2
    rw [hid]
    exact hother updated hsave

/-- Executions that were not drawn by these triggers, after a turn. -/
theorem kept_turn (h : Records engine r₀ drawn₀ turns (before ++ w :: after) room r)
    (hrest : w.thread.rest = .ask request next)
    (hanswer : EngineRoom.Permits request room answer room') (ha : r.Answered ⟨request, answer⟩ r')
    {id : ExecutionId} (hid : id.uuid ∈ room'.drawn → id.uuid ∈ drawn₀) :
    r'.executions.get? id = r₀.executions.get? id := by
  have hkind : EntityKind.execution ≠ .alert := nofun
  rcases ha.get? hkind id with ⟨execution, hsave, rfl, -⟩ | ⟨-, hget⟩
  · -- whatever is saved is in hand
    obtain rfl : request = .call (.save .execution execution) := hsave
    have hin : execution.id ∈ inHands (before ++ w :: after) :=
      List.mem_flatMap.mpr ⟨w, by simp, (h.custody.allowed hrest).1⟩
    exact absurd (hid (hanswer.drawn_subset (h.custody.drawn _ hin))) (h.fresh _ hin)
  · exact hget.trans (h.kept id fun hdrawn => hid (hanswer.drawn_subset hdrawn))

/-- An identifier that is given out was given out before, or comes to hand. -/
theorem drawn_turn (next : request.Answer → Action EngineError EngineResult)
    (hanswer : EngineRoom.Permits request room answer room') {id : ExecutionId}
    (hdrawn : id.uuid ∈ room'.drawn) :
    id.uuid ∈ room.drawn ∨ id ∈ inHands (before ++ w.next ⟨request, answer⟩ (next answer) ::
      (after ++ engine.hires ⟨request, answer⟩)) := by
  cases request with
  | freshId =>
    obtain ⟨-, hroom⟩ := hanswer
    rw [hroom] at hdrawn
    refine (List.mem_cons.mp hdrawn).symm.imp_right fun hid => ?_
    refine List.mem_flatMap.mpr ⟨w.next ⟨.freshId, answer⟩ (next answer), by simp, ?_⟩
    exact List.mem_cons.mpr (.inl (congrArg Id.mk hid))
  | call c => exact .inl (hanswer.2.2 ▸ hdrawn)
  | putArtifact name bytes => exact .inl (hanswer.2 ▸ hdrawn)
  | relational | dataset | api | now | notify | launch =>
    rw [show room' = room from hanswer] at hdrawn
    exact .inl hdrawn

/-- Executions that these triggers have drawn, after a turn. -/
theorem closed_turn (h : Records engine r₀ drawn₀ turns (before ++ w :: after) room r)
    (hrest : w.thread.rest = .ask request next)
    (hpast : ∀ event ∈ w.thread.past, ∃ turn ∈ turns, turn.event = event)
    (hanswer : EngineRoom.Permits request room answer room') (ha : r.Answered ⟨request, answer⟩ r')
    {id : ExecutionId} (hdrawn : id.uuid ∈ room'.drawn) (hnew : id.uuid ∉ drawn₀)
    (hnot : id ∉ inHands (before ++ w.next ⟨request, answer⟩ (next answer) ::
      (after ++ engine.hires ⟨request, answer⟩))) :
    ∃ execution, r'.executions.get? id = some execution ∧
      Closed engine r₀ (turns ++ [⟨w.thread.past, ⟨request, answer⟩⟩]) execution := by
  have hkind : EntityKind.execution ≠ .alert := nofun
  by_cases hin : id ∈ inHands (before ++ w :: after)
  · obtain ⟨execution, rfl, rfl, hterminal⟩ := h.custody.saved_of_turn hrest hin hnot
    refine ⟨execution, ?_, h.closed_of_save hrest hpast rfl hterminal⟩
    have hsaved : r'.executions = r.executions.save execution :=
      ha.saved .execution execution rfl
    rw [hsaved]
    exact @Table.get?_save_self .execution _ execution
  · have hbefore := (drawn_turn next hanswer hdrawn).resolve_right hnot
    obtain ⟨execution, hget, hclosed⟩ := h.closed id hbefore hnew hin
    refine ⟨execution, ?_, hclosed.mono (List.subset_append_left _ _)⟩
    rcases ha.get? hkind id with ⟨other, hsave, rfl, -⟩ | ⟨-, hsame⟩
    · -- what has been closed is in nobody's hand, so it is not saved again
      obtain rfl : request = .call (.save .execution other) := hsave
      exact absurd (List.mem_flatMap.mpr ⟨w, by simp, (h.custody.allowed hrest).1⟩) hin
    · exact hsame.trans hget

/-- **One turn.** -/
theorem turn (h : Records engine r₀ drawn₀ turns (before ++ w :: after) room r)
    (hrest : w.thread.rest = .ask request next)
    (hpast : ∀ event ∈ w.thread.past, ∃ turn ∈ turns, turn.event = event)
    (hanswer : EngineRoom.Permits request room answer room') :
    ∃ r', Records engine r₀ drawn₀ (turns ++ [⟨w.thread.past, ⟨request, answer⟩⟩])
      (before ++ w.next ⟨request, answer⟩ (next answer) ::
        (after ++ engine.hires ⟨request, answer⟩)) room' r' := by
  obtain ⟨r', hr', ha⟩ := hanswer.memory h.repository
  have hsub : turns ⊆ turns ++ [⟨w.thread.past, ⟨request, answer⟩⟩] :=
    List.subset_append_left _ _
  have hallowed := h.allowed hrest
  refine ⟨r', h.custody.turn hrest hanswer, forall_obeys_of_turn _ _ h.follows hrest ?_,
    forall_given_of_turn ?_ ?_, hr', ?_, ?_, h.reports_turn hrest hpast ha,
    fun _ hid => hanswer.drawn_subset (h.drawn hid), ?_, ?_,
    fun _ => h.kept_turn hrest hanswer ha, fun _ => h.closed_turn hrest hpast hanswer ha⟩
  · rintro report execution rfl
    exact records_background engine hallowed.2
  · exact fun v hv report execution hgiven => (h.handed v hv report execution hgiven).mono hsub
  · rintro report execution rfl
    exact (hallowed.1.reportShown (h.handed w (by simp) report) hpast).mono hsub
  · exact List.forall_mem_append.mpr ⟨h.accepted, List.forall_mem_singleton.mpr ha.accepted⟩
  · refine List.forall_mem_append.mpr ⟨h.shown, List.forall_mem_singleton.mpr ?_⟩
    intro id shown hevent
    obtain ⟨success, hstored, -⟩ := h.reports id
    exact ⟨success, (ha.shown .report id shown hevent).trans (congrArg Except.ok hstored)⟩
  · refine List.forall_mem_append.mpr ⟨fun earlier hmem id hevent => ?_,
      List.forall_mem_singleton.mpr fun id hevent => ?_⟩
    · exact (h.draws earlier hmem id hevent).imp_left fun hid => hanswer.drawn_subset hid
    · cases hevent
      obtain ⟨hfresh, hroom⟩ := hanswer
      exact ⟨hroom ▸ List.mem_cons_self, fun hold => hfresh (h.drawn hold)⟩
  · intro id hid
    rcases h.custody.inHand_of_turn hrest hanswer hid with hid | ⟨hfresh, -⟩
    · exact h.fresh id hid
    · exact fun hold => hfresh (h.drawn hold)

/-- Triggers that are about to begin. -/
theorem start (engine : Engine) (r : MemoryRepository) (store : MemoryStore) (drawn : List Uuid)
    (triggers : List (ReportId × Trigger)) :
    Records engine r drawn [] (newcomers engine (triggers.map fun t => .trigger t.1 t.2))
      ⟨.memory r, store, drawn⟩ r := by
  refine ⟨.start engine _ _, fun w hw => ?_, fun w hw report execution hgiven => ?_, rfl,
    List.forall_mem_nil _, List.forall_mem_nil _, fun id => ⟨none, ?_, fun _ _ => ?_⟩,
    List.Subset.refl _, List.forall_mem_nil _, fun id hid => ?_, fun _ _ => rfl,
    fun id hdrawn hnew => ?_⟩
  · obtain ⟨call, hcall, rfl⟩ := List.mem_map.mp hw
    obtain ⟨⟨id, cause⟩, -, rfl⟩ := List.mem_map.mp hcall
    exact records_trigger engine id cause
  · obtain ⟨call, -, rfl⟩ := List.mem_map.mp hw
    cases hgiven
  · exact Option.map_id'.symm
  · exact List.forall_mem_nil _
  · rw [inHands_newcomers] at hid
    cases hid
  · exact absurd hdrawn hnew

end Records

/-! ## Runs in the background -/

/-- A trigger that is not waited for may be answered in one go. Its run then stands in line. -/
theorem Joint.launched {engine : Engine} {world : World EngineRoom} {id : ReportId}
    {cause : Trigger} {room : EngineRoom} {report : Report} {execution : Execution}
    (hawait : engine.config.awaitCompletion = false)
    (h : (openSetting engine).Admits world (Engine.start id cause) room)
    (hstarted : ((Engine.start id cause).run world room).1 = .value (.started report execution))
    (before after : List (Thread EngineError EngineResult)) :
    ∃ turns past, Joint (openSetting engine)
      ⟨before ++ .begin ((EngineCall.trigger id cause).action engine) :: after, room⟩ turns
      ⟨before ++ ⟨past, .stop (.value (.triggered (.launched execution)))⟩ ::
        (after ++ [.begin (engine.background report execution)]),
        ((Engine.start id cause).run world room).2⟩ := by
  have hfirst : Joint (openSetting engine)
      ⟨before ++ .begin (Engine.start id cause >>= engine.goOn) :: after, room⟩ _ _ :=
    Joint.first h before after []
  rw [hstarted] at hfirst
  have hgo : engine.goOn (.started report execution) = .ask (.launch report execution) fun _ =>
      .stop (.value (.triggered (.launched execution))) := by
    dsimp only [Engine.goOn]
    rw [if_neg (by rw [hawait]; exact Bool.false_ne_true)]
    rfl
  simp only [hgo] at hfirst
  rw [action_trigger]
  have hlaunch := @Takes.ask _ _ _ (openSetting engine) before after
    ((((Engine.start id cause).turns world [] room).map Turn.event).reverse ++ [])
    (.launch report execution) (fun _ => .stop (.value (.triggered (.launched execution))))
    ((Engine.start id cause).run world room).2 _ () rfl
  exact ⟨_, _, hfirst.take hlaunch⟩

/-- Two triggers may be answered before the first of their runs has begun, and the second run may
overtake the first. -/
theorem Joint.overtaken {engine : Engine} {world : World EngineRoom} {id id' : ReportId}
    {cause cause' : Trigger} {room room₁ room₂ room₃ : EngineRoom} {report report' : Report}
    {execution execution' : Execution} (hawait : engine.config.awaitCompletion = false)
    (hfirst : (openSetting engine).Admits world (Engine.start id cause) room)
    (hstarted : (Engine.start id cause).run world room
      = (.value (.started report execution), room₁))
    (hsecond : (openSetting engine).Admits world (Engine.start id' cause') room₁)
    (hstarted' : (Engine.start id' cause').run world room₁
      = (.value (.started report' execution'), room₂))
    (hrun' : (openSetting engine).Admits world (engine.background report' execution') room₂)
    (hroom : ((engine.background report' execution').run world room₂).2 = room₃)
    (hrun : (openSetting engine).Admits world (engine.background report execution) room₃) :
    ∃ turns c, Joint (openSetting engine)
        (engineScene engine [.trigger id cause, .trigger id' cause'] room) turns c ∧
      (∀ t ∈ c.threads, ∃ ending, t.rest = .stop ending) ∧
      c.state = ((engine.background report execution).run world room₃).2 := by
  obtain ⟨turns₁, past₁, h₁⟩ := Joint.launched hawait hfirst (congrArg Prod.fst hstarted) []
    [.begin ((EngineCall.trigger id' cause').action engine)]
  rw [hstarted] at h₁
  obtain ⟨turns₂, past₂, h₂⟩ := Joint.launched hawait hsecond (congrArg Prod.fst hstarted')
    [⟨past₁, .stop (.value (.triggered (.launched execution)))⟩]
    [.begin (engine.background report execution)]
  rw [hstarted'] at h₂
  have h₃ := Joint.alone hrun'
    [⟨past₁, .stop (.value (.triggered (.launched execution)))⟩,
      ⟨past₂, .stop (.value (.triggered (.launched execution')))⟩,
      .begin (engine.background report execution)] [] []
  rw [hroom] at h₃
  have h₄ := ((h₁.trans h₂).trans h₃).trans (Joint.alone hrun
    [⟨past₁, .stop (.value (.triggered (.launched execution)))⟩,
      ⟨past₂, .stop (.value (.triggered (.launched execution')))⟩] [⟨_, _⟩] [])
  refine ⟨_, _, h₄, ?_, rfl⟩
  intro t ht
  simp only [List.cons_append, List.nil_append, List.mem_cons, List.not_mem_nil, or_false] at ht
  rcases ht with rfl | rfl | rfl | rfl <;> exact ⟨_, rfl⟩

/-- An engine that leaves its runs to the background. -/
def Engine.restless : Engine := ⟨⟨true, true⟩, .standard⟩

/-- A room with one report. -/
def loadsRoom : EngineRoom := ⟨.memory Engine.loadsStored, .empty, []⟩

/-! ## Runs -/

variable {engine : Engine} {r : MemoryRepository} {store : MemoryStore} {drawn : List Uuid}
  {triggers : List (ReportId × Trigger)} {turns : List Turn}
  {c : Scene EngineRoom EngineError EngineResult}

theorem records_joint
    (hjoint : Joint (openSetting engine)
      (engineScene engine (triggers.map fun t => .trigger t.1 t.2) ⟨.memory r, store, drawn⟩)
      turns c) :
    ∃ workers r', workers.map Worker.thread = c.threads ∧
      Records engine r drawn turns workers c.state r' := by
  induction hjoint with
  | start => exact ⟨_, r, map_thread_newcomers, .start engine r store drawn triggers⟩
  | take hbefore htake ih =>
    obtain ⟨workers, r', hthreads, hrecords⟩ := ih
    obtain ⟨before, w, after, request, next, answer, rfl, hrest, rfl, ha, hnext⟩ :=
      htake.exists_worker rfl hthreads
    have hw : w.thread ∈ (before ++ w :: after).map Worker.thread := List.mem_map_of_mem (by simp)
    obtain ⟨r'', hturn⟩ := hrecords.turn hrest
      (fun _ he => hbefore.turns.mem_of_past (hthreads ▸ hw) he) ha
    exact ⟨_, r'', hnext, hturn⟩

section

variable {r' : MemoryRepository} {workers : List Worker} {room : EngineRoom} {w : Worker}

/-- A worker whose action has ended. -/
theorem Records.over (h : Records engine r drawn turns workers room r') (hw : w ∈ workers)
    {ending : Ending EngineError EngineResult} (hrest : w.thread.rest = .stop ending) :
    engine.Over w.given w.thread.past ending := by
  have hfollows := h.follows w hw
  rw [hrest] at hfollows
  exact hfollows

/-- Nobody is refused anything, so a worker whose action has ended is settled. -/
theorem Records.settled (h : Records engine r drawn turns workers room r')
    (hpast : ∀ event ∈ w.thread.past, ∃ turn ∈ turns, turn.event = event) (hw : w ∈ workers)
    (hover : ∃ ending, w.thread.rest = .stop ending) :
    hands w.given w.thread.past = [] ∧ engine.CachesSuccess w.thread.past := by
  obtain ⟨ending, hrest⟩ := hover
  refine (h.over hw hrest).1 fun event he => ?_
  obtain ⟨turn, hmem, rfl⟩ := hpast event he
  exact h.accepted turn hmem

/-- After a success somebody has saved the report. -/
theorem Records.saved_of_success {report : Report} {output : Engine.Output} {final : Execution}
    {event : Event} {earlier : List Event} (h : Records engine r drawn turns workers room r')
    (hpast : ∀ event ∈ w.thread.past, ∃ turn ∈ turns, turn.event = event)
    (hcaches : engine.CachesSuccess w.thread.past)
    (hreport : r.reports.get? report.id = some report)
    (hsuffix : event :: earlier <:+ w.thread.past)
    (hsave : event.request = .call (.save .execution final))
    (hends : engine.Ends report (.value output) earlier final) :
    ∃ turn ∈ turns, ∃ updated, turn.event.request = .call (.save .report updated) ∧
      updated.id = report.id := by
  obtain ⟨answer, hget, hsaves⟩ := hcaches event earlier hsuffix final hsave report output hends
  obtain ⟨turn, hmem, hevent⟩ := hpast _ hget
  obtain ⟨success, hanswer⟩ := h.shown turn hmem report.id answer hevent
  rw [hreport] at hanswer
  obtain ⟨updated, saved, hid, hsave⟩ := hsaves _ hanswer
  obtain ⟨saving, hmem, hevent⟩ := hpast _ hsave
  exact ⟨saving, hmem, updated, congrArg Event.request hevent, hid⟩

end

/--
**Triggers side by side.** Any number of triggers of an engine and the runs that they leave to the
background are under way over one repository in memory, and nobody else writes. Artifacts may be
kept anywhere, and no identifier is given out twice. Then, however their requests come one after the
other, once all have come to an end:

* under each identifier that was drawn there is one execution. It is completed or failed and was
  saved by its own trigger or run: with a payload that the cache held when the report was read, or
  with what came of its own run;
* whatever a trigger has given to its caller is an execution with such an identifier;
* executions with other identifiers are as they were;
* no report has come or gone. Either no run of a report has succeeded, and the report is as it was;
  or it is as it was but for its cache, which holds the payload of one of the runs that succeeded
  together with the time that this run has read.
-/
theorem triggers_side_by_side
    (hjoint : Joint (openSetting engine)
      (engineScene engine (triggers.map fun t => .trigger t.1 t.2) ⟨.memory r, store, drawn⟩)
      turns c)
    (hover : ∀ t ∈ c.threads, ∃ ending, t.rest = .stop ending) :
    ∃ r', c.state.repository = .memory r' ∧
      (∀ id : ExecutionId, id.uuid ∈ c.state.drawn → id.uuid ∉ drawn → ∃ execution,
        r'.executions.entities.filter (fun other => other.id = id) = [execution] ∧
        execution.status.terminal = true ∧
        ∃ turn ∈ turns, turn.event.request = .call (.save .execution execution) ∧
          (Serves turn.past execution ∨
            ∃ report ending, r.reports.get? execution.reportId = some report ∧
              engine.Ends report ending turn.past execution ∧ execution.Tells ending)) ∧
      (∀ t ∈ c.threads, ∀ triggered, t.rest = .stop (.value (.triggered triggered)) →
        triggered.execution.id.uuid ∈ c.state.drawn ∧
          triggered.execution.id.uuid ∉ drawn) ∧
      (∀ id : ExecutionId, (id.uuid ∈ c.state.drawn → id.uuid ∈ drawn) →
        r'.executions.get? id = r.executions.get? id) ∧
      (∀ id, r.reports.get? id = none → r'.reports.get? id = none) ∧
      ∀ id report, r.reports.get? id = some report →
        r'.reports.get? id = some report ∧
          (∀ turn ∈ turns, ∀ final output,
            turn.event.request = .call (.save .execution final) →
              ¬ engine.Ends report (.value output) turn.past final) ∨
        ∃ turn ∈ turns, ∃ output written updated,
          turn.event.request = .call (.save .report updated) ∧
            engine.Renews report output written turn.past updated ∧
            r'.reports.get? id
              = some { report with cache := report.cache.store output.payload written } := by
  obtain ⟨workers, r', hthreads, h⟩ := records_joint hjoint
  have hpast : ∀ w ∈ workers, ∀ event ∈ w.thread.past, ∃ turn ∈ turns, turn.event = event :=
    fun w hw _ he => hjoint.turns.mem_of_past (hthreads ▸ List.mem_map_of_mem hw) he
  have hsettled : ∀ w ∈ workers,
      hands w.given w.thread.past = [] ∧ engine.CachesSuccess w.thread.past := fun w hw =>
    h.settled (hpast w hw) hw (hover w.thread (hthreads ▸ List.mem_map_of_mem hw))
  have hnobody : inHands workers = [] :=
    List.flatMap_eq_nil_iff.mpr fun w hw => (hsettled w hw).1
  refine ⟨r', h.repository, fun id hdrawn hnew => ?_, fun t ht triggered hrest => ?_, h.kept,
    fun id hnone => ?_, fun id report hreport => ?_⟩
  · obtain ⟨execution, hget, hterminal, turn, hmem, hsave, hrecorded⟩ :=
      h.closed id hdrawn hnew (hnobody ▸ List.not_mem_nil)
    refine ⟨execution, Table.filter_id hget, hterminal, turn, hmem, hsave, hrecorded.imp_right ?_⟩
    rintro ⟨report, ending, hreport, hends⟩
    exact ⟨report, ending, hreport, hends, hends.tells.2⟩
  · obtain ⟨w, hw, rfl⟩ := List.mem_map.mp (hthreads ▸ ht)
    obtain ⟨turn, hmem, hevent⟩ := hpast w hw _ ((h.over hw hrest).2 triggered rfl)
    exact h.draws turn hmem _ hevent
  · obtain ⟨success, hstored, -⟩ := h.reports id
    rw [hstored, hnone]
    rfl
  · obtain ⟨success, hstored, hlast⟩ := h.reports id
    rw [hreport] at hstored
    cases success with
    | none =>
      refine .inl ⟨hstored, fun turn hmem final output hsave hends => ?_⟩
      -- whoever has succeeded is still there, and has saved the report
      obtain ⟨t, ht, hsuffix⟩ := hjoint.exists_thread hmem
      obtain ⟨w, hw, rfl⟩ := List.mem_map.mp (hthreads ▸ ht)
      have hid : report.id = id := (Table.get?_eq_some_iff.mp hreport).2
      obtain ⟨saving, hsaving, updated, hupdate, hupdated⟩ :=
        h.saved_of_success (hpast w hw) (hsettled w hw).2 (hid ▸ hreport) hsuffix hsave hends
      exact hlast report hreport saving hsaving updated hupdate hupdated
    | some success =>
      obtain ⟨payload, written⟩ := success
      obtain ⟨turn, hmem, output, updated, hsave, hrenews, rfl⟩ := hlast report hreport
      exact .inr ⟨turn, hmem, output, written, updated, hsave, hrenews, hstored⟩

/-- Two triggers of the report are answered before the first of their runs has begun. Both runs are
recorded, and the cache of the report is that of one of them. -/
theorem overtaken_run_recorded :
    ∃ turns c r', Joint (openSetting Engine.restless) (engineScene Engine.restless
        [.trigger Engine.loads.id .manual, .trigger Engine.loads.id .api] loadsRoom) turns c ∧
      (∀ t ∈ c.threads, ∃ ending, t.rest = .stop ending) ∧
      c.state.repository = .memory r' ∧
      (∀ id ∈ [Uuid.ofNat 0, .ofNat 1], ∃ execution : Execution,
        r'.executions.entities.filter (fun other => other.id = ⟨id⟩) = [execution] ∧
          execution.status.terminal = true) ∧
      ∃ turn ∈ turns, ∃ output written updated,
        turn.event.request = .call (.save .report updated) ∧
          Engine.restless.Renews Engine.loads output written turn.past updated ∧
          r'.reports.get? Engine.loads.id = some { Engine.loads with
            cache := Engine.loads.cache.store output.payload written } := by
  obtain ⟨turns, c, hjoint, hover, hroom⟩ := @Joint.overtaken Engine.restless
    (EngineRoom.still (some [∅]) default) Engine.loads.id Engine.loads.id .manual .api loadsRoom
    _ _ _ _ _ _ _ rfl
    ⟨⟨rfl, rfl, rfl⟩, rfl, rfl, rfl, ⟨List.not_mem_nil, rfl⟩, rfl, ⟨rfl, rfl, rfl⟩, rfl, rfl, rfl,
      ⟨rfl, rfl, rfl⟩, rfl, trivial⟩ rfl
    ⟨⟨rfl, rfl, rfl⟩, rfl, rfl, rfl, ⟨by decide, rfl⟩, rfl, ⟨rfl, rfl, rfl⟩, rfl, rfl, rfl,
      ⟨rfl, rfl, rfl⟩, rfl, trivial⟩ rfl
    ⟨rfl, rfl, rfl, rfl, ⟨rfl, rfl, rfl⟩, rfl, ⟨rfl, rfl, rfl⟩, rfl, rfl, rfl, ⟨rfl, rfl, rfl⟩,
      rfl, trivial⟩ rfl
    ⟨rfl, rfl, rfl, rfl, ⟨rfl, rfl, rfl⟩, rfl, ⟨rfl, rfl, rfl⟩, rfl, rfl, rfl, ⟨rfl, rfl, rfl⟩,
      rfl, trivial⟩
  obtain ⟨r', hr', hexecutions, -, -, -, hreports⟩ := @triggers_side_by_side Engine.restless
    Engine.loadsStored .empty [] [(Engine.loads.id, .manual), (Engine.loads.id, .api)] turns c
    hjoint hover
  have hdrawn : c.state.drawn = [.ofNat 1, .ofNat 0] := by
    rw [hroom]
    rfl
  refine ⟨turns, c, r', hjoint, hover, hr', fun id hid => ?_, ?_⟩
  · obtain ⟨execution, hone, hterminal, -⟩ := hexecutions ⟨id⟩
      (by rw [hdrawn]; exact List.mem_reverse.mpr hid) List.not_mem_nil
    exact ⟨execution, hone, hterminal⟩
  · refine (hreports Engine.loads.id Engine.loads rfl).resolve_left fun hkept => ?_
    rw [hroom] at hr'
    obtain rfl := Repository.memory.inj hr'
    -- the cache was empty, and is not
    have hcache := congrArg (Option.map fun report => report.cache.payload.isSome) hkept.1
    exact absurd hcache (by decide +kernel)

end Bulletin
