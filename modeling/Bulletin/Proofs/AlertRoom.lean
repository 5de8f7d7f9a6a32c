import Bulletin.Proofs.AlertProtocol
import Bulletin.Proofs.SideBySide
import Bulletin.Proofs.StoredAlerts

/-!
# The evaluator among others

Any number of calls of evaluators run side by side over one repository. A tick reads the enabled
rules and then evaluates all of them side by side. The repository answers each call in one step;
clocks, connectors and channels answer anything at all, and no identifier is given out twice.

`Run.tick` connects this with `Evaluator.tick`, which evaluates the rules one after the other: that
is one of the runs here.
-/

namespace Bulletin

/-! ## Calls -/

/-- What a call of the evaluator comes to. -/
inductive AlertResult where
  /-- the enabled rules, which a tick goes on to evaluate -/
  | rules (evaluator : Evaluator) (rules : List AlertRule)
  | outcome (outcome : RuleOutcome)
  | alert (alert : Alert)

/-- A call of an evaluator. -/
inductive AlertCall where
  | tick (evaluator : Evaluator)
  | evaluate (evaluator : Evaluator) (rule : AlertRule)
  | acknowledge (id : AlertId) (person : Option String)
  | resolve (id : AlertId) (reason : String)

/-- The action of a call; that of a tick ends where its rules are set going. -/
def AlertCall.action : AlertCall → Action AlertError AlertResult
  | .tick evaluator => do return .rules evaluator (← Evaluator.enabledRules)
  | .evaluate evaluator rule => do return .outcome (← evaluator.evaluateRule rule)
  | .acknowledge id person => do return .alert (← Evaluator.acknowledge id person)
  | .resolve id reason => do return .alert (← Evaluator.resolve id reason)

/-- The evaluation of one rule of a tick. -/
def ruleAction (evaluator : Evaluator) (rule : AlertRule) : Action AlertError AlertResult := do
  return .outcome (← evaluator.outcomeOf rule)

/-- A tick that has read its rules evaluates them. -/
def tickForks : Ending AlertError AlertResult → List (Action AlertError AlertResult)
  | .value (.rules evaluator rules) => rules.map (ruleAction evaluator)
  | _ => []

/-! ## The room -/

/-- What evaluators share: a repository, and the identifiers that were given out. -/
structure AlertRoom where
  repository : Repository
  drawn : List Uuid

/-- How a request of an evaluator may be answered. A fresh identifier was never given out before
and is not one of a stored alert. -/
def AlertRoom.Answers : (request : Request) → AlertRoom → request.Answer → AlertRoom → Prop
  | .call c, s, answer, s' =>
    s.repository.answer c = (answer, s'.repository) ∧ s'.drawn = s.drawn
  | .freshId, s, id, s' =>
    id ∉ s.drawn ∧ ¬ s.repository.Occupied ⟨id⟩ ∧ s' = { s with drawn := id :: s.drawn }
  | _, s, _, s' => s' = s

def alertSetting : Setting AlertRoom AlertError AlertResult where
  answers := AlertRoom.Answers
  launches _ := []
  forks := tickForks

/-- Some calls about to begin in a room. -/
def alertScene (calls : List AlertCall) (s : AlertRoom) : Scene AlertRoom AlertError AlertResult :=
  .begin (calls.map AlertCall.action) s

/-- A step in which the repository is called does what the repository does. -/
theorem answer_of_step {c c' : Scene AlertRoom AlertError AlertResult} {call : Call}
    {answer : call.Answer} (h : Step alertSetting c (some ⟨.call call, answer⟩) c') :
    c.state.repository.answer call = (answer, c'.state.repository) := by
  cases h with
  | ask ha => exact ha.1

/-! ## The protocol -/

theorem obeys_action (call : AlertCall) :
    call.action.Obeys alertProtocol (fun _ _ => True) [] := by
  cases call with
  | tick evaluator => exact (obeys_enabledRules []).bind fun _ _ => trivial
  | evaluate evaluator rule => exact (obeys_evaluateRule evaluator rule []).bind fun _ _ => trivial
  | acknowledge id person => exact (obeys_acknowledge id person []).bind fun _ _ => trivial
  | resolve id reason => exact (obeys_resolve id reason []).bind fun _ _ => trivial

theorem obeys_ruleAction (evaluator : Evaluator) (rule : AlertRule) :
    (ruleAction evaluator rule).Obeys alertProtocol (fun _ _ => True) [] :=
  (obeys_outcomeOf evaluator rule []).bind fun _ _ => trivial

theorem alertSetting_obeys : alertSetting.Obeys alertProtocol where
  launches _ _ h := absurd h List.not_mem_nil
  forks ending action h := by
    change action ∈ tickForks ending at h
    unfold tickForks at h
    split at h
    · obtain ⟨rule, -, rfl⟩ := List.mem_map.mp h
      exact obeys_ruleAction _ rule
    · exact absurd h List.not_mem_nil

/-! ## A tick without interruptions -/

/-- Evaluating some rules one after the other is a run of their evaluations. -/
theorem Run.evaluateAll {world : World AlertRoom} (evaluator : Evaluator) (rules : List AlertRule)
    {s : AlertRoom} (h : alertSetting.Admits world (evaluator.evaluateAll rules) s)
    (before : List (Thread AlertError AlertResult)) :
    ∃ events threads, Run alertSetting
      ⟨before ++ (rules.map (ruleAction evaluator)).map Thread.begin, s⟩ events
      ⟨threads, ((evaluator.evaluateAll rules).run world s).2⟩ := by
  induction rules generalizing s before with
  | nil => exact ⟨[], _, .start⟩
  | cons rule rest ih =>
    obtain ⟨hrule, hrest⟩ := Setting.admits_andThen.mp h
    have hadmits : alertSetting.Admits world (ruleAction evaluator rule) s := by
      refine Setting.admits_andThen.mpr ⟨hrule, ?_⟩
      split <;> trivial
    obtain ⟨events, past, hfirst⟩ := Run.alone hadmits before
      ((rest.map (ruleAction evaluator)).map Thread.begin) []
    have hstate : ((ruleAction evaluator rule).run world s).2
        = ((evaluator.outcomeOf rule).run world s).2 := by
      unfold ruleAction
      rw [Action.run_bind]
      rcases (evaluator.outcomeOf rule).run world s with ⟨_ | _ | _, _⟩ <;> rfl
    unfold Evaluator.evaluateAll
    rw [Action.run_bind]
    rw [hstate] at hfirst
    generalize (evaluator.outcomeOf rule).run world s = ended at hfirst hrest
    match ended, hrest with
    | (.error _, s'), _ => exact ⟨events, _, hfirst⟩
    | (.crash _, s'), _ => exact ⟨events, _, hfirst⟩
    | (.value outcome, s'), hrest =>
      -- the evaluation that has ended stays where it is, and the others go on after it
      obtain ⟨hall, -⟩ := Setting.admits_andThen.mp hrest
      obtain ⟨events', threads, hothers⟩ := ih hall
        (before ++ [⟨past, .stop ((ruleAction evaluator rule).run world s).1⟩])
      rw [List.append_assoc, List.singleton_append] at hothers
      refine ⟨events ++ events', threads, ?_⟩
      have hend : ((evaluator.evaluateAll rest >>= fun outcomes =>
          pure (outcome :: outcomes)).run world s').2
          = ((evaluator.evaluateAll rest).run world s').2 := by
        rw [Action.run_bind]
        rcases (evaluator.evaluateAll rest).run world s' with ⟨_ | _ | _, _⟩ <;> rfl
      rw [hend]
      exact hfirst.trans hothers

/-- A tick that evaluates the rules one after the other is a run of the tick that evaluates them
side by side. -/
theorem Run.tick {world : World AlertRoom} (evaluator : Evaluator) {s : AlertRoom}
    (h : alertSetting.Admits world evaluator.tick s) :
    ∃ events threads, Run alertSetting (alertScene [.tick evaluator] s) events
      ⟨threads, (evaluator.tick.run world s).2⟩ := by
  obtain ⟨hrules, hall⟩ := Setting.admits_andThen.mp h
  have hadmits : alertSetting.Admits world (AlertCall.tick evaluator).action s := by
    refine Setting.admits_andThen.mpr ⟨hrules, ?_⟩
    split <;> trivial
  obtain ⟨events, past, hread⟩ := Run.alone hadmits [] [] []
  unfold AlertCall.action at hread
  unfold Evaluator.tick
  rw [Action.run_bind] at hread ⊢
  generalize Evaluator.enabledRules.run world s = ended at hread hall
  match ended, hall with
  | (.error _, s'), _ => exact ⟨events, _, hread⟩
  | (.crash _, s'), _ => exact ⟨events, _, hread⟩
  | (.value rules, s'), hall =>
    obtain ⟨events', threads, hrun⟩ := Run.evaluateAll evaluator rules hall []
    have hfork : Step alertSetting ⟨[⟨past, .stop (.value (.rules evaluator rules))⟩], s'⟩ none
        ⟨((rules.map (ruleAction evaluator)).map Thread.begin ++ []), s'⟩ :=
      @Step.fork _ _ _ alertSetting [] [] past (.value (.rules evaluator rules)) s'
    rw [List.append_nil] at hfork
    exact ⟨_, threads, (hread.step hfork).trans hrun⟩

/-! ## A room at work -/

/-- A world in which every source has the same row, time stands still, and everything is
delivered. -/
def AlertRoom.still (row : Record) (now : Instant) : World AlertRoom
  | .call c, s => ((s.repository.answer c).1, { s with repository := (s.repository.answer c).2 })
  | .relational _ _, s => (.value [row], s)
  | .dataset _, s => (.value (some [row]), s)
  | .api _, s => (.value [row], s)
  | .now, s => (now, s)
  | .freshId, s => (.ofNat s.drawn.length, { s with drawn := .ofNat s.drawn.length :: s.drawn })
  | .putArtifact name _, s => (.ok name, s)
  | .notify _ _, s => (.ok (), s)
  | .launch _ _, s => ((), s)

/-- A rule that is breached by any load. -/
def anyLoad : AlertRule :=
  .new default "any load" (.dataset "samples" "load") ⟨.finite .zero, .greaterOrEqual⟩

/-- An evaluator with all connectors. -/
def loadEvaluator : Evaluator := ⟨⟨true, true⟩, .standard⟩

/-- An evaluation of this rule. -/
def loadCall : AlertCall := .evaluate loadEvaluator anyLoad

/-- A repository that has this rule only. -/
def loadRepository : MemoryRepository := MemoryRepository.empty.set .rule (Table.empty.save anyLoad)

/-- A world in which the load is zero. -/
def noLoad : World AlertRoom :=
  AlertRoom.still (.single "load" (.number (.real .zero))) default

/-- Another rule that is breached by any load. -/
def otherLoad : AlertRule := { anyLoad with id := ⟨.ofNat 1⟩, name := "other load" }

/-- A rule whose metric comes from an external interface. -/
def remoteLoad : AlertRule :=
  .new ⟨.ofNat 2⟩ "a remote load" (.externalApi "load" "http://load") ⟨.finite .zero, .greaterThan⟩

/-- A repository that has these three rules. -/
def loadsRepository : MemoryRepository :=
  MemoryRepository.empty.set .rule (((Table.empty.save remoteLoad).save otherLoad).save anyLoad)

/-- A world in which the external interface does not answer. -/
def cutOff : World AlertRoom
  | .api _, s => (.failure (.connector "no answer"), s)
  | request, s => noLoad request s

/-- A world in which the external interface breaks down. -/
def boom : World AlertRoom
  | .api _, s => (.crash (.text "boom"), s)
  | request, s => noLoad request s

end Bulletin
