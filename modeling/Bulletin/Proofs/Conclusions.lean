import Bulletin.Proofs.Breakdowns
import Bulletin.Proofs.Traces

/-!
# Ticks that have come to their end

A tick reads the enabled rules and sets their evaluations going. It is over when all of them have
come to their end. Unless a source broke down, every rule has its outcome then, and the part of
every rule is as its evaluation would have left it if it had been the only one.

* `turns_tick` — the evaluations of a tick
* `Run.concluded` — what is left of them
* `exists_run_evaluateAll` — the rules one after the other
-/

namespace Bulletin

/-! ## The enabled rules -/

namespace MemoryRepository

/-- The enabled rules in order of name and identifier. -/
def enabledRules (r : MemoryRepository) : List AlertRule :=
  (EntityKind.rule.listing () r.rules.entities).filter AlertRule.enabled

variable {r : MemoryRepository} {rule : AlertRule}

theorem mem_enabledRules :
    rule ∈ r.enabledRules ↔ rule ∈ r.rules.entities ∧ rule.enabled = true := by
  unfold enabledRules
  rw [List.mem_filter, EntityKind.mem_listing]
  exact and_congr_left fun _ => and_iff_left rfl

/-- A repository with the same part of a rule has it enabled too. -/
theorem AgreeOn.mem_enabledRules {q : MemoryRepository} (h : AgreeOn rule.id r q)
    (hrule : rule ∈ r.enabledRules) : rule ∈ q.enabledRules := by
  obtain ⟨hmem, henabled⟩ := MemoryRepository.mem_enabledRules.mp hrule
  have hget : q.rules.get? rule.id = some rule :=
    h.record.trans (Table.get?_eq_some_iff.mpr ⟨hmem, rfl⟩)
  exact MemoryRepository.mem_enabledRules.mpr ⟨(Table.get?_eq_some_iff.mp hget).1, henabled⟩

theorem nodup_enabledRules (r : MemoryRepository) : (r.enabledRules.map AlertRule.id).Nodup := by
  have hperm : (EntityKind.rule.listing () r.rules.entities).Perm
      (r.rules.entities.filter (EntityKind.rule.inScope ())) := List.mergeSort_perm _ _
  refine List.Nodup.sublist (List.filter_sublist.map _) ?_
  exact (hperm.map AlertRule.id).nodup_iff.mpr
    (r.rules.distinct.sublist (List.filter_sublist.map _))

/-- All rules, if they are enabled. -/
theorem enabledRules_of_sorted {rules : List AlertRule} (h : rules.Perm r.rules.entities)
    (hsorted : rules.Pairwise fun a b => (EntityKind.rule.order a b != .gt) = true)
    (henabled : ∀ rule ∈ rules, rule.enabled = true) : r.enabledRules = rules := by
  unfold enabledRules
  rw [EntityKind.listing_of_sorted h r.rules.distinct (fun _ _ => rfl) hsorted]
  exact List.filter_eq_self.mpr henabled

/-- The only rule, if it is enabled. -/
theorem enabledRules_of_one (hone : r.rules.entities = [rule]) (henabled : rule.enabled = true) :
    r.enabledRules = [rule] :=
  enabledRules_of_sorted (hone ▸ .refl _) (List.pairwise_singleton _ _)
    (List.forall_mem_singleton.mpr henabled)

/-- The enabled rules are sorted by name and identifier. -/
theorem pairwise_enabledRules (r : MemoryRepository) :
    r.enabledRules.Pairwise fun a b => EntityKind.rule.order a b ≠ .gt := by
  refine List.Pairwise.filter _ ((EntityKind.pairwise_listing () r.rules.entities).imp ?_)
  intro a b h
  simpa using h

end MemoryRepository

theorem enabledRules_loadsRepository :
    loadsRepository.enabledRules = [remoteLoad, anyLoad, otherLoad] :=
  MemoryRepository.enabledRules_of_sorted (by decide) (by decide) (by decide)

namespace Round

/-- The evaluations of a tick, about to begin. -/
def tick (evaluator : Evaluator) (r : MemoryRepository) (drawn : List Uuid) : Round :=
  begin evaluator r.enabledRules r drawn

/-- A tick reads the rules in one turn, and then its evaluations begin. -/
theorem turns_tick (evaluator : Evaluator) (r : MemoryRepository) (drawn : List Uuid) :
    Turns alertSetting (alertScene [.tick evaluator] ⟨.memory r, drawn⟩)
      [⟨[], ⟨.call (.list .rule ()), .ok (EntityKind.rule.listing () r.rules.entities)⟩⟩]
      (tick evaluator r drawn).scene := by
  let rules := EntityKind.rule.listing () r.rules.entities
  let event : Event := ⟨.call (.list .rule ()), .ok rules⟩
  let read : Thread AlertError AlertResult :=
    ⟨[event], .stop (.value (.rules evaluator r.enabledRules))⟩
  have hread : Takes alertSetting (alertScene [.tick evaluator] ⟨.memory r, drawn⟩) ⟨[], event⟩
      ⟨[read], ⟨.memory r, drawn⟩⟩ :=
    @Takes.ask _ _ _ alertSetting [] [] [] (.call (.list .rule ())) _ _ ⟨.memory r, drawn⟩
      (.ok rules) ⟨rfl, rfl⟩
  have hfork : Step alertSetting ⟨[read], ⟨.memory r, drawn⟩⟩ none
      ⟨(r.enabledRules.map (ruleAction evaluator)).map Thread.begin ++ [], ⟨.memory r, drawn⟩⟩ :=
    @Step.fork _ _ _ alertSetting [] [] [event] _ ⟨.memory r, drawn⟩
  rw [List.append_nil] at hfork
  rw [tick, scene_begin]
  exact (Turns.start.take hread).fork hfork

/-! ## Conclusions -/

/-- All evaluations have come to their end. -/
def Over (t : Round) : Prop := ∀ e ∈ t.evaluations, ∃ ending, e.thread.rest = .stop ending

theorem over_of_threads {t : Round}
    (h : ∀ thread ∈ t.scene.threads, ∃ ending, thread.rest = .stop ending) : t.Over :=
  fun _ he => h _ (List.mem_map_of_mem he)

theorem over_of_outcomes {t : Round} {outcomes : List RuleOutcome}
    (h : t.evaluations.map (fun e => e.thread.rest)
      = outcomes.map fun outcome => .stop (.value (.outcome outcome))) : t.Over := by
  intro e he
  have hmem : e.thread.rest ∈ t.evaluations.map fun e => e.thread.rest := List.mem_map_of_mem he
  rw [h] at hmem
  obtain ⟨outcome, -, hrest⟩ := List.mem_map.mp hmem
  exact ⟨_, hrest.symm⟩

/-- The evaluations of some rules have come to their outcomes. -/
structure Concluded (evaluator : Evaluator) (rules : List AlertRule) (r : MemoryRepository)
    (t : Round) (result : AlertRule → RuleOutcome) : Prop where
  /-- every rule has its outcome, in its place -/
  outcomes : t.evaluations.map (fun e => e.thread.rest)
    = rules.map fun rule => .stop (.value (.outcome (result rule)))
  /-- it is that of an evaluation by itself, and so is the part of the rule -/
  ways : ∀ rule ∈ rules, ∃ past own,
    ⟨rule, ⟨past, .stop (.value (.outcome (result rule)))⟩⟩ ∈ t.evaluations ∧
      evaluator.Ways rule r past.reverse (.value (result rule)) own ∧
      MemoryRepository.AgreeOn rule.id own t.repository
  /-- the parts of other rules are as they were -/
  others : ∀ id ∉ rules.map AlertRule.id, MemoryRepository.AgreeOn id r t.repository
  besides : r.SameBesides t.repository

variable {evaluator : Evaluator} {rules : List AlertRule} {r : MemoryRepository}
  {drawn : List Uuid} {t : Round} {turns : List Turn}

/-- What is left of evaluations that are over, if no source has broken down. -/
theorem Run.concluded (hrules : (rules.map AlertRule.id).Nodup)
    (h : (begin evaluator rules r drawn).Run turns t) (hover : t.Over) (hbroken : ¬ t.Broken) :
    ∃ result, Concluded evaluator rules r t result := by
  have hends : ∀ e ∈ t.evaluations, ∃ outcome,
      e.thread.rest = .stop (.value (.outcome outcome)) ∧ ∃ own,
        evaluator.Ways e.rule r e.thread.past.reverse (.value outcome) own ∧
        MemoryRepository.AgreeOn e.rule.id own t.repository := by
    rintro ⟨rule, past, rest⟩ he
    obtain ⟨ending, hrest⟩ := hover _ he
    obtain rfl : rest = .stop ending := hrest
    obtain ⟨own, hagree, ⟨outcome, rfl, hways⟩ | ⟨crash, rfl, -⟩⟩ := h.ways hrules he
    · exact ⟨outcome, rfl, own, hways, hagree⟩
    · exact absurd ⟨_, he, crash, rfl⟩ hbroken
  have hresult : ∀ rule, ∃ outcome, ∀ e ∈ t.evaluations, e.rule = rule →
      e.thread.rest = .stop (.value (.outcome outcome)) ∧ ∃ own,
        evaluator.Ways e.rule r e.thread.past.reverse (.value outcome) own ∧
        MemoryRepository.AgreeOn e.rule.id own t.repository := by
    intro rule
    by_cases hex : ∃ e ∈ t.evaluations, e.rule = rule
    · obtain ⟨e, he, rfl⟩ := hex
      obtain ⟨outcome, hspec⟩ := hends e he
      exact ⟨outcome, fun e' he' hrule =>
        h.eq_of_rule hrules he he' hrule.symm ▸ hspec⟩
    · exact ⟨.skipped rule.id "", fun e he hrule => absurd ⟨e, he, hrule⟩ hex⟩
  choose result hresult using hresult
  refine ⟨result, ?_, ?_, ?_, ?_⟩
  · rw [← h.evaluated, List.map_map]
    exact List.map_congr_left fun e he => (hresult e.rule e he rfl).1
  · intro rule hrule
    obtain ⟨e, he, rfl⟩ := h.exists_evaluation hrule
    obtain ⟨hrest, own, hways, hagree⟩ := hresult e.rule e he rfl
    exact ⟨e.thread.past, own, hrest ▸ he, hways, hagree⟩
  · intro id hid
    refine h.others (apart_begin evaluator r drawn hrules) ?_
    rw [begin, List.map_map]
    exact hid
  · exact h.besides (apart_begin evaluator r drawn hrules)

/-! ## One rule after the other -/

variable {world : World AlertRoom}

/-- An evaluation may come to its end in one go. -/
theorem exists_run_alone {action : Action AlertError AlertResult}
    (h : alertSetting.Admits world action ⟨.memory r, drawn⟩) (before after : List Evaluation)
    (rule : AlertRule) (past : List Event) :
    ∃ turns r' drawn', (action.run world ⟨.memory r, drawn⟩).2 = ⟨.memory r', drawn'⟩ ∧
      Run ⟨before ++ ⟨rule, ⟨past, action⟩⟩ :: after, r, drawn⟩ turns
        ⟨before ++ ⟨rule, ⟨(action.trace world ⟨.memory r, drawn⟩).reverse ++ past,
          .stop (action.run world ⟨.memory r, drawn⟩).1⟩⟩ :: after, r', drawn'⟩ := by
  induction action generalizing past r drawn with
  | stop e => exact ⟨[], r, drawn, rfl, .start⟩
  | ask request next ih =>
    obtain ⟨hanswer, -, hrest⟩ := h
    obtain ⟨r₁, drawn₁, hs⟩ := answers_memory hanswer
    rw [hs] at hanswer hrest
    obtain ⟨turns, r', drawn', hstate, hrun⟩ := ih _ hrest (⟨request, _⟩ :: past)
    rw [Action.run, Action.trace, hs, List.reverse_cons, List.append_assoc]
    exact ⟨_, r', drawn', hstate, (Run.start.advance (.take hanswer)).trans hrun⟩

/-- A tick of a single rule comes to its end with the evaluation of this rule. -/
theorem exists_tick_of_one {evaluator : Evaluator} {rule : AlertRule} {r' : MemoryRepository}
    {drawn' : List Uuid} (hone : r.enabledRules = [rule])
    (h : alertSetting.Admits world (ruleAction evaluator rule) ⟨.memory r, drawn⟩)
    (hafter : ((ruleAction evaluator rule).run world ⟨.memory r, drawn⟩).2
      = ⟨.memory r', drawn'⟩) :
    ∃ turns, (tick evaluator r drawn).Run turns
      ⟨[⟨rule, ⟨((ruleAction evaluator rule).trace world ⟨.memory r, drawn⟩).reverse,
        .stop ((ruleAction evaluator rule).run world ⟨.memory r, drawn⟩).1⟩⟩], r', drawn'⟩ := by
  obtain ⟨turns, _, _, hstate, hrun⟩ := exists_run_alone h [] [] rule []
  cases hafter.symm.trans hstate
  rw [List.append_nil, List.nil_append] at hrun
  refine ⟨turns, ?_⟩
  unfold tick
  rw [hone]
  exact hrun

/-- A world has answered all that some evaluations have asked for. -/
def Answered (world : World AlertRoom) (evaluations : List Evaluation) : Prop :=
  ∀ e ∈ evaluations, ∀ event ∈ e.thread.past, ∃ s, event.answer = (world event.request s).1

/-- Evaluations may take turns in a given order, and a world may answer them. -/
theorem exists_play {evaluator : Evaluator} {rules : List AlertRule} {places : List Nat}
    (h : alertSetting.AdmitsPlay world places (begin evaluator rules r drawn).scene) :
    ∃ t, (begin evaluator rules r drawn).Run
        ((begin evaluator rules r drawn).scene.play world places).1 t ∧
      ((begin evaluator rules r drawn).scene.play world places).2 = t.scene ∧
      Answered world t.evaluations := by
  have hjoint := Joint.play h
  obtain ⟨t, hrun, hscene⟩ := joint_scene.mp hjoint
  refine ⟨t, hrun, hscene, fun e he event hevent => ?_⟩
  -- whatever an evaluation was answered, it was answered in one of the turns
  have hturns := hjoint.turns
  rw [hscene, scene_begin] at hturns
  obtain ⟨turn, hturn, rfl⟩ := hturns.mem_of_past (List.mem_map_of_mem he) hevent
  exact Scene.answered_play hturn

/-- An evaluation that has come to its end in one go. -/
def inOneGo (world : World AlertRoom) (evaluator : Evaluator) (rule : AlertRule)
    (s : AlertRoom) : Evaluation :=
  ⟨rule, ⟨((ruleAction evaluator rule).trace world s).reverse ++ [],
    .stop ((ruleAction evaluator rule).run world s).1⟩⟩

theorem answered_inOneGo (evaluator : Evaluator) (rule : AlertRule) (s : AlertRoom)
    {evaluations : List Evaluation} (h : Answered world evaluations) :
    Answered world (inOneGo world evaluator rule s :: evaluations) := by
  refine List.forall_mem_cons.mpr ⟨fun event he => ?_, h⟩
  change event ∈ List.reverse _ ++ [] at he
  rw [List.append_nil, List.mem_reverse] at he
  exact Action.trace_answered _ _ event he

theorem answered_begin (evaluator : Evaluator) (rules : List AlertRule) :
    Answered world (rules.map (.begin evaluator)) := by
  intro e he event hevent
  obtain ⟨rule, -, rfl⟩ := List.mem_map.mp he
  exact absurd hevent List.not_mem_nil

/-- How rules end that are evaluated one after the other: with the outcomes of all, unless one
evaluation ends with something else. -/
inductive Ends : Ending AlertError (List RuleOutcome) → List Evaluation → Prop
  | outcomes {outcomes : List RuleOutcome} {evaluations : List Evaluation}
    (h : evaluations.map (fun e => e.thread.rest)
      = outcomes.map fun outcome => .stop (.value (.outcome outcome))) :
    Ends (.value outcomes) evaluations
  | failure {ending : Ending AlertError (List RuleOutcome)} {evaluations : List Evaluation}
    {e : Evaluation} {last : Ending AlertError AlertResult} (he : e ∈ evaluations)
    (hrest : e.thread.rest = .stop last) (hlast : ∀ outcome, last ≠ .value (.outcome outcome)) :
    Ends ending evaluations

theorem run_ruleAction (world : World AlertRoom) (evaluator : Evaluator) (rule : AlertRule)
    (s : AlertRoom) :
    (ruleAction evaluator rule).run world s =
      match (evaluator.outcomeOf rule).run world s with
      | (.value outcome, s') => (.value (.outcome outcome), s')
      | (.error e, s') => (.error e, s')
      | (.crash c, s') => (.crash c, s') := by
  unfold ruleAction
  rw [Action.run_bind]
  rcases (evaluator.outcomeOf rule).run world s with ⟨_ | _ | _, _⟩ <;> rfl

/-- Evaluating rules one after the other is a run of their evaluations. -/
theorem exists_run_evaluateAll (evaluator : Evaluator) (rules : List AlertRule)
    (h : alertSetting.Admits world (evaluator.evaluateAll rules) ⟨.memory r, drawn⟩)
    (before : List Evaluation) :
    ∃ turns evaluations r' drawn',
      Run ⟨before ++ rules.map (.begin evaluator), r, drawn⟩ turns
        ⟨before ++ evaluations, r', drawn'⟩ ∧
      ((evaluator.evaluateAll rules).run world ⟨.memory r, drawn⟩).2 = ⟨.memory r', drawn'⟩ ∧
      Answered world evaluations ∧
      Ends ((evaluator.evaluateAll rules).run world ⟨.memory r, drawn⟩).1 evaluations := by
  induction rules generalizing r drawn before with
  | nil =>
    exact ⟨[], [], r, drawn, .start, rfl, fun _ he => absurd he List.not_mem_nil, .outcomes rfl⟩
  | cons rule rest ih =>
    obtain ⟨hrule, hrest⟩ := Setting.admits_andThen.mp h
    have hadmits : alertSetting.Admits world (ruleAction evaluator rule) ⟨.memory r, drawn⟩ := by
      refine Setting.admits_andThen.mpr ⟨hrule, ?_⟩
      split <;> trivial
    obtain ⟨turns, r₁, drawn₁, hstate, hrun⟩ := exists_run_alone hadmits before
      (rest.map (.begin evaluator)) rule []
    let first := inOneGo world evaluator rule ⟨.memory r, drawn⟩
    change Run _ turns ⟨before ++ first :: rest.map (.begin evaluator), r₁, drawn₁⟩ at hrun
    -- the thread of the rule ends as the evaluation does
    have hends := run_ruleAction world evaluator rule ⟨.memory r, drawn⟩
    have hfirst : first.thread.rest
        = .stop ((ruleAction evaluator rule).run world ⟨.memory r, drawn⟩).1 := rfl
    rw [hends] at hstate hfirst
    unfold Evaluator.evaluateAll
    rw [Action.run_bind]
    generalize (evaluator.outcomeOf rule).run world ⟨.memory r, drawn⟩ = ended
      at hrest hstate hfirst
    obtain ⟨ending, s₁⟩ := ended
    cases ending with
    | value outcome =>
      obtain rfl : s₁ = ⟨.memory r₁, drawn₁⟩ := hstate
      obtain ⟨hall, -⟩ := Setting.admits_andThen.mp hrest
      obtain ⟨turns', evaluations, r', drawn', hrun', hstate', hanswered, hlast⟩ :=
        ih hall (before ++ [first])
      rw [List.append_assoc, List.append_assoc, List.singleton_append,
        List.singleton_append] at hrun'
      refine ⟨turns ++ turns', first :: evaluations, r', drawn', hrun.trans hrun', ?_,
        answered_inOneGo evaluator rule _ hanswered, ?_⟩
      · dsimp only
        rw [Action.run_bind, ← hstate']
        rcases (evaluator.evaluateAll rest).run world ⟨.memory r₁, drawn₁⟩ with ⟨_ | _ | _, _⟩ <;>
          rfl
      · dsimp only
        rw [Action.run_bind]
        generalize (evaluator.evaluateAll rest).run world ⟨.memory r₁, drawn₁⟩ = ended at hlast
        obtain ⟨ending, s₂⟩ := ended
        dsimp only at hlast ⊢
        cases hlast with
        | @outcomes outcomes _ houtcomes =>
          refine .outcomes ?_
          rw [List.map_cons, List.map_cons, houtcomes, hfirst]
        | failure he hrest hlast => exact .failure (List.mem_cons_of_mem _ he) hrest hlast
    | error e =>
      exact ⟨turns, first :: rest.map (.begin evaluator), r₁, drawn₁, hrun, hstate,
        answered_inOneGo evaluator rule _ (answered_begin evaluator rest),
        .failure List.mem_cons_self hfirst (by rintro _ ⟨⟩)⟩
    | crash c =>
      exact ⟨turns, first :: rest.map (.begin evaluator), r₁, drawn₁, hrun, hstate,
        answered_inOneGo evaluator rule _ (answered_begin evaluator rest),
        .failure List.mem_cons_self hfirst (by rintro _ ⟨⟩)⟩

end Round

/-! ## A tick at work -/

/-- The evaluations of three rules, about to begin. -/
def loadsRound : Round :=
  .begin loadEvaluator [remoteLoad, anyLoad, otherLoad] loadsRepository []

/-- An order in which their requests come in between one another's. -/
def loadsOrder : List Nat := [1, 2, 0, 2, 1, 2, 1, 1, 2, 1, 2, 1, 2]

theorem tick_loadsRepository : Round.tick loadEvaluator loadsRepository [] = loadsRound := by
  rw [Round.tick, enabledRules_loadsRepository]
  rfl

/-- All identifiers are free where no alert is stored. -/
theorem free_of_no_alert {r : MemoryRepository} (h : r.alerts = Table.empty) (id : AlertId) :
    ¬ (Repository.memory r).Occupied id := by
  rintro ⟨_, ha, -⟩
  rw [h] at ha
  cases ha

/-- All but its own are free where one alert is stored. -/
theorem free_of_one_alert {r : MemoryRepository} {alert : Alert} {id : AlertId}
    (h : r.alerts = Table.empty.save alert) (hne : alert.id ≠ id) :
    ¬ (Repository.memory r).Occupied id := by
  rintro ⟨_, ha, hid⟩
  rw [h] at ha
  obtain rfl := List.mem_singleton.mp ha
  exact hne hid

/-- In this order the external interface does not answer the first of them, and the others open
their alerts. -/
theorem exists_tick_cutOff :
    ∃ t, (Round.tick loadEvaluator loadsRepository []).Run
        (loadsRound.scene.play cutOff loadsOrder).1 t ∧ t.Over ∧
      Round.Answered cutOff t.evaluations ∧
      ∃ reason report report', t.evaluations.map (fun e => e.thread.rest)
        = [.skipped remoteLoad.id reason,
            .triggered anyLoad.id (.finite .zero) ⟨.ofNat 1⟩ report,
            .triggered otherLoad.id (.finite .zero) ⟨.ofNat 0⟩ report'].map
          fun outcome => .stop (.value (.outcome outcome)) := by
  have hadmits : alertSetting.AdmitsPlay cutOff loadsOrder loadsRound.scene :=
    ⟨rfl, rfl, rfl, rfl, rfl, rfl, rfl, rfl, rfl, rfl,
      ⟨List.not_mem_nil, free_of_no_alert rfl _, rfl⟩, rfl,
      ⟨by decide, free_of_no_alert rfl _, rfl⟩, rfl, ⟨rfl, rfl⟩, rfl, ⟨rfl, rfl⟩, rfl,
      ⟨rfl, rfl⟩, rfl, ⟨rfl, rfl⟩, rfl, ⟨rfl, rfl⟩, rfl, ⟨rfl, rfl⟩, rfl, trivial⟩
  obtain ⟨t, hrun, hscene, hanswered⟩ := Round.exists_play hadmits
  have hrests : t.evaluations.map (fun e => e.thread.rest)
      = (loadsRound.scene.play cutOff loadsOrder).2.threads.map Thread.rest := by
    rw [loadsRound, hscene, Round.scene, List.map_map]
    rfl
  obtain ⟨reason, report, report', hends⟩ : ∃ reason report report',
      t.evaluations.map (fun e => e.thread.rest)
        = [.skipped remoteLoad.id reason,
            .triggered anyLoad.id (.finite .zero) ⟨.ofNat 1⟩ report,
            .triggered otherLoad.id (.finite .zero) ⟨.ofNat 0⟩ report'].map
          fun outcome => .stop (.value (.outcome outcome)) := ⟨_, _, _, hrests.trans rfl⟩
  rw [tick_loadsRepository]
  exact ⟨t, hrun, Round.over_of_outcomes hends, hanswered, reason, report, report', hends⟩

end Bulletin
