import Bulletin.Proofs.Conclusions

/-!
# What comes out of a tick

A tick that meets no breakdown comes to one outcome for every enabled rule. A rule whose metric
cannot be read is skipped, with the reason. A breakdown of a connector is not an outcome: it goes
through the evaluation and takes the tick with it.

In both cases the other rules do what they would do if the rule were switched off.

* `enabledRules_switchedOff` — one rule less
* `tick_outcomes`
* `tick_breaks_down` — a breakdown ends the tick
-/

namespace Bulletin

open MemoryRepository (AgreeOn)

/-! ## One rule less -/

/-- A rule that is not enabled. -/
def AlertRule.off (rule : AlertRule) : AlertRule := { rule with enabled := false }

namespace MemoryRepository

variable {r : MemoryRepository} {id other : RuleId} {rule : AlertRule}

/-- The repository with a rule switched off. -/
def switchedOff (r : MemoryRepository) (id : RuleId) : MemoryRepository :=
  match r.rules.get? id with
  | none => r
  | some rule => r.put .rule rule.off

theorem get?_switchedOff (r : MemoryRepository) (id other : RuleId) :
    (r.switchedOff id).rules.get? other =
      if other = id then (r.rules.get? id).map AlertRule.off else r.rules.get? other := by
  unfold switchedOff
  cases h : r.rules.get? id with
  | none =>
    by_cases he : other = id
    · rw [if_pos he, he]
      exact h
    · rw [if_neg he]
  | some rule =>
    obtain ⟨-, hid⟩ := Table.get?_eq_some_iff.mp h
    change (r.rules.save rule.off).get? other = _
    have hkey : EntityKind.rule.id rule.off = id := hid
    rw [Table.get?_save, hkey]
    simp only [eq_comm, Option.map_some]

theorem switchedOff_alerts (r : MemoryRepository) (id : RuleId) :
    (r.switchedOff id).alerts = r.alerts := by
  unfold switchedOff
  split <;> rfl

/-- Switching a rule off makes no difference to the parts of the others. -/
theorem agreeOn_switchedOff (hne : other ≠ id) : AgreeOn other r (r.switchedOff id) := by
  refine ⟨?_, fun alert _ => ?_⟩
  · rw [get?_switchedOff, if_neg hne]
  · rw [switchedOff_alerts]

/-- The other enabled rules are left, in their order. -/
theorem enabledRules_switchedOff (r : MemoryRepository) (id : RuleId) :
    (r.switchedOff id).enabledRules = r.enabledRules.filter fun rule => rule.id ≠ id := by
  have hmem : ∀ rule, rule ∈ (r.switchedOff id).enabledRules ↔
      rule ∈ r.enabledRules.filter fun rule => rule.id ≠ id := by
    intro rule
    rw [List.mem_filter, decide_eq_true_iff]
    by_cases he : rule.id = id
    · refine iff_of_false (fun h => ?_) (fun h => h.2 he)
      obtain ⟨hstored, henabled⟩ := mem_enabledRules.mp h
      have hget : (r.switchedOff id).rules.get? rule.id = some rule :=
        Table.get?_eq_some_iff.mpr ⟨hstored, rfl⟩
      rw [get?_switchedOff, if_pos he, Option.map_eq_some_iff] at hget
      obtain ⟨old, -, rfl⟩ := hget
      cases henabled
    · have hagree := agreeOn_switchedOff (r := r) he
      exact ⟨fun h => ⟨hagree.symm.mem_enabledRules h, he⟩,
        fun h => hagree.mem_enabledRules h.1⟩
  have hnodup := (r.switchedOff id).nodup_enabledRules
  have hnodup' := (r.nodup_enabledRules).sublist
    (List.filter_sublist (p := fun rule => decide (rule.id ≠ id)) |>.map AlertRule.id)
  have hperm := (List.perm_ext_iff_of_nodup hnodup.of_map hnodup'.of_map).mpr hmem
  refine EntityKind.eq_of_perm_of_pairwise hperm hnodup ?_ ?_
  · exact (r.switchedOff id).pairwise_enabledRules.imp fun h => by simpa using h
  · exact (r.pairwise_enabledRules.filter _).imp fun h => by simpa using h

end MemoryRepository

namespace Round

variable {evaluator : Evaluator} {r : MemoryRepository} {drawn : List Uuid} {t : Round}
  {turns : List Turn}

/-- What a tick does for the other rules, it may do without one of them. -/
theorem Run.switchedOff (h : (tick evaluator r drawn).Run turns t) (id : RuleId) :
    ∃ turns' u, (tick evaluator (r.switchedOff id) drawn).Run turns' u ∧
      u.evaluations = t.evaluations.filter (fun e => e.rule.id ≠ id) ∧
      ∀ other, other ≠ id → AgreeOn other t.repository u.repository := by
  let p (other : RuleId) : Bool := decide (other ≠ id)
  have hkeeps : Keeps p (tick evaluator r drawn) (tick evaluator (r.switchedOff id) drawn) := by
    refine ⟨?_, fun other hp => MemoryRepository.agreeOn_switchedOff (of_decide_eq_true hp),
      fun _ => (MemoryRepository.free_congr (r.switchedOff_alerts id)).mpr, fun _ hid => hid⟩
    change (r.switchedOff id).enabledRules.map _ = List.filter _ (r.enabledRules.map _)
    rw [MemoryRepository.enabledRules_switchedOff, List.filter_map]
    rfl
  obtain ⟨turns', u, hrun, hkept⟩ := Run.keep (apart_begin evaluator r drawn r.nodup_enabledRules)
    (apart_begin evaluator _ drawn (r.switchedOff id).nodup_enabledRules) hkeeps h
  exact ⟨turns', u, hrun, hkept.evaluations, fun other hne => hkept.covers.agree other
    (decide_eq_true hne)⟩

/-- Where every evaluation has come to the end of its rule, some of them have come to the ends of
theirs. -/
theorem rests_filter {evaluations : List Evaluation} {rules : List AlertRule}
    {f : AlertRule → Action AlertError AlertResult} (p : AlertRule → Bool)
    (hrules : evaluations.map Evaluation.rule = rules)
    (hrests : evaluations.map (fun e => e.thread.rest) = rules.map f) :
    (evaluations.filter fun e => p e.rule).map (fun e => e.thread.rest)
      = (rules.filter p).map f := by
  subst hrules
  rw [List.map_map] at hrests
  rw [List.filter_map, List.map_map]
  exact List.map_congr_left fun e he => List.map_inj_left.mp hrests e (List.mem_of_mem_filter he)

/-- The outcome of a rule: it was skipped because its metric could not be read, and its part is as
it was; or its metric was read, and it was not skipped. -/
inductive Explains (evaluator : Evaluator) (r : MemoryRepository) (t : Round) (rule : AlertRule) :
    RuleOutcome → Prop
  | skipped {e : Evaluation} {error : AlertError} (he : e ∈ t.evaluations) (hrule : e.rule = rule)
    (hreading : (evaluator.metric rule).Yields e.thread.past.reverse (.error error))
    (hpart : AgreeOn rule.id r t.repository) :
    Explains evaluator r t rule (.skipped rule.id error.message)
  | read {e : Evaluation} {asked rest : List Event} {value : Binary64} {outcome : RuleOutcome}
    (he : e ∈ t.evaluations) (hrule : e.rule = rule)
    (hpast : e.thread.past.reverse = asked ++ rest)
    (hreading : (evaluator.metric rule).Yields asked (.value value))
    (houtcome : outcome.isSkipped = false) :
    Explains evaluator r t rule outcome

theorem Concluded.explains {rules : List AlertRule} {result : AlertRule → RuleOutcome}
    (h : Concluded evaluator rules r t result) {rule : AlertRule} (hrule : rule ∈ rules) :
    Explains evaluator r t rule (result rule) := by
  obtain ⟨past, own, he, hways, hagree⟩ := h.ways rule hrule
  generalize result rule = outcome at he hways
  generalize hpast : past.reverse = events at hways
  cases hways with
  | skipped hm => exact .skipped he rfl (hpast ▸ hm) hagree
  | judged hm _ _ hv =>
    refine .read he rfl hpast hm ?_
    subst hv
    unfold Evaluator.verdict
    split
    · split <;> rfl
    · split <;> rfl

/--
**The outcomes of a tick.** The sources answer a tick with rows, errors or breakdowns, in any way,
and its evaluations interleave in any way.

* A breakdown of a connector breaks the tick: one evaluation has broken down, and stays so in every
  further run.
* If there is no breakdown, a tick that is over has exactly one outcome for every enabled rule, in
  their order. A rule is skipped if and only if its metric could not be read, with the reason, and
  its part of the repository is as it was then.
* At any time the other rules have done what they may do if one rule is switched off: they were
  answered the same, have the same outcomes, and have the same records and alerts.
-/
theorem tick_outcomes (hrun : (tick evaluator r drawn).Run turns t) :
    ((∃ e ∈ t.evaluations, ∃ event ∈ e.thread.past, event.Crashes) →
      ∀ turns' t', t.Run turns' t' → t'.Broken) ∧
    (t.Over → (∀ e ∈ t.evaluations, ∀ event ∈ e.thread.past, ¬ event.Crashes) →
      ∃ result : AlertRule → RuleOutcome,
        t.evaluations.map (fun e => e.thread.rest)
          = r.enabledRules.map (fun rule => .stop (.value (.outcome (result rule)))) ∧
        ∀ rule ∈ r.enabledRules,
          (result rule).ruleId = rule.id ∧ Explains evaluator r t rule (result rule)) ∧
    ∀ id, ∃ turns' u, (tick evaluator (r.switchedOff id) drawn).Run turns' u ∧
      u.evaluations = t.evaluations.filter (fun e => e.rule.id ≠ id) ∧
      ∀ other, other ≠ id → AgreeOn other t.repository u.repository := by
  have hrules := r.nodup_enabledRules
  refine ⟨?_, fun hover hcalm => ?_, hrun.switchedOff⟩
  · rintro ⟨e, he, hcrash⟩ turns' t' hrun'
    exact Broken.run ⟨e, he, hrun.crashed hrules he hcrash⟩ hrun'
  · have hbroken : ¬ t.Broken := by
      rintro ⟨⟨rule, past, rest⟩, he, crash, hrest⟩
      obtain rfl : rest = _ := hrest
      obtain ⟨own, -, ⟨outcome, ⟨⟩, -⟩ | ⟨crash, ⟨⟩, hways⟩⟩ := hrun.ways hrules he
      obtain ⟨event, hevent, hcrashes⟩ := (yields_metric_crash hways.of_crash.1).mp ⟨_, rfl⟩
      exact hcalm _ he event (List.mem_reverse.mp hevent) hcrashes
    obtain ⟨result, hresult⟩ := hrun.concluded hrules hover hbroken
    refine ⟨result, hresult.outcomes, fun rule hrule => ⟨?_, hresult.explains hrule⟩⟩
    obtain ⟨_, _, -, hways, -⟩ := hresult.ways rule hrule
    exact hways.ruleId

end Round

/-! ## A breakdown -/

/-- Three rules whose requests come in between one another's, the first of which asks an external
interface. If that breaks down, it takes the tick with it. If it only fails, the rule is skipped,
and the others have the outcomes that they have with this rule switched off. -/
theorem Round.tick_beside_remoteLoad :
    (∃ t, (tick loadEvaluator loadsRepository []).Run
        (loadsRound.scene.play boom [1, 2, 0, 2, 1]).1 t ∧
      ∀ turns' t', t.Run turns' t' → t'.Broken) ∧
    ∃ (t u : Round) (turns : List Turn) (result : AlertRule → RuleOutcome),
      (tick loadEvaluator loadsRepository []).Run (loadsRound.scene.play cutOff loadsOrder).1 t ∧
      t.evaluations.map (fun e => e.thread.rest)
        = [remoteLoad, anyLoad, otherLoad].map
          (fun rule => .stop (.value (.outcome (result rule)))) ∧
      (result remoteLoad).isSkipped = true ∧ (result anyLoad).isTriggered = true ∧
      (tick loadEvaluator (loadsRepository.switchedOff remoteLoad.id) []).Run turns u ∧
      u.evaluations.map (fun e => e.thread.rest)
        = [anyLoad, otherLoad].map (fun rule => .stop (.value (.outcome (result rule)))) ∧
      ∀ other, other ≠ remoteLoad.id → AgreeOn other t.repository u.repository := by
  constructor
  · have hadmits : alertSetting.AdmitsPlay boom [1, 2, 0, 2, 1] loadsRound.scene :=
      ⟨rfl, rfl, rfl, rfl, rfl, rfl, rfl, rfl, rfl, rfl, trivial⟩
    obtain ⟨t, hrun, hscene, -⟩ := exists_play hadmits
    have hmet : ∃ thread ∈ t.scene.threads, ∃ event ∈ thread.past, event.Crashes := by
      rw [← hscene]
      exact ⟨_, List.mem_cons_self, _, List.mem_cons_self, trivial⟩
    obtain ⟨_, hthread, hevent⟩ := hmet
    obtain ⟨e, he, rfl⟩ := List.mem_map.mp hthread
    have htick : (tick loadEvaluator loadsRepository []).Run
        (loadsRound.scene.play boom [1, 2, 0, 2, 1]).1 t := by
      rw [tick_loadsRepository]
      exact hrun
    exact ⟨t, htick, (tick_outcomes htick).1 ⟨e, he, hevent⟩⟩
  · obtain ⟨t, hrun, hover, hanswered, reason, report, report', hends⟩ := exists_tick_cutOff
    have hcalm : ∀ e ∈ t.evaluations, ∀ event ∈ e.thread.past, ¬ event.Crashes := by
      rintro e he ⟨request, answer⟩ hevent
      obtain ⟨s, rfl⟩ : ∃ s, answer = (cutOff request s).1 := hanswered e he _ hevent
      cases request <;> exact not_false
    obtain ⟨-, houtcomes, hothers⟩ := tick_outcomes hrun
    obtain ⟨result, hresult, -⟩ := houtcomes hover hcalm
    obtain ⟨turns, u, hrun', hevaluations, hagree⟩ := hothers remoteLoad.id
    rw [enabledRules_loadsRepository] at hresult
    have hsame := hends.symm.trans hresult
    simp only [List.map_cons, List.cons.injEq, Action.stop.injEq, Ending.value.injEq,
      AlertResult.outcome.injEq] at hsame
    obtain ⟨hremote, hany, -⟩ := hsame
    refine ⟨t, u, turns, result, hrun, hresult, hremote ▸ rfl, hany ▸ rfl, hrun', ?_, hagree⟩
    rw [hevaluations]
    exact rests_filter (fun rule => rule.id ≠ remoteLoad.id)
      (hrun.evaluated.trans enabledRules_loadsRepository) hresult

/-- A tick does not always come to the outcomes of its rules: a breakdown ends it. -/
theorem tick_breaks_down :
    ¬ ∀ (evaluator : Evaluator) (r : MemoryRepository) (world : World AlertRoom),
      alertSetting.Admits world evaluator.tick ⟨.memory r, []⟩ →
      ∃ outcomes, (evaluator.tick.run world ⟨.memory r, []⟩).1 = .value outcomes := by
  intro h
  have hrules : Evaluator.enabledRules.run boom ⟨.memory loadsRepository, []⟩
      = (.value [remoteLoad, anyLoad, otherLoad], ⟨.memory loadsRepository, []⟩) :=
    congrArg (fun rules => (Ending.value rules, AlertRoom.mk (.memory loadsRepository) []))
      enabledRules_loadsRepository
  have hadmits : alertSetting.Admits boom loadEvaluator.tick ⟨.memory loadsRepository, []⟩ := by
    refine Setting.admits_andThen.mpr ⟨⟨⟨rfl, rfl⟩, rfl, trivial⟩, ?_⟩
    rw [hrules]
    exact ⟨rfl, rfl, trivial⟩
  obtain ⟨outcomes, houtcomes⟩ := h loadEvaluator loadsRepository boom hadmits
  unfold Evaluator.tick at houtcomes
  rw [Action.run_bind, hrules] at houtcomes
  cases houtcomes

end Bulletin
