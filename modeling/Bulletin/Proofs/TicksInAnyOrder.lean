import Bulletin.Proofs.Conclusions
import Bulletin.Proofs.SteadyWorlds

/-!
# Ticks in any order

In a steady world the rules of a tick come to the same however their requests interleave: to what
they would have come to one after the other, in any order. What may differ are the names of the
alerts that were opened.

* `Concluded.alike` — two conclusions agree where their repositories did
* `tick_in_any_order`
-/

namespace Bulletin

open MemoryRepository (AgreeOn SameUpTo PartUpTo)

/-- An alert that was opened has a name that was free, and belongs to its rule. -/
theorem Evaluator.Ways.opened {evaluator : Evaluator} {rule : AlertRule} {r own : MemoryRepository}
    {events : List Event} {outcome : RuleOutcome} {name : Uuid}
    (h : evaluator.Ways rule r events (.value outcome) own) (hname : outcome.opened? = some name) :
    r.Free name ∧ ∃ alert ∈ own.alerts.entities, alert.id = ⟨name⟩ ∧ alert.ruleId = rule.id := by
  cases h with
  | skipped hm => cases hname
  | @judged asked value now fresh results v hm hlength hfree hv =>
    subst hv
    unfold Evaluator.verdict at hname ⊢
    by_cases hb : rule.breached value = true
    · by_cases hactive : r.hasActive rule.id = true
      · simp only [if_pos hb, if_pos hactive] at hname
        cases hname
      · simp only [if_pos hb, if_neg hactive] at hname ⊢
        obtain rfl : fresh = name := Option.some.inj hname
        refine ⟨hfree hb, .triggered ⟨fresh⟩ rule value now, ?_, rfl, rfl⟩
        rw [MemoryRepository.stamped_alerts]
        exact Table.mem_save.mpr (.inl rfl)
    · simp only [if_neg hb] at hname
      split at hname <;> cases hname

namespace Round

variable {evaluator : Evaluator} {w : SteadyWorld} {rules rules' : List AlertRule}
  {r q : MemoryRepository} {t u : Round} {result result' : AlertRule → RuleOutcome}

/-- All that the evaluations of a round were answered, a steady world has answered. -/
def Within (w : SteadyWorld) (t : Round) : Prop :=
  ∀ e ∈ t.evaluations, ∀ event ∈ e.thread.past, w.Gives event

/-- No two rules open an alert under one name. -/
theorem Concluded.rule_of_opened (hrules : (rules.map AlertRule.id).Nodup)
    (h : Concluded evaluator rules r t result) {rule rule' : AlertRule} (hrule : rule ∈ rules)
    (hrule' : rule' ∈ rules) {name : Uuid} (hname : (result rule).opened? = some name)
    (hname' : (result rule').opened? = some name) : rule' = rule := by
  obtain ⟨_, _, -, hways, hagree⟩ := h.ways rule hrule
  obtain ⟨_, _, -, hways', hagree'⟩ := h.ways rule' hrule'
  obtain ⟨-, alert, hmem, hid, howner⟩ := hways.opened hname
  obtain ⟨-, alert', hmem', hid', howner'⟩ := hways'.opened hname'
  have hstored := (hagree.alerts alert howner).mpr hmem
  have hstored' := (hagree'.alerts alert' howner').mpr hmem'
  have hsame : alert' = alert :=
    List.inj_on_of_nodup_map t.repository.alerts.distinct hstored' hstored (hid'.trans hid.symm)
  refine List.inj_on_of_nodup_map hrules hrule' hrule ?_
  rw [← howner', ← howner, hsame]

/-- Two conclusions agree, but for names, on every rule whose part was the same before. -/
theorem Concluded.alike (hrules : (rules.map AlertRule.id).Nodup)
    (hrules' : (rules'.map AlertRule.id).Nodup)
    (h : Concluded evaluator rules r t result) (hw : t.Within w)
    (h' : Concluded evaluator rules' q u result') (hw' : u.Within w) :
    ∃ π : Equiv.Perm Uuid, (∀ id, ¬ r.Free id → ¬ q.Free id → π id = id) ∧
      ∀ rule ∈ rules, rule ∈ rules' → AgreeOn rule.id r q →
        result' rule = (result rule).renamed π ∧ PartUpTo π rule.id t.repository u.repository := by
  -- the name that a rule gave here goes with the name that it gave there
  let Named (x y : Uuid) (rule : AlertRule) : Prop := rule ∈ rules ∧ rule ∈ rules' ∧
    (result rule).opened? = some x ∧ (result' rule).opened? = some y
  let R (x y : Uuid) : Prop := (∃ rule, Named x y rule) ∨ (¬ r.Free x ∧ ¬ q.Free x ∧ y = x)
  have hfree : ∀ x y rule, Named x y rule → r.Free x ∧ q.Free y := by
    rintro x y rule ⟨hrule, hrule', hx, hy⟩
    obtain ⟨_, _, -, hways, -⟩ := h.ways rule hrule
    obtain ⟨_, _, -, hways', -⟩ := h'.ways rule hrule'
    exact ⟨(hways.opened hx).1, (hways'.opened hy).1⟩
  have hfun : ∀ x y y', R x y → R x y' → y = y' := by
    rintro x y y' (⟨rule, hnamed⟩ | ⟨hr, hq, rfl⟩) (⟨rule', hnamed'⟩ | ⟨hr', hq', rfl⟩)
    · obtain rfl := h.rule_of_opened hrules hnamed.1 hnamed'.1 hnamed.2.2.1 hnamed'.2.2.1
      exact Option.some.inj (hnamed.2.2.2.symm.trans hnamed'.2.2.2)
    · exact absurd (hfree _ _ _ hnamed).1 hr'
    · exact absurd (hfree _ _ _ hnamed').1 hr
    · rfl
  have hinj : ∀ x x' y, R x y → R x' y → x = x' := by
    rintro x x' y (⟨rule, hnamed⟩ | ⟨hr, hq, rfl⟩) (⟨rule', hnamed'⟩ | ⟨hr', hq', hy⟩)
    · obtain rfl := h'.rule_of_opened hrules' hnamed.2.1 hnamed'.2.1 hnamed.2.2.2 hnamed'.2.2.2
      exact Option.some.inj (hnamed.2.2.1.symm.trans hnamed'.2.2.1)
    · exact absurd (hfree _ _ _ hnamed).2 (hy ▸ hq')
    · exact absurd (hfree _ _ _ hnamed').2 hq
    · exact hy
  obtain ⟨π, hπ⟩ := exists_perm hfun hinj
  refine ⟨π, fun id hr hq => hπ id id (.inr ⟨hr, hq, rfl⟩), ?_⟩
  intro rule hrule hrule' hagree
  obtain ⟨past, own, he, hways, hown⟩ := h.ways rule hrule
  obtain ⟨past', own', he', hways', hown'⟩ := h'.ways rule hrule'
  have hgives : ∀ event ∈ past.reverse, w.Gives event :=
    fun event hevent => hw _ he event (List.mem_reverse.mp hevent)
  have hgives' : ∀ event ∈ past'.reverse, w.Gives event :=
    fun event hevent => hw' _ he' event (List.mem_reverse.mp hevent)
  have hkept : ∀ alert ∈ r.alerts.entities, alert.ruleId = rule.id →
      π alert.id.uuid = alert.id.uuid := by
    intro alert ha howner
    refine hπ _ _ (.inr ⟨fun hno => hno ⟨alert, ha, rfl⟩, fun hno => hno ?_, rfl⟩)
    exact ⟨alert, (hagree.alerts alert howner).mpr ha, rfl⟩
  have hopened : (result rule).opened?.map π = (result' rule).opened? := by
    have halike := Evaluator.Ways.opened_alike hagree hways hgives hways' hgives'
    cases hx : (result rule).opened? with
    | none =>
      rw [hx, Option.isSome_none, Option.isSome_eq_false_iff, Option.isNone_iff_eq_none] at halike
      rw [halike]
      rfl
    | some x =>
      rw [hx, Option.isSome_some, Option.isSome_iff_exists] at halike
      obtain ⟨y, hy⟩ := halike
      rw [hy]
      exact congrArg some (hπ x y (.inl ⟨rule, hrule, hrule', hx, hy⟩))
  obtain ⟨houtcome, hpart⟩ :=
    Evaluator.Ways.alike hagree hkept hways hgives hways' hgives' hopened
  exact ⟨houtcome, hpart.trans_agreeOn hown hown'⟩

/-- The same rules come to the same, in whatever order they are. -/
theorem Concluded.sameUpTo (hrules : (rules.map AlertRule.id).Nodup)
    (hperm : rules'.Perm rules) (h : Concluded evaluator rules r t result) (hw : t.Within w)
    (h' : Concluded evaluator rules' r u result') (hw' : u.Within w) :
    ∃ π : Equiv.Perm Uuid, (∀ id, ¬ r.Free id → π id = id) ∧
      (∀ rule ∈ rules, result' rule = (result rule).renamed π) ∧
      SameUpTo π t.repository u.repository := by
  have hrules' := (hperm.map AlertRule.id).nodup_iff.mpr hrules
  obtain ⟨π, hkept, halike⟩ := h.alike hrules hrules' hw h' hw'
  have hsame : ∀ rule ∈ rules, result' rule = (result rule).renamed π ∧
      PartUpTo π rule.id t.repository u.repository :=
    fun rule hrule => halike rule hrule (hperm.mem_iff.mpr hrule) (.refl rule.id r)
  refine ⟨π, fun id hid => hkept id hid hid, fun rule hrule => (hsame rule hrule).1, ?_⟩
  refine MemoryRepository.sameUpTo_of_parts (h.besides.symm.trans h'.besides) fun id => ?_
  by_cases hid : id ∈ rules.map AlertRule.id
  · obtain ⟨rule, hrule, rfl⟩ := List.mem_map.mp hid
    exact (hsame rule hrule).2
  · -- nobody has touched the part of a rule that was not evaluated
    have hpart := h.others id hid
    have hpart' := h'.others id fun hmem => hid ((hperm.map AlertRule.id).mem_iff.mp hmem)
    refine (hpart.symm.trans hpart').partUpTo fun alert ha howner => ?_
    have hold := (hpart.alerts alert howner).mp ha
    exact hkept _ (fun hno => hno ⟨alert, hold, rfl⟩) fun hno => hno ⟨alert, hold, rfl⟩

variable {drawn : List Uuid} {turns : List Turn}

/-- In a calm world nothing breaks down. -/
theorem Run.not_broken (hw : w.Calm) (hrules : (rules.map AlertRule.id).Nodup)
    (h : (begin evaluator rules r drawn).Run turns t) (hgives : t.Within w) : ¬ t.Broken := by
  rintro ⟨⟨rule, past, rest⟩, he, crash, hrest⟩
  obtain rfl : rest = _ := hrest
  obtain ⟨own, -, ⟨outcome, ⟨⟩, -⟩ | ⟨crash, ⟨⟩, hways⟩⟩ := h.ways hrules he
  obtain ⟨event, hevent, hcrashes⟩ := (yields_metric_crash hways.of_crash.1).mp ⟨_, rfl⟩
  exact hw.not_crashes (hgives _ he event (List.mem_reverse.mp hevent)) hcrashes

/-- Rules that are evaluated one after the other come to a conclusion in a calm world. -/
theorem concluded_evaluateAll (hw : w.Calm) {world : World AlertRoom}
    (hworld : ∀ request s, w.Gives ⟨request, (world request s).1⟩)
    (hrules : (rules.map AlertRule.id).Nodup)
    (hadmits : alertSetting.Admits world (evaluator.evaluateAll rules) ⟨.memory r, drawn⟩) :
    ∃ turns t result, (begin evaluator rules r drawn).Run turns t ∧ t.Over ∧ t.Within w ∧
      Concluded evaluator rules r t result ∧
      (evaluator.evaluateAll rules).run world ⟨.memory r, drawn⟩
        = (.value (rules.map result), ⟨.memory t.repository, t.drawn⟩) := by
  obtain ⟨turns, evaluations, q, names, hrun, hstate, hanswered, hends⟩ :=
    exists_run_evaluateAll evaluator rules hadmits []
  let t : Round := ⟨evaluations, q, names⟩
  change (begin evaluator rules r drawn).Run turns t at hrun
  have hgives : t.Within w := by
    rintro e he ⟨request, answer⟩ hevent
    obtain ⟨s, hanswer⟩ := hanswered e he _ hevent
    obtain rfl : answer = (world request s).1 := hanswer
    exact hworld request s
  have hbroken := hrun.not_broken hw hrules hgives
  generalize hending : ((evaluator.evaluateAll rules).run world ⟨.memory r, drawn⟩).1 = ending
    at hends
  cases hends with
  | @outcomes outcomes _ houtcomes =>
    have hover : t.Over := over_of_outcomes houtcomes
    obtain ⟨result, hconcluded⟩ := hrun.concluded hrules hover hbroken
    have hresult : outcomes = rules.map result := by
      let stopped (outcome : RuleOutcome) : Action AlertError AlertResult :=
        .stop (.value (.outcome outcome))
      have hstopped : Function.Injective stopped := by
        rintro a b ⟨⟩
        rfl
      refine hstopped.list_map ?_
      rw [List.map_map]
      exact houtcomes.symm.trans hconcluded.outcomes
    exact ⟨turns, t, result, hrun, hover, hgives, hconcluded,
      Prod.ext (hending.trans (congrArg _ hresult)) hstate⟩
  | @failure _ _ e last he hrest hlast =>
    obtain ⟨rule, past, rest⟩ := e
    obtain rfl : rest = .stop last := hrest
    obtain ⟨own, -, ⟨outcome, rfl, -⟩ | ⟨crash, rfl, -⟩⟩ := hrun.ways hrules he
    · exact absurd rfl (hlast outcome)
    · exact absurd ⟨_, he, crash, rfl⟩ hbroken

/-! ## An interface that does not answer -/

/-- A steady world in which the external interface does not answer. -/
def cutOffSteady : SteadyWorld :=
  { SteadyWorld.still (.single "load" (.number (.real .zero))) default with
    reply := fun request => (cutOff request ⟨.memory .empty, []⟩).1 }

theorem gives_cutOff (request : Request) (s : AlertRoom) :
    cutOffSteady.Gives ⟨request, (cutOff request s).1⟩ := by
  cases request with
  | relational | dataset | api | now | notify => rfl
  | call | freshId | putArtifact | launch => trivial

theorem calm_cutOff : cutOffSteady.Calm := by
  intro request
  cases request <;> exact id

/-- The rules of a room one after the other, the one that cannot be read at last. -/
theorem admits_loads :
    alertSetting.Admits cutOff (loadEvaluator.evaluateAll [anyLoad, otherLoad, remoteLoad])
      ⟨.memory loadsRepository, []⟩ :=
  ⟨rfl, rfl, rfl, rfl, ⟨List.not_mem_nil, free_of_no_alert rfl _, rfl⟩, rfl, ⟨rfl, rfl⟩, rfl,
    ⟨rfl, rfl⟩, rfl, ⟨rfl, rfl⟩, rfl, rfl, rfl, rfl, rfl,
    ⟨by decide, free_of_one_alert rfl (by decide), rfl⟩, rfl, ⟨rfl, rfl⟩, rfl, ⟨rfl, rfl⟩, rfl,
    ⟨rfl, rfl⟩, rfl, rfl, rfl, trivial⟩

/-- A repository that has the two rules only that can be read. -/
def nearRepository : MemoryRepository :=
  MemoryRepository.empty.set .rule ((Table.empty.save otherLoad).save anyLoad)

theorem agreeOn_nearRepository {other : RuleId} (hne : other ≠ remoteLoad.id) :
    AgreeOn other loadsRepository nearRepository := by
  refine ⟨?_, fun _ _ => Iff.rfl⟩
  change ((Table.empty.save otherLoad).save anyLoad).get? other
    = (((Table.empty.save remoteLoad).save otherLoad).save anyLoad).get? other
  have hkey : EntityKind.rule.id remoteLoad ≠ other := fun h => hne h.symm
  simp only [Table.get?_save, if_neg hkey]

/-- A tick of these rules, one after the other. -/
theorem exists_tick_near :
    ∃ turns u, (tick loadEvaluator nearRepository []).Run turns u ∧ u.Over ∧
      Answered cutOff u.evaluations := by
  have hrules : nearRepository.enabledRules = [anyLoad, otherLoad] :=
    MemoryRepository.enabledRules_of_sorted (by decide) (by decide) (by decide)
  have hadmits : alertSetting.AdmitsPlay cutOff [0, 0, 0, 0, 0, 0, 1, 1, 1, 1, 1, 1]
      (begin loadEvaluator [anyLoad, otherLoad] nearRepository []).scene :=
    ⟨rfl, rfl, rfl, rfl, ⟨List.not_mem_nil, free_of_no_alert rfl _, rfl⟩, rfl, ⟨rfl, rfl⟩, rfl,
      ⟨rfl, rfl⟩, rfl, ⟨rfl, rfl⟩, rfl, rfl, rfl, rfl, rfl,
      ⟨by decide, free_of_one_alert rfl (by decide), rfl⟩, rfl, ⟨rfl, rfl⟩, rfl, ⟨rfl, rfl⟩,
      rfl, ⟨rfl, rfl⟩, rfl, trivial⟩
  obtain ⟨u, hrun, hscene, hanswered⟩ := exists_play hadmits
  have hover : u.Over := by
    refine over_of_threads ?_
    rw [← hscene]
    exact List.forall_mem_cons.mpr ⟨⟨_, rfl⟩, List.forall_mem_singleton.mpr ⟨_, rfl⟩⟩
  rw [← hrules] at hrun
  exact ⟨_, u, hrun, hover, hanswered⟩

theorem within_cutOff {t : Round} (h : Answered cutOff t.evaluations) :
    t.Within cutOffSteady := by
  rintro e he ⟨request, answer⟩ hevent
  obtain ⟨s, rfl⟩ : ∃ s, answer = (cutOff request s).1 := h e he _ hevent
  exact gives_cutOff request s

/-! ## One tick -/

/--
**The order makes no difference.** In a calm and steady world the evaluations of one tick interleave
in any way until all are over. Then:

* there is one outcome for every enabled rule, in order of name and identifier;
* the enabled rules one after the other, in any order, come to the same outcomes and leave the same
  repository, but for the names of the alerts that were opened;
* a tick over a repository that differs in the part of one rule, be it gone, not enabled or
  unreadable, comes to the same for all other rules: they have the same outcomes, alerts and stamps
  but for names.
-/
theorem tick_in_any_order (hw : w.Calm) (hrun : (tick evaluator r drawn).Run turns t)
    (hover : t.Over) (hgives : t.Within w) :
    ∃ result : AlertRule → RuleOutcome,
      (r.enabledRules.Pairwise fun a b => EntityKind.rule.order a b ≠ .gt) ∧
      t.evaluations.map (fun e => e.thread.rest)
        = r.enabledRules.map (fun rule => .stop (.value (.outcome (result rule)))) ∧
      (∀ rule ∈ r.enabledRules, (result rule).ruleId = rule.id) ∧
      (∀ (order : List AlertRule) (world : World AlertRoom) (names : List Uuid),
        order.Perm r.enabledRules →
        (∀ request s, w.Gives ⟨request, (world request s).1⟩) →
        alertSetting.Admits world (evaluator.evaluateAll order) ⟨.memory r, names⟩ →
        ∃ (π : Equiv.Perm Uuid) (q : MemoryRepository) (names' : List Uuid),
          (∀ id, ¬ r.Free id → π id = id) ∧
          (evaluator.evaluateAll order).run world ⟨.memory r, names⟩
            = (.value (order.map fun rule => (result rule).renamed π), ⟨.memory q, names'⟩) ∧
          SameUpTo π t.repository q) ∧
      ∀ (id : RuleId) (q : MemoryRepository) (names : List Uuid) (turns' : List Turn) (u : Round),
        (∀ other, other ≠ id → AgreeOn other r q) →
        (tick evaluator q names).Run turns' u → u.Over → u.Within w →
        ∃ (π : Equiv.Perm Uuid) (result' : AlertRule → RuleOutcome),
          (∀ name, ¬ r.Free name → ¬ q.Free name → π name = name) ∧
          u.evaluations.map (fun e => e.thread.rest)
            = q.enabledRules.map (fun rule => .stop (.value (.outcome (result' rule)))) ∧
          ∀ rule ∈ r.enabledRules, rule.id ≠ id →
            rule ∈ q.enabledRules ∧ result' rule = (result rule).renamed π ∧
              PartUpTo π rule.id t.repository u.repository := by
  have hrules := r.nodup_enabledRules
  obtain ⟨result, hresult⟩ := hrun.concluded hrules hover (hrun.not_broken hw hrules hgives)
  refine ⟨result, r.pairwise_enabledRules, hresult.outcomes, ?_, ?_, ?_⟩
  · intro rule hrule
    obtain ⟨_, _, -, hways, -⟩ := hresult.ways rule hrule
    exact hways.ruleId
  · intro order world names hperm hworld hadmits
    have horder := (hperm.map AlertRule.id).nodup_iff.mpr hrules
    obtain ⟨_, u, result', -, -, hgives', hresult', hends⟩ :=
      concluded_evaluateAll hw hworld horder hadmits
    obtain ⟨π, hkept, hsame, hsameUpTo⟩ := hresult.sameUpTo hrules hperm hgives hresult' hgives'
    refine ⟨π, u.repository, u.drawn, hkept, ?_, hsameUpTo⟩
    have houtcomes : order.map result' = order.map fun rule => (result rule).renamed π :=
      List.map_congr_left fun rule hrule => hsame rule (hperm.mem_iff.mp hrule)
    rw [hends, houtcomes]
  · intro id q names turns' u hagree hrun' hover' hgives'
    have hrules' := q.nodup_enabledRules
    obtain ⟨result', hresult'⟩ :=
      hrun'.concluded hrules' hover' (hrun'.not_broken hw hrules' hgives')
    obtain ⟨π, hkept, halike⟩ := hresult.alike hrules hrules' hgives hresult' hgives'
    refine ⟨π, result', hkept, hresult'.outcomes, fun rule hrule hne => ?_⟩
    have hrule' := (hagree rule.id hne).mem_enabledRules hrule
    exact ⟨hrule', halike rule hrule hrule' (hagree rule.id hne)⟩

/-- Three rules whose requests come in between one another's, the first of which cannot be read. One
after the other, in another order, they come to the same, and so do the last two without the
first. -/
theorem tick_of_loads :
    ∃ (t u : Round) (turns : List Turn) (result result' : AlertRule → RuleOutcome)
      (π π' : Equiv.Perm Uuid) (q : MemoryRepository) (names : List Uuid),
      (tick loadEvaluator loadsRepository []).Run (loadsRound.scene.play cutOff loadsOrder).1 t ∧
      t.evaluations.map (fun e => e.thread.rest)
        = [remoteLoad, anyLoad, otherLoad].map
          (fun rule => .stop (.value (.outcome (result rule)))) ∧
      (result remoteLoad).isSkipped = true ∧ (result anyLoad).isTriggered = true ∧
      (loadEvaluator.evaluateAll [anyLoad, otherLoad, remoteLoad]).run cutOff
          ⟨.memory loadsRepository, []⟩
        = (.value ([anyLoad, otherLoad, remoteLoad].map fun rule => (result rule).renamed π),
          ⟨.memory q, names⟩) ∧
      SameUpTo π t.repository q ∧
      (tick loadEvaluator nearRepository []).Run turns u ∧
      ∀ rule ∈ [anyLoad, otherLoad], result' rule = (result rule).renamed π' ∧
        PartUpTo π' rule.id t.repository u.repository := by
  obtain ⟨t, hrun, hover, hanswered, reason, report, report', hends⟩ := exists_tick_cutOff
  obtain ⟨turns, u, hrun', hover', hanswered'⟩ := exists_tick_near
  obtain ⟨result, -, hresult, -, horder, hwithout⟩ :=
    tick_in_any_order calm_cutOff hrun hover (within_cutOff hanswered)
  rw [enabledRules_loadsRepository] at hresult horder hwithout
  have hsame := hends.symm.trans hresult
  simp only [List.map_cons, List.cons.injEq, Action.stop.injEq, Ending.value.injEq,
    AlertResult.outcome.injEq] at hsame
  obtain ⟨hremote, hany, -⟩ := hsame
  obtain ⟨π, q, names, -, hlined, hsameUpTo⟩ := horder [anyLoad, otherLoad, remoteLoad] cutOff []
    (by decide) gives_cutOff admits_loads
  obtain ⟨π', result', -, -, hothers⟩ := hwithout remoteLoad.id _ [] turns u
    (fun _ => agreeOn_nearRepository) hrun' hover' (within_cutOff hanswered')
  have hskipped : (result remoteLoad).isSkipped = true := by
    rw [← hremote]
    rfl
  have htriggered : (result anyLoad).isTriggered = true := by
    rw [← hany]
    rfl
  refine ⟨t, u, turns, result, result', π, π', q, names, hrun, hresult, hskipped, htriggered,
    hlined, hsameUpTo, hrun', fun rule hrule => ?_⟩
  have hne : rule.id ≠ remoteLoad.id := by
    revert rule
    decide
  exact (hothers rule (List.mem_cons_of_mem _ hrule) hne).2

end Round

end Bulletin
