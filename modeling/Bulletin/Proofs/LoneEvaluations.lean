import Bulletin.Proofs.AlertHistories
import Bulletin.Proofs.Breakdowns

/-!
# Evaluations on their own

One evaluation of a stored rule, with a repository in memory that nobody else writes to. What it
comes to depends on the rows that are fetched, on the rule, and on whether the rule has an active
alert; and with every outcome goes what it leaves in the repository.

* `metric?_eq_some_iff` — the metric of some rows
* `mem_ended` — the alerts after some of them have ended
* `leaves_of_follows`, `decides_of_follows` — where a verdict is followed
* `lone_evaluation`
-/

namespace Bulletin

/-! ## Metrics -/

namespace AlertRule

/-- A cell holds a finite number. -/
def Counts (cell : Json) (value : Binary64) : Prop :=
  cell.coerced? = some value ∧ value.isFinite = true

/-- A value is the metric of some rows. It stands in the first row: in the field that the rule
names, or in the first field with a finite number. -/
def Measures (rule : AlertRule) (rows : List Record) (value : Binary64) : Prop :=
  ∃ row rest, rows = row :: rest ∧
    match rule.metricField with
    | some field => ∃ cell, row.get? field = some cell ∧ Counts cell value
    | none => ∃ before cell after, row.values = before ++ cell :: after ∧ Counts cell value ∧
        ∀ other ∈ before, ∀ number, ¬ Counts other number

theorem finiteNumber?_eq_some_iff {cell : Json} {value : Binary64} :
    finiteNumber? cell = some value ↔ Counts cell value := Option.filter_eq_some_iff

theorem metric?_eq_some_iff {rule : AlertRule} {rows : List Record} {value : Binary64} :
    metric? rows rule.metricField = some value ↔ rule.Measures rows value := by
  unfold Measures
  cases rows with
  | nil => simp [metric?]
  | cons row rest =>
    cases rule.metricField with
    | some field =>
      simp only [metric?, Option.bind_eq_some_iff, finiteNumber?_eq_some_iff]
      simp
    | none =>
      simp only [metric?, List.findSome?_eq_some_iff, finiteNumber?_eq_some_iff,
        Option.eq_none_iff_forall_ne_some, ne_eq]
      simp

end AlertRule

/-- The fetched rows have a metric. -/
def AlertRule.Reads (rule : AlertRule) (fetched : Ending QueryError (List Record))
    (value : Binary64) : Prop :=
  ∃ rows, fetched = .value rows ∧ rule.Measures rows value

/-! ## What an evaluation leaves -/

/-- An alert is the active one of a breach. -/
structure Alert.OfBreach (rule : AlertRule) (value : Binary64) (now : Instant) (alert : Alert) :
    Prop where
  active : alert.status = .active
  ruleId : alert.ruleId = rule.id
  severity : alert.severity = rule.severity
  value : alert.triggeredValue = value
  threshold : alert.threshold = rule.condition.threshold
  time : alert.triggeredAt = now

namespace MemoryRepository

/-- The rule of an evaluation is stamped, and nothing else is different but alerts. -/
structure Stamps (rule : AlertRule) (now : Instant) (r r' : MemoryRepository) : Prop where
  record : r'.rules.get? rule.id = some { rule with lastEvaluatedAt := some now }
  others : ∀ id, id ≠ rule.id → r'.rules.get? id = r.rules.get? id
  besides : SameBesides r r'

/-- Some alerts have ended by themselves: those of a rule that were active or acknowledged. They are
listed in the order in which they were triggered. -/
structure Ends (rule : RuleId) (now : Instant) (r r' : MemoryRepository)
    (resolved : List Alert) : Prop where
  mem_iff : ∀ alert, alert ∈ resolved ↔ alert ∈ r.alerts.entities ∧ alert.ruleId = rule ∧
    (alert.status = .active ∨ alert.status = .acknowledged)
  nodup : resolved.Nodup
  sorted : resolved.Pairwise fun a b => b.triggeredAt.before a.triggeredAt = false
  alerts : ∀ alert, alert ∈ r'.alerts.entities ↔
    (∃ old ∈ resolved, alert = old.ended now) ∨ alert ∈ r.alerts.entities ∧ alert ∉ resolved

/-- The repository after an evaluation with some outcome. -/
def Leaves (evaluator : Evaluator) (rule : AlertRule) (now : Instant) (r r' : MemoryRepository) :
    RuleOutcome → Prop
  | .skipped .. => r' = r
  | .triggered _ value id _ => Stamps rule now r r' ∧ r.Free id.uuid ∧
      ∃ alert, alert.id = id ∧ alert.OfBreach rule value now ∧
        ∀ other, other ∈ r'.alerts.entities ↔ other = alert ∨ other ∈ r.alerts.entities
  | .deduplicated .. => Stamps rule now r r' ∧ r'.alerts = r.alerts
  | .clear _ _ ids => Stamps rule now r r' ∧
      if evaluator.config.autoResolve
      then ∃ resolved, ids = resolved.map Alert.id ∧ Ends rule.id now r r' resolved
      else ids = [] ∧ r'.alerts = r.alerts

end MemoryRepository

/-- What the outcome of an evaluation says of the rows that were fetched and of the alerts that were
stored before. -/
structure AlertRule.Decides (rule : AlertRule) (r : MemoryRepository)
    (fetched : Ending QueryError (List Record)) (outcome : RuleOutcome) : Prop where
  skipped : (∃ reason, outcome = .skipped rule.id reason) ↔
    (∃ e, fetched = .error e) ∨ ∃ rows, fetched = .value rows ∧ ∀ value, ¬ rule.Measures rows value
  triggered : ∀ value, (∃ alert report, outcome = .triggered rule.id value alert report) ↔
    rule.Reads fetched value ∧ rule.breached value = true ∧
      ¬ ∃ a ∈ r.alerts.entities, a.ruleId = rule.id ∧ a.status = .active
  deduplicated : ∀ value, outcome = .deduplicated rule.id value ↔
    rule.Reads fetched value ∧ rule.breached value = true ∧
      ∃ a ∈ r.alerts.entities, a.ruleId = rule.id ∧ a.status = .active
  clear : ∀ value, (∃ ids, outcome = .clear rule.id value ids) ↔
    rule.Reads fetched value ∧ ¬ rule.breached value = true

/-! ## Alerts that end -/

namespace MemoryRepository

variable {r : MemoryRepository} {now : Instant} {alerts : List Alert} {rule : RuleId}
  {alert : Alert}

theorem mem_openAlerts : alert ∈ r.openAlerts rule ↔
    alert ∈ r.alerts.entities ∧ alert.ruleId = rule ∧ alert.status ≠ .resolved := by
  unfold openAlerts
  rw [List.mem_filter, EntityKind.mem_listing, and_assoc]
  simp [EntityKind.inScope]

theorem ended_cons : r.ended now (alert :: alerts)
    = (r.put .alert (alert.ended now)).ended now alerts := rfl

theorem ended_rules : (r.ended now alerts).rules = r.rules := by
  induction alerts generalizing r with
  | nil => rfl
  | cons alert rest ih => exact ended_cons ▸ ih

theorem sameBesides_ended : SameBesides r (r.ended now alerts) := by
  induction alerts generalizing r with
  | nil => exact .refl r
  | cons alert rest ih =>
    have hput : SameBesides r (r.put .alert (alert.ended now)) := ⟨rfl, rfl, rfl, rfl⟩
    exact hput.trans ih

/-- Each of the alerts stands in its own place, and the others stay in theirs. -/
theorem mem_ended (hd : (alerts.map Alert.id).Nodup) :
    alert ∈ (r.ended now alerts).alerts.entities ↔ (∃ old ∈ alerts, alert = old.ended now) ∨
      alert ∈ r.alerts.entities ∧ alert.id ∉ alerts.map Alert.id := by
  induction alerts generalizing r with
  | nil => simp [ended]
  | cons first rest ih =>
    obtain ⟨hfirst, hrest⟩ := List.nodup_cons.mp hd
    have hput : alert ∈ (r.put .alert (first.ended now)).alerts.entities ↔
        alert = first.ended now ∨ alert ∈ r.alerts.entities ∧ alert.id ≠ first.id := Table.mem_save
    rw [ended_cons, ih hrest, hput, List.exists_mem_cons_iff, List.map_cons, List.mem_cons, not_or]
    constructor
    · rintro (hold | ⟨rfl | ⟨hmem, hne⟩, hnot⟩)
      · exact .inl (.inr hold)
      · exact .inl (.inl rfl)
      · exact .inr ⟨hmem, hne, hnot⟩
    · rintro ((rfl | hold) | ⟨hmem, hne, hnot⟩)
      · exact .inr ⟨.inl rfl, hfirst⟩
      · exact .inl hold
      · exact .inr ⟨.inr ⟨hmem, hne⟩, hnot⟩

theorem nodup_openAlerts : ((r.openAlerts rule).map Alert.id).Nodup := by
  have hscope : ((r.alerts.entities.filter (EntityKind.alert.inScope (some rule))).map
      Alert.id).Nodup := r.alerts.distinct.sublist (List.filter_sublist.map _)
  have hlisting : ((EntityKind.alert.listing (some rule) r.alerts.entities).map Alert.id).Nodup :=
    ((List.mergeSort_perm _ _).map Alert.id).nodup_iff.mpr hscope
  exact hlisting.sublist (List.filter_sublist.map _)

theorem sorted_openAlerts : (r.openAlerts rule).Pairwise fun a b =>
    b.triggeredAt.before a.triggeredAt = false := by
  refine ((EntityKind.pairwise_listing (some rule) r.alerts.entities).imp ?_).filter _
  intro a b hab
  have hle : (a.triggeredAt.order b.triggeredAt).isLE = true := by
    refine Ordering.isLE_iff_ne_gt.mpr fun hgt => bne_iff_ne.mp hab ?_
    change (a.triggeredAt.order b.triggeredAt).then _ = .gt
    rw [hgt]
    rfl
  exact Instant.before_eq_false_iff.mpr (Std.OrientedCmp.isGE_iff_isLE.mpr hle)

/-- The open alerts of a rule are those that end. -/
theorem ends_of_alerts {r' : MemoryRepository}
    (h : r'.alerts = (r.ended now (r.openAlerts rule)).alerts) :
    Ends rule now r r' (r.openAlerts rule) where
  mem_iff alert := by
    rw [mem_openAlerts]
    cases alert.status <;> simp
  nodup := nodup_openAlerts.of_map
  sorted := sorted_openAlerts
  alerts alert := by
    rw [h, mem_ended nodup_openAlerts]
    refine or_congr_right (and_congr_right fun hmem => not_congr ?_)
    rw [List.mem_map]
    constructor
    · rintro ⟨old, hold, hid⟩
      have hsame : old = alert :=
        List.inj_on_of_nodup_map r.alerts.distinct (mem_openAlerts.mp hold).1 hmem hid
      exact hsame ▸ hold
    · exact fun hold => ⟨alert, hold, rfl⟩

/-- Stamping makes no difference but to the record of the rule. -/
theorem stamps_stamped {rule : AlertRule} {m : MemoryRepository}
    (hstored : rule ∈ r.rules.entities) (hrules : m.rules = r.rules) (hbesides : SameBesides r m) :
    Stamps rule now r (m.stamped rule.id now) := by
  have hget : m.rules.get? rule.id = some rule :=
    hrules ▸ Table.get?_eq_some_iff.mpr ⟨hstored, rfl⟩
  have hstamped : m.stamped rule.id now
      = m.put .rule { rule with lastEvaluatedAt := some now } := by
    unfold stamped
    rw [hget]
  have hsave : ∀ id, (m.stamped rule.id now).rules.get? id
      = if rule.id = id then some { rule with lastEvaluatedAt := some now }
        else r.rules.get? id := by
    intro id
    rw [hstamped, ← hrules]
    exact Table.get?_save _ id
  refine ⟨?_, fun id hid => ?_, ?_⟩
  · rw [hsave, if_pos rfl]
  · rw [hsave, if_neg (Ne.symm hid)]
  · rw [hstamped]
    exact hbesides.trans ⟨rfl, rfl, rfl, rfl⟩

end MemoryRepository

/-! ## Verdicts -/

section

variable {evaluator : Evaluator} {rule : AlertRule} {r m : MemoryRepository}
  {value value' : Binary64} {now : Instant} {events : List Event} {outcome : RuleOutcome}
  {fetched : Ending QueryError (List Record)}

theorem AlertRule.Reads.unique (h : rule.Reads fetched value) (h' : rule.Reads fetched value') :
    value' = value := by
  obtain ⟨rows, rfl, hrows⟩ := h
  obtain ⟨_, ⟨⟩, hrows'⟩ := h'
  rw [← AlertRule.metric?_eq_some_iff] at hrows hrows'
  exact Option.some.inj (hrows'.symm.trans hrows)

/-- An alert that was triggered tells of the breach. -/
theorem Alert.ofBreach_triggered (id : AlertId) (rule : AlertRule) (value : Binary64)
    (now : Instant) : (Alert.triggered id rule value now).OfBreach rule value now :=
  ⟨rfl, rfl, rfl, rfl, rfl, rfl⟩

/-- What is left where a verdict is followed and the rule is stamped. -/
theorem leaves_of_follows (hstored : rule ∈ r.rules.entities)
    (h : evaluator.Follows rule r value now events outcome m) :
    r.Leaves evaluator rule now (m.stamped rule.id now) outcome := by
  obtain ⟨fresh, results, -, hfree, hv⟩ := h
  unfold Evaluator.verdict at hv
  by_cases hb : rule.breached value = true
  · by_cases hactive : r.hasActive rule.id = true
    · simp only [if_pos hb, if_pos hactive] at hv
      cases hv
      exact ⟨MemoryRepository.stamps_stamped hstored rfl (.refl r), r.stamped_alerts _ _⟩
    · simp only [if_pos hb, if_neg hactive] at hv
      cases hv
      refine ⟨MemoryRepository.stamps_stamped hstored rfl ⟨rfl, rfl, rfl, rfl⟩, hfree hb, _, rfl,
        Alert.ofBreach_triggered _ rule value now, fun other => ?_⟩
      rw [MemoryRepository.stamped_alerts]
      refine Table.mem_save.trans (or_congr_right (and_iff_left_of_imp fun hmem hid => ?_))
      exact r.not_free_of_mem hmem ((congrArg Id.uuid hid : other.id.uuid = fresh) ▸ hfree hb)
  · by_cases hauto : evaluator.config.autoResolve = true
    · simp only [if_neg hb, if_pos hauto] at hv
      cases hv
      refine ⟨MemoryRepository.stamps_stamped hstored MemoryRepository.ended_rules
        MemoryRepository.sameBesides_ended, ?_⟩
      rw [if_pos hauto]
      exact ⟨_, rfl, MemoryRepository.ends_of_alerts (MemoryRepository.stamped_alerts _ _ _)⟩
    · simp only [if_neg hb, if_neg hauto] at hv
      cases hv
      refine ⟨MemoryRepository.stamps_stamped hstored rfl (.refl r), ?_⟩
      rw [if_neg hauto]
      exact ⟨rfl, r.stamped_alerts _ _⟩

/-- What is decided where a verdict on the value that was read is followed. -/
theorem decides_of_follows (hreads : rule.Reads fetched value)
    (h : evaluator.Follows rule r value now events outcome m) :
    rule.Decides r fetched outcome := by
  have hread : ¬ ((∃ e, fetched = .error e) ∨
      ∃ rows, fetched = .value rows ∧ ∀ value, ¬ rule.Measures rows value) := by
    obtain ⟨rows, rfl, hrows⟩ := hreads
    rintro (⟨e, ⟨⟩⟩ | ⟨_, ⟨⟩, hno⟩)
    exact hno value hrows
  obtain ⟨fresh, results, -, -, hv⟩ := h
  unfold Evaluator.verdict at hv
  by_cases hb : rule.breached value = true
  · -- a breach is a breach whichever value one takes for the one that was read
    have hclear : ∀ value', ¬ (rule.Reads fetched value' ∧ ¬ rule.breached value' = true) :=
      fun value' h => h.2 (hreads.unique h.1 ▸ hb)
    by_cases hactive : ∃ a ∈ r.alerts.entities, a.ruleId = rule.id ∧ a.status = .active
    · simp only [if_pos hb, if_pos (MemoryRepository.hasActive_iff.mpr hactive)] at hv
      cases hv
      refine ⟨iff_of_false nofun hread, fun _ => iff_of_false nofun fun h => h.2.2 hactive,
        fun value' => ⟨?_, ?_⟩, fun value' => iff_of_false nofun (hclear value')⟩
      · rintro ⟨⟩
        exact ⟨hreads, hb, hactive⟩
      · rintro ⟨hreads', -⟩
        rw [hreads.unique hreads']
    · simp only [if_pos hb, if_neg (mt MemoryRepository.hasActive_iff.mp hactive)] at hv
      cases hv
      refine ⟨iff_of_false nofun hread, fun value' => ⟨?_, ?_⟩,
        fun _ => iff_of_false nofun fun h => hactive h.2.2,
        fun value' => iff_of_false nofun (hclear value')⟩
      · rintro ⟨_, _, ⟨⟩⟩
        exact ⟨hreads, hb, hactive⟩
      · rintro ⟨hreads', -⟩
        rw [hreads.unique hreads']
        exact ⟨_, _, rfl⟩
  · rw [if_neg hb] at hv
    obtain ⟨ids, rfl⟩ : ∃ ids, outcome = .clear rule.id value ids := by
      split at hv <;> cases hv <;> exact ⟨_, rfl⟩
    have hbreach : ∀ value', rule.Reads fetched value' → ¬ rule.breached value' = true :=
      fun value' h hb' => hb (hreads.unique h ▸ hb')
    refine ⟨iff_of_false nofun hread,
      fun value' => iff_of_false nofun fun h => hbreach value' h.1 h.2.1,
      fun value' => iff_of_false nofun fun h => hbreach value' h.1 h.2.1, fun value' => ⟨?_, ?_⟩⟩
    · rintro ⟨_, ⟨⟩⟩
      exact ⟨hreads, hb⟩
    · rintro ⟨hreads', -⟩
      rw [hreads.unique hreads']
      exact ⟨_, rfl⟩

/-- Rows without a metric decide that the rule is skipped. -/
theorem decides_skipped {reason : String} (hcalm : ∀ crash, fetched ≠ .crash crash)
    (hno : ∀ value, ¬ rule.Reads fetched value) :
    rule.Decides r fetched (.skipped rule.id reason) where
  skipped := by
    refine iff_of_true ⟨reason, rfl⟩ ?_
    cases fetched with
    | value rows => exact .inr ⟨rows, rfl, fun value h => hno value ⟨rows, rfl, h⟩⟩
    | error e => exact .inl ⟨e, rfl⟩
    | crash c => exact absurd rfl (hcalm c)
  triggered value := iff_of_false nofun fun h => hno value h.1
  deduplicated value := iff_of_false nofun fun h => hno value h.1
  clear value := iff_of_false nofun fun h => hno value h.1

end

/-! ## Visits of an evaluation -/

/-- Fetches the rows that the metric of a rule is read from. -/
def Evaluator.fetch (evaluator : Evaluator) (rule : AlertRule) : Action QueryError (List Record) :=
  Query.execute evaluator.connectors rule.source ⟨rule.query, rule.parameters, ∅⟩

section

variable {σ : Type} {outside : World σ} {evaluator : Evaluator} {rule : AlertRule}
  {r : MemoryRepository} {s s₁ s₂ : σ} {now : Instant} {fetched : Ending QueryError (List Record)}

/-- The metric is read from the rows. -/
theorem run_metric (h : (evaluator.fetch rule).run outside s = (fetched, s₁)) :
    ∃ read, (evaluator.metric rule).run (MemoryRepository.world outside) (r, s) = (read, r, s₁) ∧
      (∀ value, read = .value value ↔ rule.Reads fetched value) ∧
      ∀ crash, read = .crash crash ↔ fetched = .crash crash := by
  have hfetch : (evaluator.fetch rule).run (MemoryRepository.world outside) (r, s)
      = (fetched, r, s₁) := by
    unfold Evaluator.fetch at h ⊢
    rw [MemoryRepository.run_outside (fun _ => id) (asksOnly_execute _ _ _), h]
  change ∃ read, ((Action.andThen _ (evaluator.fetch rule)).andThen _).run _ _ = _ ∧ _
  rw [Action.andThen_andThen, Action.run_andThen, hfetch]
  cases fetched with
  | value rows =>
    cases hm : AlertRule.metric? rows rule.metricField with
    | some value =>
      refine ⟨.value value, ?_, fun value' => ?_, fun _ => by simp⟩
      · simp only [Action.andThen, hm]
        rfl
      · simp [AlertRule.Reads, ← AlertRule.metric?_eq_some_iff, hm]
    | none =>
      refine ⟨.error (.noMetric rule.name), ?_, fun value' => ?_, fun _ => by simp⟩
      · simp only [Action.andThen, hm]
        rfl
      · simp [AlertRule.Reads, ← AlertRule.metric?_eq_some_iff, hm]
  | error e => exact ⟨.error (.query e), rfl, by simp [AlertRule.Reads], by simp⟩
  | crash c => exact ⟨.crash c, rfl, by simp [AlertRule.Reads], by simp⟩

/-- About a value of the metric an identifier is drawn first, if one is drawn. -/
theorem obeys_settle (evaluator : Evaluator) (rule : AlertRule) (value : Binary64)
    (now : Instant) :
    (evaluator.settle rule value now).Obeys drawsFirst (fun _ _ => True) [] := by
  have hlater : ∀ {α : Type} {action : Action AlertError α} (past : List Event),
      action.AsksOnly (· ≠ .freshId) → action.Obeys drawsFirst (fun _ _ => True) past :=
    fun past h => h.obeys (fun _ _ hne hdraw => absurd hdraw hne) past
  refine Action.Obeys.bind (Action.Obeys.result ?_) fun past outcome => ?_
  · split
    · refine Action.obeys_request_bind.mpr ⟨fun _ => rfl, fun fresh => hlater _ ?_⟩
      refine Action.asksOnly_bind (asksOnly_call nofun) fun created => ?_
      split
      · refine Action.asksOnly_bind ?_ fun _ => trivial
        exact Action.asksOnly_bind (asksOnly_notifyAll _ _ fun _ _ => nofun) fun _ => trivial
      · trivial
    · exact hlater _ (asksOnly_onClear evaluator rule value now fun _ => nofun)
  · refine hlater past (Action.asksOnly_bind (asksOnly_stamp rule.id now fun _ => nofun) ?_)
    intro _
    cases outcome <;> trivial

/-- What an evaluation does in a visit, unless its source breaks down. -/
theorem visit_evaluateRule (hfetched : (evaluator.fetch rule).run outside s = (fetched, s₁))
    (hcalm : ∀ crash, fetched ≠ .crash crash) (hnow : outside .now s₁ = (now, s₂)) :
    let lone := (evaluator.evaluateRule rule).visit outside r s
    (∃ reason, lone.ending = .value (.skipped rule.id reason) ∧ lone.after = r ∧
      ∀ value, ¬ rule.Reads fetched value) ∨
    ∃ value, rule.Reads fetched value ∧
      lone.ending = ((evaluator.settle rule value now).visit outside r s₂).ending ∧
      lone.after = ((evaluator.settle rule value now).visit outside r s₂).after := by
  obtain ⟨read, hread, hvalue, hcrash⟩ := run_metric (r := r) hfetched
  unfold Action.visit Evaluator.evaluateRule
  dsimp only
  rw [Action.run_result_bind, hread]
  cases read with
  | value value =>
    dsimp only
    rw [MemoryRepository.run_now, hnow]
    exact .inr ⟨value, (hvalue value).mp rfl, rfl, rfl⟩
  | error e => exact .inl ⟨_, rfl, rfl, fun value hreads => nomatch (hvalue value).mpr hreads⟩
  | crash c => exact absurd ((hcrash c).mp rfl) (hcalm c)

/-- **An evaluation on its own.** The rule is stored, its source answers with rows or an error, and
the fresh identifier is not that of a stored alert.

The evaluation comes to an outcome. Which one it is depends on the rows, the rule and the alerts of
the rule as `AlertRule.Decides` says, and what it leaves in the repository goes with the outcome as
`MemoryRepository.Leaves` says. -/
theorem lone_evaluation (evaluator : Evaluator) (rule : AlertRule) (outside : World σ)
    (r : MemoryRepository) (s : σ) (hstored : rule ∈ r.rules.entities)
    (hfetched : (evaluator.fetch rule).run outside s = (fetched, s₁))
    (hcalm : ∀ crash, fetched ≠ .crash crash) (hnow : outside .now s₁ = (now, s₂))
    (hfree : r.Free (outside .freshId s₂).1) :
    let lone := (evaluator.evaluateRule rule).visit outside r s
    ∃ outcome, lone.ending = .value outcome ∧ rule.Decides r fetched outcome ∧
      r.Leaves evaluator rule now lone.after outcome := by
  intro lone
  rcases visit_evaluateRule (r := r) hfetched hcalm hnow with ⟨reason, hending, hafter, hno⟩ |
    ⟨value, hreads, hending, hafter⟩
  · exact ⟨_, hending, decides_skipped hcalm hno, hafter⟩
  · obtain ⟨outcome, own, m, hvalue, hfollows, -, hstamped⟩ :=
      performs_settle evaluator ((obeys_settle evaluator rule value now).visit_of hfree)
    refine ⟨outcome, hending.trans hvalue, decides_of_follows hreads hfollows, ?_⟩
    exact (hafter.trans hstamped) ▸ leaves_of_follows hstored hfollows

end

/-- A load of zero breaches the rule whose alert was acknowledged, and opens another alert. -/
theorem lone_evaluation_of_seen :
    let seen : Alert :=
      { Alert.triggered default anyLoad (.finite .zero) default with status := .acknowledged }
    let r := loadRepository.put .alert seen
    let s : AlertRoom := ⟨.memory r, [default]⟩
    let fetched := ((loadEvaluator.fetch anyLoad).run noLoad s).1
    let lone := (loadEvaluator.evaluateRule anyLoad).visit noLoad r s
    anyLoad ∈ r.rules.entities ∧ (∀ crash, fetched ≠ .crash crash) ∧ r.Free (.ofNat 1) ∧
      ∃ report, lone.ending = .value (.triggered anyLoad.id (.finite .zero) ⟨.ofNat 1⟩ report) ∧
        anyLoad.Decides r fetched (.triggered anyLoad.id (.finite .zero) ⟨.ofNat 1⟩ report) ∧
        r.Leaves loadEvaluator anyLoad default lone.after
          (.triggered anyLoad.id (.finite .zero) ⟨.ofNat 1⟩ report) := by
  intro seen r s fetched lone
  have hstored : anyLoad ∈ r.rules.entities := List.mem_singleton.mpr rfl
  have hcalm : ∀ crash, fetched ≠ .crash crash := fun _ => nofun
  have hfree : r.Free (.ofNat 1) := by
    rintro ⟨_, ha, hid⟩
    obtain rfl := List.mem_singleton.mp ha
    exact absurd hid (by decide)
  obtain ⟨outcome, hending, hdecides, hleaves⟩ :=
    lone_evaluation loadEvaluator anyLoad noLoad r s hstored rfl hcalm rfl hfree
  obtain ⟨report, rfl⟩ :
      ∃ report, outcome = .triggered anyLoad.id (.finite .zero) ⟨.ofNat 1⟩ report := by
    cases hending
    exact ⟨_, rfl⟩
  exact ⟨hstored, hcalm, hfree, report, hending, hdecides, hleaves⟩

end Bulletin
