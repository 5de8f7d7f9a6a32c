import Bulletin.Proofs.AlertProtocol
import Bulletin.Proofs.Performances

/-!
# How a rule is evaluated

What the evaluation of a rule does that has a repository in memory to itself. Its source may break
down, and its metric may be unreadable: then nothing has happened. Otherwise `Evaluator.verdict`
says all that follows from the metric, without a word of who is asked for what in which order.

* `outcomeOf_ways` — an evaluation breaks down, is skipped, or comes to its verdict
-/

namespace Bulletin

/-! ## What an evaluation leaves behind -/

/-- An alert that has ended by itself. -/
def Alert.ended (now : Instant) (alert : Alert) : Alert :=
  { alert with
    status := .resolved
    resolvedAt := some now
    resolutionReason := some Evaluator.autoReason
    autoResolved := true }

namespace MemoryRepository

/-- The repository after a rule was stamped, as it is stored. -/
def stamped (r : MemoryRepository) (id : RuleId) (now : Instant) : MemoryRepository :=
  match r.rules.get? id with
  | none => r
  | some rule => r.put .rule { rule with lastEvaluatedAt := some now }

@[simp] theorem stamped_alerts (r : MemoryRepository) (id : RuleId) (now : Instant) :
    (r.stamped id now).alerts = r.alerts := by
  unfold stamped
  split <;> rfl

/-- What is asked and answered for a stamp. -/
def stamping (r : MemoryRepository) (id : RuleId) (now : Instant) : List Event :=
  ⟨.call (.get .rule id), .ok (r.rules.get? id)⟩ ::
    match r.rules.get? id with
    | none => []
    | some rule => [⟨.call (.save .rule { rule with lastEvaluatedAt := some now }), .ok ()⟩]

/-- The alerts of a rule that are not resolved, in the order of their listing. -/
def openAlerts (r : MemoryRepository) (rule : RuleId) : List Alert :=
  (EntityKind.alert.listing (some rule) r.alerts.entities).filter fun alert =>
    alert.status ≠ .resolved

/-- The repository after some alerts have ended by themselves. -/
def ended (r : MemoryRepository) (now : Instant) (alerts : List Alert) : MemoryRepository :=
  alerts.foldl (fun r alert => r.put .alert (alert.ended now)) r

/-- A rule has an active alert. -/
def hasActive (r : MemoryRepository) (rule : RuleId) : Bool :=
  r.alerts.entities.any (Alert.blocks rule)

end MemoryRepository

/-- What is asked and answered when some channels are told of an alert. -/
def AlertRule.tellings (rule : AlertRule) (alert : Alert)
    (results : List (Except DeliveryError Unit)) : List Event :=
  List.zipWith (fun channel result => ⟨.notify channel (.ofAlert rule alert), result⟩)
    rule.channels results

/-- What is asked and answered when some alerts end by themselves. -/
def endings (now : Instant) (alerts : List Alert) : List Event :=
  alerts.map fun alert => ⟨.call (.save .alert (alert.ended now)), .ok ()⟩

/-- A value of the metric breaches the rule. -/
def AlertRule.breached (rule : AlertRule) (value : Binary64) : Bool :=
  rule.condition.comparison.breached value rule.condition.threshold

/-! ## Verdicts -/

namespace Evaluator

/-- What follows from a metric: what is asked and answered, the outcome, and the repository
afterwards. -/
structure Verdict where
  events : List Event
  outcome : RuleOutcome
  after : MemoryRepository

/-- What follows from a value of the metric of a rule. The fresh identifier and the results of the
deliveries are of use only if an alert is opened. -/
def verdict (evaluator : Evaluator) (rule : AlertRule) (r : MemoryRepository) (value : Binary64)
    (now : Instant) (fresh : Uuid) (results : List (Except DeliveryError Unit)) : Verdict :=
  let alert := Alert.triggered ⟨fresh⟩ rule value now
  if rule.breached value then
    if r.hasActive rule.id then
      ⟨[⟨.freshId, fresh⟩, ⟨.call (.createActive alert), .ok false⟩],
        .deduplicated rule.id value, r⟩
    else
      ⟨⟨.freshId, fresh⟩ :: ⟨.call (.createActive alert), .ok true⟩ :: rule.tellings alert results,
        .triggered rule.id value alert.id (.ofResults results), r.put .alert alert⟩
  else if evaluator.config.autoResolve then
    ⟨⟨.call (.list .alert (some rule.id)),
        .ok (EntityKind.alert.listing (some rule.id) r.alerts.entities)⟩ ::
        endings now (r.openAlerts rule.id),
      .clear rule.id value ((r.openAlerts rule.id).map Alert.id),
      r.ended now (r.openAlerts rule.id)⟩
  else ⟨[], .clear rule.id value [], r⟩

/-- The ways in which the evaluation of a rule may go. -/
inductive Ways (evaluator : Evaluator) (rule : AlertRule) (r : MemoryRepository) :
    List Event → Ending AlertError RuleOutcome → MemoryRepository → Prop
  /-- the source breaks down -/
  | crashed {asked : List Event} {crash : Crash}
    (hm : (evaluator.metric rule).Yields asked (.crash crash)) :
    Ways evaluator rule r asked (.crash crash) r
  /-- the metric cannot be read -/
  | skipped {asked : List Event} {e : AlertError}
    (hm : (evaluator.metric rule).Yields asked (.error e)) :
    Ways evaluator rule r asked (.value (.skipped rule.id e.message)) r
  /-- the metric leads to a verdict, and the rule is stamped -/
  | judged {asked : List Event} {value : Binary64} {now : Instant} {fresh : Uuid}
    {results : List (Except DeliveryError Unit)} {v : Verdict}
    (hm : (evaluator.metric rule).Yields asked (.value value))
    (hresults : results.length = rule.channels.length)
    (hfree : rule.breached value = true → r.Free fresh)
    (hv : evaluator.verdict rule r value now fresh results = v) :
    Ways evaluator rule r
      (asked ++ ⟨.now, now⟩ :: (v.events ++ v.after.stamping rule.id now))
      (.value v.outcome) (v.after.stamped rule.id now)

end Evaluator

/-- An outcome is that of its rule. -/
theorem Evaluator.Ways.ruleId {evaluator : Evaluator} {rule : AlertRule} {outcome : RuleOutcome}
    {r r' : MemoryRepository} {events : List Event}
    (h : evaluator.Ways rule r events (.value outcome) r') : outcome.ruleId = rule.id := by
  cases h with
  | skipped => rfl
  | judged _ _ _ hv =>
    subst hv
    unfold Evaluator.verdict
    split
    · split <;> rfl
    · split <;> rfl

/-- An evaluation only breaks down in its reading. -/
theorem Evaluator.Ways.of_crash {evaluator : Evaluator} {rule : AlertRule} {crash : Crash}
    {r r' : MemoryRepository} {events : List Event}
    (h : evaluator.Ways rule r events (.crash crash) r') :
    (evaluator.metric rule).Yields events (.crash crash) ∧ r' = r := by
  cases h with
  | crashed hm => exact ⟨hm, rfl⟩

/-- The reading of a metric breaks down if and only if a connector does. -/
theorem yields_metric_crash {evaluator : Evaluator} {rule : AlertRule} {events : List Event}
    {ending : Ending AlertError Binary64} (h : (evaluator.metric rule).Yields events ending) :
    (∃ c, ending = .crash c) ↔ ∃ event ∈ events, event.Crashes := by
  change (((Query.execute _ _ _).andThen _).andThen _).Yields events ending at h
  rw [Action.andThen_andThen] at h
  obtain ⟨first, second, middle, rfl, hfirst, hsecond⟩ := Action.yields_andThen.mp h
  have hcrash := yields_execute_crash hfirst
  cases middle with
  | value rows =>
    simp only [Action.andThen] at hsecond
    split at hsecond
    · cases hsecond
      simpa using hcrash
    · cases hsecond
      simpa using hcrash
  | error e =>
    cases hsecond
    simpa using hcrash
  | crash c =>
    cases hsecond
    simpa using hcrash

/-! ## Parts of an evaluation -/

/-- An error of an evaluation is never left over. -/
theorem Evaluator.Ways.no_error {evaluator : Evaluator} {rule : AlertRule} {e : AlertError}
    {r r' : MemoryRepository} {events : List Event}
    (h : evaluator.Ways rule r events (.error e) r') : False := by
  cases h

variable {r r' : MemoryRepository} {events : List Event}

/-- Stamping a rule. -/
theorem performs_stamp {id : RuleId} {now : Instant} {ending : Ending AlertError Unit}
    (h : (Evaluator.stamp id now).Performs r events ending r') :
    ∃ u, ending = .value u ∧ events = r.stamping id now ∧ r' = r.stamped id now := by
  obtain ⟨rest, hevents, hrest⟩ := Action.performs_call_bind h (a := r.rules.get? id) (m := r) rfl
  unfold MemoryRepository.stamping MemoryRepository.stamped
  cases hr : r.rules.get? id with
  | none =>
    rw [hr] at hrest hevents
    obtain ⟨rfl, rfl, rfl⟩ := Action.performs_pure.mp hrest
    exact ⟨(), rfl, hevents, rfl⟩
  | some rule =>
    rw [hr] at hrest hevents
    obtain ⟨rfl, rfl, rfl⟩ := Action.performs_call hrest
      (r.answer_save .rule { rule with lastEvaluatedAt := some now })
    exact ⟨(), rfl, hevents, rfl⟩

/-- What two lists are combined to comes from both. -/
theorem exists_of_mem_zipWith {α β γ : Type} {f : α → β → γ} {as : List α} {bs : List β} {c : γ}
    (h : c ∈ List.zipWith f as bs) : ∃ a b, c = f a b := by
  rw [← List.map_uncurry_zip_eq_zipWith] at h
  obtain ⟨⟨a, b⟩, -, rfl⟩ := List.mem_map.mp h
  exact ⟨a, b, rfl⟩

/-- Telling channels takes one delivery for each. -/
theorem yields_notifyAll {ε : Type} {notification : Notification} {channels : List Channel}
    {ending : Ending ε (List (Except DeliveryError Unit))}
    (h : (notifyAll notification channels : Action ε _).Yields events ending) :
    ∃ results, ending = .value results ∧ results.length = channels.length ∧
      events = List.zipWith (fun channel result => ⟨.notify channel notification, result⟩)
        channels results := by
  induction channels generalizing events ending with
  | nil =>
    obtain ⟨rfl, rfl⟩ := Action.yields_pure.mp h
    exact ⟨[], rfl, rfl, rfl⟩
  | cons channel rest ih =>
    obtain ⟨result, others, rfl, hothers⟩ := Action.yields_request_bind.mp h
    obtain ⟨first, last, middle, rfl, hfirst, hlast⟩ := Action.yields_andThen.mp hothers
    obtain ⟨results, rfl, hlength, rfl⟩ := ih hfirst
    obtain ⟨rfl, rfl⟩ := Action.yields_pure.mp hlast
    refine ⟨result :: results, rfl, congrArg (· + 1) hlength, ?_⟩
    rw [List.append_nil]
    rfl

theorem performs_notifyAll {ε : Type} {notification : Notification} {channels : List Channel}
    {ending : Ending ε (List (Except DeliveryError Unit))}
    (h : (notifyAll notification channels : Action ε _).Performs r events ending r') :
    ∃ results, ending = .value results ∧ results.length = channels.length ∧
      events = List.zipWith (fun channel result => ⟨.notify channel notification, result⟩)
        channels results ∧ r' = r := by
  obtain ⟨results, rfl, hlength, rfl⟩ := yields_notifyAll h.yields
  refine ⟨results, rfl, hlength, rfl, h.through.eq_of_no_call fun event he c => ?_⟩
  obtain ⟨channel, result, rfl⟩ := exists_of_mem_zipWith he
  exact Request.noConfusion

/-- The open ones among some alerts end, one after the other. -/
theorem performs_resolveOpen {now : Instant} {alerts opens : List Alert}
    {ending : Ending AlertError (List AlertId)}
    (h : (Evaluator.resolveOpen now alerts).Performs r events ending r')
    (hopens : opens = alerts.filter fun alert => alert.status ≠ .resolved) :
    ∃ ids, ending = .value ids ∧ ids = opens.map Alert.id ∧ events = endings now opens ∧
      r' = r.ended now opens := by
  induction alerts generalizing opens r events ending r' with
  | nil =>
    subst hopens
    obtain ⟨rfl, rfl, rfl⟩ := Action.performs_pure.mp h
    exact ⟨[], rfl, rfl, rfl, rfl⟩
  | cons alert rest ih =>
    subst hopens
    unfold Evaluator.resolveOpen Alert.resolve at h
    by_cases hstatus : alert.status = .resolved
    · rw [if_pos hstatus] at h
      rw [List.filter_cons_of_neg (by simpa using hstatus)]
      exact ih h rfl
    · rw [if_neg hstatus, if_neg hstatus] at h
      rw [List.filter_cons_of_pos (by simpa using hstatus)]
      change (Action.call AlertError.storage (.save .alert (alert.ended now)) >>= _).Performs
        _ _ _ _ at h
      obtain ⟨others, rfl, hothers⟩ :=
        Action.performs_call_bind h (r.answer_save .alert (alert.ended now))
      obtain ⟨_, last, ids, _, rfl, ⟨rfl, rfl, rfl⟩, hlast⟩ :=
        Action.performs_bind_of_value hothers fun hrest => ih hrest rfl
      obtain ⟨rfl, rfl, rfl⟩ := Action.performs_pure.mp hlast
      rw [List.append_nil]
      exact ⟨_, rfl, rfl, rfl, rfl⟩

/-- An alert is created unless its rule has an active one. -/
theorem MemoryRepository.answer_createActive (r : MemoryRepository) (alert : Alert) :
    r.answer (.createActive alert) =
      if r.hasActive alert.ruleId then (.ok false, r) else (.ok true, r.put .alert alert) := rfl

/-! ## The verdict -/

variable {rule : AlertRule} {value : Binary64} {now : Instant}
  {ending : Ending AlertError RuleOutcome}

/-- A performance follows the verdict on a value. -/
def Evaluator.Follows (evaluator : Evaluator) (rule : AlertRule) (r : MemoryRepository)
    (value : Binary64) (now : Instant) (events : List Event) (outcome : RuleOutcome)
    (r' : MemoryRepository) : Prop :=
  ∃ (fresh : Uuid) (results : List (Except DeliveryError Unit)),
    results.length = rule.channels.length ∧ (rule.breached value = true → r.Free fresh) ∧
      evaluator.verdict rule r value now fresh results = ⟨events, outcome, r'⟩

/-- A breach opens an alert, unless the rule has an active one. -/
theorem performs_onBreach (evaluator : Evaluator) (hb : rule.breached value = true)
    (h : (Evaluator.onBreach rule value now).Performs r events ending r') :
    ∃ outcome, ending = .value outcome ∧
      evaluator.Follows rule r value now events outcome r' := by
  obtain ⟨fresh, rest, rfl, hfree, hrest⟩ := Action.performs_request_bind h fun _ => nofun
  have hanswer := r.answer_createActive (.triggered ⟨fresh⟩ rule value now)
  by_cases hactive : r.hasActive rule.id = true
  · obtain ⟨last, rfl, hlast⟩ :=
      Action.performs_call_bind hrest (hanswer.trans (if_pos hactive))
    obtain ⟨rfl, rfl, rfl⟩ := Action.performs_pure.mp hlast
    refine ⟨_, rfl, fresh, rule.channels.map fun _ => .ok (), by simp, fun _ => hfree, ?_⟩
    simp only [Evaluator.verdict, if_pos hb, if_pos hactive]
  · obtain ⟨told, rfl, htold⟩ :=
      Action.performs_call_bind hrest (hanswer.trans (if_neg hactive))
    -- the deliveries follow, then the report of them, then the outcome
    change (((notifyAll _ _ : Action AlertError _) >>= _) >>= _).Performs _ _ _ _ at htold
    rw [bind_assoc] at htold
    obtain ⟨_, last, results, _, rfl, ⟨hlength, rfl, rfl⟩, hlast⟩ :=
      Action.performs_bind_of_value htold performs_notifyAll
    obtain ⟨rfl, rfl, rfl⟩ := Action.performs_pure.mp hlast
    refine ⟨_, rfl, fresh, results, hlength, fun _ => hfree, ?_⟩
    simp only [Evaluator.verdict, if_pos hb, if_neg hactive, List.append_nil]
    rfl

/-- A metric within the threshold ends the open alerts of the rule, if alerts end by themselves. -/
theorem performs_onClear (evaluator : Evaluator) (hb : ¬ rule.breached value = true)
    (h : (evaluator.onClear rule value now).Performs r events ending r') :
    ∃ outcome, ending = .value outcome ∧
      evaluator.Follows rule r value now events outcome r' := by
  have hlength : (rule.channels.map fun _ => (.ok () : Except DeliveryError Unit)).length
      = rule.channels.length := by simp
  unfold Evaluator.onClear at h
  by_cases hauto : evaluator.config.autoResolve = true
  · rw [if_pos hauto] at h
    obtain ⟨rest, rfl, hrest⟩ := Action.performs_call_bind h (m := r) rfl
    obtain ⟨_, last, _, _, rfl, ⟨rfl, rfl, rfl⟩, hlast⟩ :=
      Action.performs_bind_of_value hrest fun hopen => performs_resolveOpen hopen rfl
    obtain ⟨rfl, rfl, rfl⟩ := Action.performs_pure.mp hlast
    refine ⟨_, rfl, default, _, hlength, (absurd · hb), ?_⟩
    simp only [Evaluator.verdict, if_neg hb, if_pos hauto, List.append_nil]
    rfl
  · rw [if_neg hauto] at h
    obtain ⟨rfl, rfl, rfl⟩ := Action.performs_pure.mp h
    refine ⟨_, rfl, default, _, hlength, (absurd · hb), ?_⟩
    simp only [Evaluator.verdict, if_neg hb, if_neg hauto]

/-- What follows from a value follows the verdict. -/
theorem performs_consequence (evaluator : Evaluator)
    (h : (if rule.breached value then Evaluator.onBreach rule value now
      else evaluator.onClear rule value now).Performs r events ending r') :
    ∃ outcome, ending = .value outcome ∧
      evaluator.Follows rule r value now events outcome r' := by
  by_cases hb : rule.breached value = true
  · rw [if_pos hb] at h
    exact performs_onBreach evaluator hb h
  · rw [if_neg hb] at h
    exact performs_onClear evaluator hb h

/-- What is done about a value of the metric, once the clock is read. -/
def Evaluator.settle (evaluator : Evaluator) (rule : AlertRule) (value : Binary64)
    (now : Instant) : Action AlertError RuleOutcome := do
  let outcome ← (if rule.breached value then onBreach rule value now
    else evaluator.onClear rule value now).result
  stamp rule.id now
  Action.ofExcept outcome

/-- The verdict is followed, and the rule is stamped. -/
theorem performs_settle (evaluator : Evaluator)
    (h : (evaluator.settle rule value now).Performs r events ending r') :
    ∃ outcome own m, ending = .value outcome ∧
      evaluator.Follows rule r value now own outcome m ∧
      events = own ++ m.stamping rule.id now ∧ r' = m.stamped rule.id now := by
  obtain ⟨own, stamped, outcome, m, rfl, hfollows, hstamp⟩ :=
    Action.performs_result_bind_of_value h (performs_consequence evaluator)
  obtain ⟨_, last, _, _, rfl, ⟨rfl, rfl⟩, hlast⟩ :=
    Action.performs_bind_of_value hstamp performs_stamp
  obtain ⟨rfl, rfl, rfl⟩ := Action.performs_pure.mp hlast
  rw [List.append_nil]
  exact ⟨outcome, own, m, rfl, hfollows, rfl, rfl⟩

/-- The evaluation of a rule breaks down, is skipped, or comes to its verdict. -/
theorem evaluateRule_ways {evaluator : Evaluator}
    (h : (evaluator.evaluateRule rule).Performs r events ending r') :
    evaluator.Ways rule r events ending r' := by
  have hquiet : ∀ {events ending m}, (evaluator.metric rule).Performs r events ending m → m = r :=
    fun hm => hm.eq_of_asksOnly (fun _ => id) (asksOnly_metric evaluator rule)
  rcases Action.performs_result_bind_cases h with ⟨asked, rest, value, _, rfl, hm, hrest⟩ |
    ⟨asked, rest, e, _, rfl, hm, hrest⟩ | ⟨c, rfl, hm⟩
  · obtain rfl := hquiet hm
    obtain ⟨now, others, rfl, -, hothers⟩ := Action.performs_request_bind hrest fun _ => nofun
    obtain ⟨outcome, own, m, rfl, ⟨fresh, results, hlength, hfree, hv⟩, rfl, rfl⟩ :=
      performs_settle evaluator hothers
    exact .judged hm.yields hlength hfree hv
  · obtain rfl := hquiet hm
    obtain ⟨rfl, rfl, rfl⟩ := Action.performs_pure.mp hrest
    rw [List.append_nil]
    exact .skipped hm.yields
  · obtain rfl := hquiet hm
    exact .crashed hm.yields

/-- An evaluation that ends with no error needs none of the care that a tick takes. -/
theorem outcomeOf_ways {evaluator : Evaluator}
    (h : (evaluator.outcomeOf rule).Performs r events ending r') :
    evaluator.Ways rule r events ending r' := by
  rcases Action.performs_result_bind_cases h with ⟨first, last, outcome, m, rfl, hfirst, hlast⟩ |
    ⟨first, last, e, m, rfl, hfirst, -⟩ | ⟨c, rfl, hfirst⟩
  · obtain ⟨rfl, rfl, rfl⟩ := Action.performs_pure.mp hlast
    rw [List.append_nil]
    exact evaluateRule_ways hfirst
  · exact (evaluateRule_ways hfirst).no_error.elim
  · exact evaluateRule_ways hfirst

end Bulletin
