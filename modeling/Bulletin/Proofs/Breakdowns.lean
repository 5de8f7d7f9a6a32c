import Bulletin.Proofs.JointEvaluations

/-!
# Breakdowns

A connector that breaks down breaks the evaluation that asked it, at once and for good. The
evaluation of a rule only asks connectors in its reading, so nothing else can break it.

* `Run.crashed` — the evaluation that has met a breakdown
* `Broken.run` — there is no way back
-/

namespace Bulletin

/-- Who has met a breakdown asks for nothing more. -/
def calmProtocol : Protocol := fun past _ => ∀ event ∈ past, ¬ event.Crashes

/-- A request that asks no connector for rows. -/
def Request.Other (request : Request) : Prop := ¬ request.IsQuery

theorem Event.not_crashes_of_other {event : Event} (h : event.request.Other) : ¬ event.Crashes := by
  obtain ⟨request, answer⟩ := event
  cases request with
  | relational | dataset | api => exact fun _ => h trivial
  | call | now | freshId | putArtifact | notify | launch => exact id

/-! ## Requests after the reading -/

section

variable {ε : Type} {P : Request → Prop}

theorem asksOnly_call {wrap : StorageError → ε} {c : Call} (h : P (.call c)) :
    (Action.call wrap c).AsksOnly P :=
  ⟨h, by rintro (_ | _) <;> trivial⟩

theorem asksOnly_notifyAll (notification : Notification) (channels : List Channel)
    (h : ∀ channel notification, P (.notify channel notification)) :
    (notifyAll notification channels : Action ε _).AsksOnly P := by
  induction channels with
  | nil => trivial
  | cons channel rest ih =>
    refine Action.asksOnly_bind (Action.asksOnly_request (h channel notification)) fun _ => ?_
    exact Action.asksOnly_bind ih fun _ => trivial

theorem asksOnly_resolveOpen (now : Instant) (alerts : List Alert) (h : ∀ c, P (.call c)) :
    (Evaluator.resolveOpen now alerts).AsksOnly P := by
  induction alerts with
  | nil => trivial
  | cons alert rest ih =>
    unfold Evaluator.resolveOpen Alert.resolve
    split
    · exact ih
    · refine Action.asksOnly_bind trivial fun _ => ?_
      refine Action.asksOnly_bind (asksOnly_call (h _)) fun _ => ?_
      exact Action.asksOnly_bind ih fun _ => trivial

theorem asksOnly_onClear (evaluator : Evaluator) (rule : AlertRule) (value : Binary64)
    (now : Instant) (h : ∀ c, P (.call c)) : (evaluator.onClear rule value now).AsksOnly P := by
  unfold Evaluator.onClear
  split
  · refine Action.asksOnly_bind (asksOnly_call (h _)) fun alerts => ?_
    exact Action.asksOnly_bind (asksOnly_resolveOpen now alerts h) fun _ => trivial
  · trivial

theorem asksOnly_stamp (id : RuleId) (now : Instant) (h : ∀ c, P (.call c)) :
    (Evaluator.stamp id now).AsksOnly P := by
  refine Action.asksOnly_bind (asksOnly_call (h _)) ?_
  rintro (_ | rule)
  · trivial
  · exact asksOnly_call (h _)

end

theorem asksOnly_onBreach (rule : AlertRule) (value : Binary64) (now : Instant) :
    (Evaluator.onBreach rule value now).AsksOnly Request.Other := by
  refine Action.asksOnly_bind (Action.asksOnly_request id) fun fresh => ?_
  refine Action.asksOnly_bind (asksOnly_call id) fun created => ?_
  split
  · refine Action.asksOnly_bind ?_ fun _ => trivial
    exact Action.asksOnly_bind (asksOnly_notifyAll _ _ fun _ _ => id) fun _ => trivial
  · trivial

/-- What follows from a value of the metric. -/
def Evaluator.consequence (evaluator : Evaluator) (rule : AlertRule) (value : Binary64) :
    Action AlertError RuleOutcome := do
  let now ← Action.request .now
  let outcome ← (if rule.breached value then onBreach rule value now
    else evaluator.onClear rule value now).result
  stamp rule.id now
  Action.ofExcept outcome

theorem asksOnly_consequence (evaluator : Evaluator) (rule : AlertRule) (value : Binary64) :
    (evaluator.consequence rule value).AsksOnly Request.Other := by
  refine Action.asksOnly_bind (Action.asksOnly_request id) fun now => ?_
  refine Action.asksOnly_bind (Action.asksOnly_result ?_) fun outcome => ?_
  · split
    · exact asksOnly_onBreach rule value now
    · exact asksOnly_onClear evaluator rule value now fun _ => id
  · refine Action.asksOnly_bind (asksOnly_stamp rule.id now fun _ => id) fun _ => ?_
    cases outcome <;> trivial

/-! ## The reading -/

/-- A query asks one connector, once. -/
theorem obeys_execute {protocol : Protocol} {past : List Event}
    (h : ∀ request, protocol past request) (connectors : Connectors) (source : Source)
    (input : QueryInput) :
    (Query.execute connectors source input).Obeys protocol (fun _ _ => True) past := by
  rcases Query.execute_cases connectors source input with ⟨e, he, -⟩ | ⟨r, conclude, hasks⟩
  · rw [he]
    trivial
  · rw [hasks.eq_ask]
    exact ⟨h r, fun _ => trivial⟩

theorem obeys_metric {protocol : Protocol} {past : List Event}
    (h : ∀ request, protocol past request) (evaluator : Evaluator) (rule : AlertRule) :
    (evaluator.metric rule).Obeys protocol (fun _ _ => True) past := by
  refine Action.Obeys.bind (Action.obeys_andThen.mpr ((obeys_execute h _ _ _).imp ?_)) ?_
  · rintro _ (_ | _ | _) - <;> trivial
  · intro past rows
    split <;> trivial

/-- An evaluation asks for nothing more once a connector has broken down. -/
theorem obeys_calm_ruleAction (evaluator : Evaluator) (rule : AlertRule) :
    (ruleAction evaluator rule).Obeys calmProtocol (fun _ _ => True) [] := by
  -- a reading that ends otherwise than in a breakdown has met none
  have hmetric : (evaluator.metric rule).Obeys calmProtocol (fun past ending =>
      (∃ c, ending = .crash c) ∨ ∀ event ∈ past, ¬ event.Crashes) [] := by
    refine (obeys_metric (fun _ _ he => nomatch he) evaluator rule).yields.imp ?_
    rintro past ending ⟨-, events, rfl, hyields⟩
    refine or_iff_not_imp_left.mpr fun hno event he hcrash => hno ?_
    rw [List.append_nil, List.mem_reverse] at he
    exact (yields_metric_crash hyields).mpr ⟨event, he, hcrash⟩
  have hrule : (evaluator.evaluateRule rule).Obeys calmProtocol (fun _ _ => True) [] := by
    refine Action.obeys_result_bind.mpr (hmetric.imp ?_)
    rintro past (value | e | c) h
    · have hpast := h.resolve_left nofun
      change (evaluator.consequence rule value).Obeys calmProtocol _ past
      refine ((asksOnly_consequence evaluator rule value).obeys_keeping _ (fun _ _ h _ => h)
        (fun past event h hother => ?_) hpast).imp fun _ _ _ => trivial
      exact List.forall_mem_cons.mpr ⟨Event.not_crashes_of_other hother, h⟩
    · trivial
    · trivial
  refine (hrule.result.bind ?_).bind fun _ _ => trivial
  rintro past (_ | _) <;> trivial

/-- An evaluation breaks down if a connector does. -/
theorem yields_evaluateRule_crash {evaluator : Evaluator} {rule : AlertRule} {events : List Event}
    {ending : Ending AlertError RuleOutcome}
    (h : (evaluator.evaluateRule rule).Yields events ending)
    (hcrash : ∃ event ∈ events, event.Crashes) : ∃ c, ending = .crash c := by
  change ((Action.andThen _ (evaluator.metric rule)).andThen _).Yields events ending at h
  rw [Action.andThen_andThen] at h
  obtain ⟨first, second, middle, rfl, hfirst, hsecond⟩ := Action.yields_andThen.mp h
  have hreading := yields_metric_crash hfirst
  obtain ⟨event, he, hcrash⟩ := hcrash
  rcases List.mem_append.mp he with he | he
  · obtain ⟨c, rfl⟩ := hreading.mpr ⟨event, he, hcrash⟩
    cases hsecond
    exact ⟨c, rfl⟩
  · cases middle with
    | value value =>
      have hother := Action.Yields.forall_mem hsecond (asksOnly_consequence evaluator rule value)
      exact absurd hcrash (Event.not_crashes_of_other (hother event he))
    | error e =>
      cases hsecond
      cases he
    | crash c =>
      cases hsecond
      cases he

theorem yields_ruleAction_crash {evaluator : Evaluator} {rule : AlertRule} {events : List Event}
    {ending : Ending AlertError AlertResult}
    (h : (ruleAction evaluator rule).Yields events ending)
    (hcrash : ∃ event ∈ events, event.Crashes) : ∃ c, ending = .crash c := by
  change (((evaluator.evaluateRule rule).andThen _ |>.andThen _).andThen _).Yields events ending
    at h
  rw [Action.andThen_andThen, Action.andThen_andThen] at h
  obtain ⟨first, second, middle, rfl, hfirst, hsecond⟩ := Action.yields_andThen.mp h
  cases middle with
  | value outcome =>
    cases hsecond
    rw [List.append_nil] at hcrash
    obtain ⟨c, ⟨⟩⟩ := yields_evaluateRule_crash hfirst hcrash
  | error e =>
    cases hsecond
    rw [List.append_nil] at hcrash
    obtain ⟨c, ⟨⟩⟩ := yields_evaluateRule_crash hfirst hcrash
  | crash c =>
    cases hsecond
    exact ⟨c, rfl⟩

/-! ## Side by side -/

theorem alertSetting_calm : alertSetting.Obeys calmProtocol where
  launches _ _ h := absurd h List.not_mem_nil
  forks ending action h := by
    change action ∈ tickForks ending at h
    unfold tickForks at h
    split at h
    · obtain ⟨rule, -, rfl⟩ := List.mem_map.mp h
      exact obeys_calm_ruleAction _ rule
    · exact absurd h List.not_mem_nil

namespace Round

variable {evaluator : Evaluator} {rules : List AlertRule} {r : MemoryRepository}
  {drawn : List Uuid} {t t' : Round} {turns : List Turn} {e : Evaluation}

/-- An evaluation whose connector has broken down has broken down. -/
theorem Run.crashed (hrules : (rules.map AlertRule.id).Nodup)
    (h : (begin evaluator rules r drawn).Run turns t) (he : e ∈ t.evaluations)
    (hcrash : ∃ event ∈ e.thread.past, event.Crashes) :
    ∃ crash, e.thread.rest = .stop (.crash crash) := by
  have hbegin : (begin evaluator rules r drawn).scene.Obeys calmProtocol := by
    rw [scene_begin]
    refine Scene.obeys_begin fun action ha => ?_
    obtain ⟨rule, -, rfl⟩ := List.mem_map.mp ha
    exact obeys_calm_ruleAction evaluator rule
  have hobeys := (joint_scene.mpr ⟨t, h, rfl⟩).turns.obeys alertSetting_calm hbegin e.thread
    (List.mem_map_of_mem he)
  obtain ⟨rule, past, rest⟩ := e
  cases rest with
  | ask request next =>
    obtain ⟨event, hevent, hcrash⟩ := hcrash
    exact absurd hcrash (hobeys.1 event hevent)
  | stop ending =>
    obtain ⟨own, hperforms, -⟩ := h.performs hrules he
    obtain ⟨event, hevent, hcrash⟩ := hcrash
    obtain ⟨crash, rfl⟩ :=
      yields_ruleAction_crash hperforms.yields ⟨event, List.mem_reverse.mpr hevent, hcrash⟩
    exact ⟨crash, rfl⟩

/-- Some evaluation has broken down. -/
def Broken (t : Round) : Prop := ∃ e ∈ t.evaluations, ∃ crash, e.thread.rest = .stop (.crash crash)

/-- What has broken down stays so. -/
theorem Broken.run (ht : t.Broken) (h : t.Run turns t') : t'.Broken := by
  induction h with
  | start => exact ht
  | advance _ ha ih =>
    obtain ⟨e, he, crash, hrest⟩ := ih
    cases ha with
    | @take before after rule past request next answer r r' drawn drawn' ha =>
      refine ⟨e, ?_, crash, hrest⟩
      simp only [List.mem_append, List.mem_cons] at he ⊢
      rcases he with he | rfl | he
      · exact .inl he
      · cases hrest
      · exact .inr (.inr he)

end Round

end Bulletin
