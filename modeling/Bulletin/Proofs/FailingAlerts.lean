import Bulletin.Proofs.AlertOpenings
import Bulletin.Proofs.AlertRoom
import Mathlib.Data.List.Forall2

/-!
# Evaluations whose alerts cannot be stored

A repository that can be relied on for rules, and for nothing else: whatever is done with alerts may
fail at any time. An evaluation that has read its metric gives the error of the first failure, and
there is no second one. It stamps its rule all the same, and tells nobody of an alert that was not
stored. For a tick the error is the outcome of this rule, and of no other.

* `Evaluator.Reacts`, `reacts_of_yields` — all that may follow from a value of the metric
* `RuleKeeper` — what can be relied on
* `evaluates_of_yields` — one evaluation
* `alerts_may_fail` — one rule, a tick, and rules side by side
-/

namespace Bulletin

/-! ## What follows from a value -/

/-- A call that deals with alerts. -/
def Call.OnAlerts : Call → Bool
  | .get .alert _ => true
  | .save .alert _ => true
  | .list .alert _ => true
  | .createActive _ => true
  | _ => false

/-- The failure of such a call. -/
def Event.alertFailure? : Event → Option StorageError
  | ⟨.call c, .error e⟩ => if c.OnAlerts then some e else none
  | _ => none

/-- A rule is saved. -/
def Event.SavesRule : Event → Prop
  | ⟨.call (.save .rule _), _⟩ => True
  | _ => False

/-- Somebody is told of something. -/
def Event.Tells (notification : Notification) : Event → Prop
  | ⟨.notify _ told, _⟩ => told = notification
  | _ => False

/-- An identifier is given out, or the repository is called for alerts. -/
def Event.DealsWithAlerts : Event → Prop
  | ⟨.freshId, _⟩ => True
  | ⟨.call (.save .alert _), _⟩ => True
  | ⟨.call (.list .alert _), _⟩ => True
  | ⟨.call (.createActive _), _⟩ => True
  | _ => False

/-- No rule is saved then, and nobody is told of anything. -/
theorem Event.DealsWithAlerts.no_other {event : Event} (h : event.DealsWithAlerts) :
    ¬ event.SavesRule ∧ ∀ notification, ¬ event.Tells notification := by
  unfold Event.DealsWithAlerts at h
  split at h
  · exact ⟨id, fun _ => id⟩
  · exact ⟨id, fun _ => id⟩
  · exact ⟨id, fun _ => id⟩
  · exact ⟨id, fun _ => id⟩
  · exact h.elim

/-- What does not occur in the first part of a list has its place in the rest. -/
theorem split_after {α : Type} {P : α → Prop} {first rest before after : List α} {a : α}
    (hfirst : ∀ b ∈ first, P b) (ha : ¬ P a) (h : first ++ rest = before ++ a :: after) :
    ∃ middle, before = first ++ middle ∧ rest = middle ++ a :: after := by
  obtain ⟨middle, rfl, rfl⟩ | ⟨middle, rfl, hrest⟩ := List.append_eq_append_iff.mp h
  · exact ⟨middle, rfl, rfl⟩
  · cases middle with
    | nil => exact ⟨[], by simp, hrest.symm⟩
    | cons b others =>
      obtain ⟨rfl, -⟩ := List.cons.inj hrest
      exact absurd (hfirst _ (List.mem_append_right _ List.mem_cons_self)) ha

/-- What does not occur in the outer parts of a list has its place in between. -/
theorem split_within {α : Type} {P : α → Prop} {first own last before after : List α} {a : α}
    (hfirst : ∀ b ∈ first, P b) (hlast : ∀ b ∈ last, P b) (ha : ¬ P a)
    (h : first ++ (own ++ last) = before ++ a :: after) :
    ∃ earlier later, before = first ++ earlier ∧ own = earlier ++ a :: later := by
  obtain ⟨earlier, rfl, hrest⟩ := split_after hfirst ha h
  obtain ⟨middle, -, rfl⟩ | ⟨later, rfl, hlater⟩ := List.append_eq_append_iff.mp hrest
  · exact absurd (hlast a (List.mem_append_right _ List.mem_cons_self)) ha
  · cases later with
    | nil =>
      obtain rfl : a :: after = last := hlater
      exact absurd (hlast a List.mem_cons_self) ha
    | cons b others =>
      obtain ⟨rfl, -⟩ := List.cons.inj hlater
      exact ⟨earlier, others, rfl, rfl⟩

/-- The alerts among some that are not resolved. -/
def unresolved (alerts : List Alert) : List Alert :=
  alerts.filter fun alert => alert.status ≠ .resolved

/-- All that may follow from a value of the metric of a rule, whatever is answered. -/
inductive Evaluator.Reacts (evaluator : Evaluator) (rule : AlertRule) (value : Binary64)
    (now : Instant) : List Event → Ending AlertError RuleOutcome → Prop
  /-- a breach whose alert could not be stored -/
  | unstored {fresh : Uuid} {e : StorageError} (hb : rule.breached value = true) :
    Reacts evaluator rule value now
      [⟨.freshId, fresh⟩, ⟨.call (.createActive (.triggered ⟨fresh⟩ rule value now)), .error e⟩]
      (.error (.storage e))
  /-- a breach while an alert is active -/
  | standing {fresh : Uuid} (hb : rule.breached value = true) :
    Reacts evaluator rule value now
      [⟨.freshId, fresh⟩, ⟨.call (.createActive (.triggered ⟨fresh⟩ rule value now)), .ok false⟩]
      (.value (.deduplicated rule.id value))
  /-- a breach whose alert was stored -/
  | opened {fresh : Uuid} {results : List (Except DeliveryError Unit)}
    (hb : rule.breached value = true) (hlength : results.length = rule.channels.length) :
    Reacts evaluator rule value now
      (⟨.freshId, fresh⟩ :: ⟨.call (.createActive (.triggered ⟨fresh⟩ rule value now)), .ok true⟩ ::
        rule.tellings (.triggered ⟨fresh⟩ rule value now) results)
      (.value (.triggered rule.id value ⟨fresh⟩ (.ofResults results)))
  /-- the open alerts could not be listed -/
  | unlisted {e : StorageError} (hb : ¬ rule.breached value = true)
    (hauto : evaluator.config.autoResolve = true) :
    Reacts evaluator rule value now [⟨.call (.list .alert (some rule.id)), .error e⟩]
      (.error (.storage e))
  /-- some alerts have ended, and the end of the next one could not be stored -/
  | unsaved {alerts ended rest : List Alert} {alert : Alert} {e : StorageError}
    (hb : ¬ rule.breached value = true) (hauto : evaluator.config.autoResolve = true)
    (hopen : unresolved alerts = ended ++ alert :: rest) :
    Reacts evaluator rule value now
      (⟨.call (.list .alert (some rule.id)), .ok alerts⟩ :: (endings now ended ++
        [⟨.call (.save .alert (alert.ended now)), .error e⟩]))
      (.error (.storage e))
  /-- all alerts have ended -/
  | resolved {alerts : List Alert} (hb : ¬ rule.breached value = true)
    (hauto : evaluator.config.autoResolve = true) :
    Reacts evaluator rule value now
      (⟨.call (.list .alert (some rule.id)), .ok alerts⟩ :: endings now (unresolved alerts))
      (.value (.clear rule.id value ((unresolved alerts).map Alert.id)))
  /-- alerts do not end by themselves -/
  | left (hb : ¬ rule.breached value = true) (hauto : ¬ evaluator.config.autoResolve = true) :
    Reacts evaluator rule value now [] (.value (.clear rule.id value []))

section

variable {evaluator : Evaluator} {rule : AlertRule} {value : Binary64} {now : Instant}
  {events : List Event}

/-- The open ones among some alerts end one after the other, until one of them cannot be stored. -/
theorem yields_resolveOpen {alerts : List Alert} {ending : Ending AlertError (List AlertId)}
    (h : (Evaluator.resolveOpen now alerts).Yields events ending) :
    (ending = .value ((unresolved alerts).map Alert.id) ∧
      events = endings now (unresolved alerts)) ∨
    ∃ ended alert rest e, unresolved alerts = ended ++ alert :: rest ∧
      ending = .error (.storage e) ∧
      events = endings now ended ++ [⟨.call (.save .alert (alert.ended now)), .error e⟩] := by
  induction alerts generalizing events ending with
  | nil =>
    obtain ⟨rfl, rfl⟩ := Action.yields_pure.mp h
    exact .inl ⟨rfl, rfl⟩
  | cons alert rest ih =>
    unfold Evaluator.resolveOpen Alert.resolve at h
    unfold unresolved
    by_cases hstatus : alert.status = .resolved
    · rw [if_pos hstatus] at h
      rw [List.filter_cons_of_neg (by simpa using hstatus)]
      exact ih h
    · rw [if_neg hstatus, if_neg hstatus] at h
      rw [List.filter_cons_of_pos (by simpa using hstatus)]
      change (Action.call AlertError.storage (.save .alert (alert.ended now)) >>= _).Yields _ _ at h
      obtain ⟨_, others, rfl, hothers⟩ | ⟨e, rfl, rfl⟩ := Action.yields_call_bind.mp h
      · obtain ⟨first, last, middle, rfl, hfirst, hlast⟩ := Action.yields_andThen.mp hothers
        obtain ⟨rfl, rfl⟩ | ⟨ended, next, later, e, hopen, rfl, rfl⟩ := ih hfirst
        · obtain ⟨rfl, rfl⟩ := Action.yields_pure.mp hlast
          rw [List.append_nil]
          exact .inl ⟨rfl, rfl⟩
        · obtain ⟨rfl, rfl⟩ := Action.yields_stop.mp hlast
          rw [List.append_nil]
          exact .inr ⟨alert :: ended, next, later, e, congrArg (alert :: ·) hopen, rfl, rfl⟩
      · exact .inr ⟨[], alert, _, e, rfl, rfl, rfl⟩

theorem yields_onBreach {ending : Ending AlertError RuleOutcome}
    (hb : rule.breached value = true)
    (h : (Evaluator.onBreach rule value now).Yields events ending) :
    evaluator.Reacts rule value now events ending := by
  obtain ⟨fresh, rest, rfl, hrest⟩ := Action.yields_request_bind.mp h
  obtain ⟨created, told, rfl, htold⟩ | ⟨e, rfl, rfl⟩ := Action.yields_call_bind.mp hrest
  · cases created with
    | false =>
      obtain ⟨rfl, rfl⟩ := Action.yields_pure.mp htold
      exact .standing hb
    | true =>
      change (((notifyAll _ _ : Action AlertError _) >>= _) >>= _).Yields _ _ at htold
      rw [bind_assoc] at htold
      obtain ⟨first, last, middle, rfl, hfirst, hlast⟩ := Action.yields_andThen.mp htold
      obtain ⟨results, rfl, hlength, rfl⟩ := yields_notifyAll hfirst
      obtain ⟨rfl, rfl⟩ := Action.yields_pure.mp hlast
      rw [List.append_nil]
      exact .opened hb hlength
  · exact .unstored hb

theorem yields_onClear {ending : Ending AlertError RuleOutcome}
    (hb : ¬ rule.breached value = true)
    (h : (evaluator.onClear rule value now).Yields events ending) :
    evaluator.Reacts rule value now events ending := by
  unfold Evaluator.onClear at h
  by_cases hauto : evaluator.config.autoResolve = true
  · rw [if_pos hauto] at h
    obtain ⟨alerts, rest, rfl, hrest⟩ | ⟨e, rfl, rfl⟩ := Action.yields_call_bind.mp h
    · obtain ⟨first, last, middle, rfl, hfirst, hlast⟩ := Action.yields_andThen.mp hrest
      obtain ⟨rfl, rfl⟩ | ⟨ended, next, later, e, hopen, rfl, rfl⟩ := yields_resolveOpen hfirst
      · obtain ⟨rfl, rfl⟩ := Action.yields_pure.mp hlast
        rw [List.append_nil]
        exact .resolved hb hauto
      · obtain ⟨rfl, rfl⟩ := Action.yields_stop.mp hlast
        rw [List.append_nil]
        exact .unsaved hb hauto hopen
    · exact .unlisted hb hauto
  · rw [if_neg hauto] at h
    obtain ⟨rfl, rfl⟩ := Action.yields_pure.mp h
    exact .left hb hauto

/-- Nothing else may follow from a value. -/
theorem reacts_of_yields {ending : Ending AlertError RuleOutcome}
    (h : (if rule.breached value then Evaluator.onBreach rule value now
      else evaluator.onClear rule value now).Yields events ending) :
    evaluator.Reacts rule value now events ending := by
  by_cases hb : rule.breached value = true
  · rw [if_pos hb] at h
    exact yields_onBreach hb h
  · rw [if_neg hb] at h
    exact yields_onClear hb h

theorem mem_tellings {alert : Alert} {results : List (Except DeliveryError Unit)} {event : Event}
    (h : event ∈ rule.tellings alert results) :
    ∃ channel result, event = ⟨.notify channel (.ofAlert rule alert), result⟩ :=
  exists_of_mem_zipWith h

theorem alertFailures_tellings {alert : Alert} {results : List (Except DeliveryError Unit)} :
    (rule.tellings alert results).filterMap Event.alertFailure? = [] := by
  refine List.filterMap_eq_nil_iff.mpr fun event he => ?_
  obtain ⟨channel, result, rfl⟩ := mem_tellings he
  rfl

theorem alertFailures_endings {alerts : List Alert} :
    (endings now alerts).filterMap Event.alertFailure? = [] := by
  refine List.filterMap_eq_nil_iff.mpr fun event he => ?_
  obtain ⟨alert, -, rfl⟩ := List.mem_map.mp he
  rfl

namespace Evaluator.Reacts

variable {ending : Ending AlertError RuleOutcome}

/-- The failure of a call that deals with alerts is the end, and there is one at most. -/
theorem returns (h : evaluator.Reacts rule value now events ending) :
    (events.filterMap Event.alertFailure? = [] ∧
      ∃ outcome, ending = .value outcome ∧ outcome.ruleId = rule.id ∧ outcome.isSkipped = false) ∨
    ∃ e, events.filterMap Event.alertFailure? = [e] ∧ ending = .error (.storage e) := by
  cases h with
  | unstored | unlisted => exact .inr ⟨_, rfl, rfl⟩
  | standing | left => exact .inl ⟨rfl, _, rfl, rfl, rfl⟩
  | opened => exact .inl ⟨alertFailures_tellings, _, rfl, rfl, rfl⟩
  | resolved => exact .inl ⟨alertFailures_endings, _, rfl, rfl, rfl⟩
  | unsaved =>
    refine .inr ⟨_, ?_, rfl⟩
    rw [List.filterMap_cons_none rfl, List.filterMap_append, alertFailures_endings]
    rfl

/-- First alerts are dealt with, and then channels are told of the one that was stored. -/
theorem parts (h : evaluator.Reacts rule value now events ending) :
    ∃ dealings told, events = dealings ++ told ∧ (∀ event ∈ dealings, event.DealsWithAlerts) ∧
      ∀ event ∈ told, ∃ channel result fresh,
        event = ⟨.notify channel (.ofAlert rule (.triggered ⟨fresh⟩ rule value now)), result⟩ ∧
        ⟨.call (.createActive (.triggered ⟨fresh⟩ rule value now)), .ok true⟩ ∈ dealings := by
  have hendings : ∀ alerts, ∀ event ∈ endings now alerts, event.DealsWithAlerts := by
    intro alerts event he
    obtain ⟨alert, -, rfl⟩ := List.mem_map.mp he
    trivial
  have hpair : ∀ {a b : Event}, a.DealsWithAlerts → b.DealsWithAlerts →
      ∀ event ∈ [a, b], event.DealsWithAlerts := fun ha hb =>
    List.forall_mem_cons.mpr ⟨ha, List.forall_mem_singleton.mpr hb⟩
  have hnobody : events = events ++ [] := (List.append_nil _).symm
  cases h with
  | unstored | standing =>
    exact ⟨_, [], hnobody, hpair trivial trivial, List.forall_mem_nil _⟩
  | @opened fresh =>
    refine ⟨[_, _], _, rfl, hpair trivial trivial, fun event he => ?_⟩
    obtain ⟨channel, result, rfl⟩ := mem_tellings he
    exact ⟨channel, result, fresh, rfl, List.mem_cons_of_mem _ List.mem_cons_self⟩
  | unlisted =>
    exact ⟨_, [], hnobody, List.forall_mem_singleton.mpr trivial, List.forall_mem_nil _⟩
  | unsaved =>
    exact ⟨_, [], hnobody, List.forall_mem_cons.mpr ⟨trivial, List.forall_mem_append.mpr
      ⟨hendings _, List.forall_mem_singleton.mpr trivial⟩⟩, List.forall_mem_nil _⟩
  | resolved =>
    exact ⟨_, [], hnobody, List.forall_mem_cons.mpr ⟨trivial, hendings _⟩, List.forall_mem_nil _⟩
  | left => exact ⟨[], [], rfl, List.forall_mem_nil _, List.forall_mem_nil _⟩

/-- No rule is saved. -/
theorem spares_rules (h : evaluator.Reacts rule value now events ending) :
    ∀ event ∈ events, ¬ event.SavesRule := by
  obtain ⟨dealings, told, rfl, hdealings, htold⟩ := h.parts
  refine List.forall_mem_append.mpr ⟨fun event he => ?_, fun event he => ?_⟩
  · exact (hdealings event he).no_other.1
  · obtain ⟨channel, result, fresh, rfl, -⟩ := htold event he
    exact id

/-- Channels are told of an alert after it was stored. -/
theorem told (h : evaluator.Reacts rule value now events ending) {notification : Notification}
    {before after : List Event} {event : Event} (hevents : events = before ++ event :: after)
    (htells : event.Tells notification) :
    ∃ fresh, ⟨.call (.createActive (.triggered ⟨fresh⟩ rule value now)), .ok true⟩ ∈ before ∧
      notification = .ofAlert rule (.triggered ⟨fresh⟩ rule value now) := by
  obtain ⟨dealings, told, rfl, hdealings, htold⟩ := h.parts
  obtain ⟨middle, rfl, rfl⟩ := split_after hdealings
    (fun hdeals => hdeals.no_other.2 notification htells) hevents
  obtain ⟨channel, result, fresh, rfl, hcreated⟩ :=
    htold event (List.mem_append_right _ List.mem_cons_self)
  exact ⟨fresh, List.mem_append_left _ hcreated, htells.symm⟩

end Evaluator.Reacts

end

/-! ## What happened when -/

/-- An event with the state before it and the state after it. -/
structure Moment (σ : Type) where
  before : σ
  event : Event
  after : σ

section

variable {σ ε α : Type} {world : World σ}

/-- The state after some events. -/
def World.after (world : World σ) (events : List Event) (s : σ) : σ :=
  events.foldl (fun s event => (world event.request s).2) s

/-- The moments of some events, the oldest first. -/
def World.moments (world : World σ) : List Event → σ → List (Moment σ)
  | [], _ => []
  | event :: rest, s =>
    ⟨s, event, (world event.request s).2⟩ :: world.moments rest (world event.request s).2

/-- A moment is one of a world. -/
def Moment.Of (world : World σ) (m : Moment σ) : Prop :=
  world m.event.request m.before = (m.event.answer, m.after)

theorem World.map_moments (world : World σ) (events : List Event) (s : σ) :
    (world.moments events s).map Moment.event = events := by
  induction events generalizing s with
  | nil => rfl
  | cons event rest ih => exact congrArg (event :: ·) (ih _)

theorem World.after_concat (world : World σ) (events : List Event) (event : Event) (s : σ) :
    world.after (events ++ [event]) s = (world event.request (world.after events s)).2 :=
  List.foldl_append

theorem World.moments_concat (world : World σ) (events : List Event) (event : Event) (s : σ) :
    world.moments (events ++ [event]) s = world.moments events s ++
      [⟨world.after events s, event, world.after (events ++ [event]) s⟩] := by
  induction events generalizing s with
  | nil => rfl
  | cons event rest ih => exact congrArg (_ :: ·) (ih _)

theorem Action.moments_trace (action : Action ε α) (s : σ) :
    ∀ m ∈ world.moments (action.trace world s) s, m.Of world := by
  induction action generalizing s with
  | stop ending => exact List.forall_mem_nil _
  | ask request next ih => exact List.forall_mem_cons.mpr ⟨rfl, ih _ _⟩

/-- A call that a world always answers. -/
theorem yields_call_of_world {β : Type} {wrap : StorageError → ε} {c : Call}
    {f : c.Result → Action ε β} {a : σ → c.Result} {moments : List (Moment σ)}
    {ending : Ending ε β} (ha : ∀ s, (world (.call c) s).1 = .ok (a s))
    (hof : ∀ m ∈ moments, m.Of world)
    (h : (Action.call wrap c >>= f).Yields (moments.map Moment.event) ending) :
    ∃ s rest, moments = ⟨s, ⟨.call c, .ok (a s)⟩, (world (.call c) s).2⟩ :: rest ∧
      (∀ m ∈ rest, m.Of world) ∧ (f (a s)).Yields (rest.map Moment.event) ending := by
  have hfirst : ∃ reply events, moments.map Moment.event = ⟨.call c, reply⟩ :: events := by
    obtain ⟨_, events, hevents, -⟩ | ⟨e, hevents, -⟩ := Action.yields_call_bind.mp h
    · exact ⟨_, events, hevents⟩
    · exact ⟨_, [], hevents⟩
  obtain ⟨reply, events, hevents⟩ := hfirst
  obtain ⟨⟨s, _, s'⟩, rest, rfl, rfl, -⟩ := List.map_eq_cons_iff.mp hevents
  obtain ⟨hcall, hrest⟩ := List.forall_mem_cons.mp hof
  obtain ⟨rfl, rfl⟩ : reply = .ok (a s) ∧ s' = (world (.call c) s).2 :=
    ⟨(congrArg Prod.fst hcall).symm.trans (ha s), (congrArg Prod.snd hcall).symm⟩
  refine ⟨s, rest, rfl, hrest, ?_⟩
  obtain ⟨_, events, hevents, hnext⟩ | ⟨e, hevents, -⟩ := Action.yields_call_bind.mp h
  · cases hevents
    exact hnext
  · cases hevents

end

/-! ## Keepers of rules -/

/-- A world whose repository can be relied on for rules. What it does with alerts is left open, and
so is what others do meanwhile: a rule that is found may be another one by the time it is saved. -/
structure RuleKeeper (σ : Type) where
  world : World σ
  rule? : σ → RuleId → Option AlertRule
  listed : σ → List AlertRule
  Stores : σ → Alert → Prop
  id_eq : ∀ {s id rule}, rule? s id = some rule → rule.id = id
  get_rule : ∀ s id, (world (.call (.get .rule id)) s).1 = .ok (rule? s id)
  save_rule : ∀ s rule, (world (.call (.save .rule rule)) s).1 = .ok ()
  saved_rule : ∀ s (rule : AlertRule),
    rule? (world (.call (.save .rule rule)) s).2 rule.id = some rule
  list_rules : ∀ s, (world (.call (.list .rule ())) s).1 = .ok (listed s)
  created : ∀ {s alert}, (world (.call (.createActive alert)) s).1 = .ok true →
    Stores (world (.call (.createActive alert)) s).2 alert

section

variable {σ : Type} {K : RuleKeeper σ} {evaluator : Evaluator} {rule : AlertRule}
  {value : Binary64} {now : Instant} {moments : List (Moment σ)}

/-- A rule is read again and saved with the time of its evaluation, if it is still there. -/
inductive RuleKeeper.Stamps (K : RuleKeeper σ) (id : RuleId) (now : Instant) :
    List (Moment σ) → Prop
  | gone {m : Moment σ} (hget : m.event = ⟨.call (.get .rule id), .ok (K.rule? m.before id)⟩)
    (hread : K.rule? m.before id = none) : Stamps K id now [m]
  | stamped {m m' : Moment σ} {stored : AlertRule}
    (hget : m.event = ⟨.call (.get .rule id), .ok (K.rule? m.before id)⟩)
    (hread : K.rule? m.before id = some stored)
    (hsave : m'.event = ⟨.call (.save .rule { stored with lastEvaluatedAt := some now }), .ok ()⟩)
    (hstored : K.rule? m'.after id = some { stored with lastEvaluatedAt := some now }) :
    Stamps K id now [m, m']

/-- What is done about a value of the metric. Whatever becomes of alerts, the rule is stamped in the
end as it was read again, and channels are told of the alert of a breach only if it was stored. -/
structure RuleKeeper.Endures (K : RuleKeeper σ) (evaluator : Evaluator) (rule : AlertRule)
    (value : Binary64) (now : Instant) (moments : List (Moment σ))
    (ending : Ending AlertError RuleOutcome) : Prop where
  reacts : ∃ first own last : List (Moment σ), moments = first ++ (own ++ last) ∧
    evaluator.Reacts rule value now (own.map Moment.event) ending
  stamped : ∃ first last, moments = first ++ last ∧ K.Stamps rule.id now last ∧
    ∀ m ∈ first, ¬ m.event.SavesRule
  told : ∀ before m after, moments = before ++ m :: after → ∀ notification,
    m.event.Tells notification → ∃ opening ∈ before, ∃ alert fresh,
      alert = .triggered ⟨fresh⟩ rule value now ∧
      opening.event = ⟨.call (.createActive alert), .ok true⟩ ∧ K.Stores opening.after alert ∧
      notification = .ofAlert rule alert

/-- How the evaluation of a rule may end. -/
inductive RuleKeeper.Evaluates (K : RuleKeeper σ) (evaluator : Evaluator) (rule : AlertRule)
    (moments : List (Moment σ)) : Ending AlertError RuleOutcome → Prop
  /-- the source breaks down -/
  | crashed {c : Crash}
    (hm : (evaluator.metric rule).Yields (moments.map Moment.event) (.crash c)) :
    Evaluates K evaluator rule moments (.crash c)
  /-- the metric cannot be read -/
  | skipped {e : AlertError}
    (hm : (evaluator.metric rule).Yields (moments.map Moment.event) (.error e)) :
    Evaluates K evaluator rule moments (.value (.skipped rule.id e.message))
  /-- the metric was read, and all went well with alerts -/
  | settled {value : Binary64} {now : Instant} {outcome : RuleOutcome}
    (hreads : evaluator.Reads rule (moments.map Moment.event) value now)
    (hendures : K.Endures evaluator rule value now moments (.value outcome))
    (hsound : (moments.map Moment.event).filterMap Event.alertFailure? = [])
    (hrule : outcome.ruleId = rule.id) (hskipped : outcome.isSkipped = false) :
    Evaluates K evaluator rule moments (.value outcome)
  /-- the metric was read, and one call for alerts failed -/
  | failed {value : Binary64} {now : Instant} {e : StorageError}
    (hreads : evaluator.Reads rule (moments.map Moment.event) value now)
    (hendures : K.Endures evaluator rule value now moments (.error (.storage e)))
    (hfailed : (moments.map Moment.event).filterMap Event.alertFailure? = [e]) :
    Evaluates K evaluator rule moments (.error (.storage e))

/-- A rule is stamped wherever rules are kept. -/
theorem RuleKeeper.stamps_of_yields {id : RuleId} {ending : Ending AlertError Unit}
    (hof : ∀ m ∈ moments, m.Of K.world)
    (h : (Evaluator.stamp id now).Yields (moments.map Moment.event) ending) :
    ending = .value () ∧ K.Stamps id now moments := by
  obtain ⟨s, rest, rfl, hof, hrest⟩ := yields_call_of_world (fun s => K.get_rule s id) hof h
  cases hread : K.rule? s id with
  | none =>
    rw [hread] at hrest
    obtain ⟨hnone, rfl⟩ := Action.yields_pure.mp hrest
    obtain rfl := List.map_eq_nil_iff.mp hnone
    exact ⟨rfl, .gone (hread ▸ rfl) hread⟩
  | some stored =>
    rw [hread] at hrest
    change (Action.call AlertError.storage
      (.save .rule { stored with lastEvaluatedAt := some now })).Yields _ ending at hrest
    rw [← bind_pure (Action.call _ _)] at hrest
    obtain ⟨m, last, rfl, -, hlast⟩ :=
      yields_call_of_world (a := fun _ => ()) (fun s => K.save_rule s _) hof hrest
    obtain ⟨hnone, rfl⟩ := Action.yields_pure.mp hlast
    obtain rfl := List.map_eq_nil_iff.mp hnone
    obtain rfl : stored.id = id := K.id_eq hread
    exact ⟨rfl, .stamped (hread ▸ rfl) hread rfl (K.saved_rule m _)⟩

/-- Whatever has followed from a value, the stamp comes after it. -/
theorem RuleKeeper.stamps_after {x : Except AlertError RuleOutcome}
    {reacted ending : Ending AlertError RuleOutcome} (hof : ∀ m ∈ moments, m.Of K.world)
    (hx : Action.ofExcept x = .stop reacted)
    (h : (Evaluator.stamp rule.id now >>= fun _ => Action.ofExcept x).Yields
      (moments.map Moment.event) ending) : ending = reacted ∧ K.Stamps rule.id now moments := by
  obtain ⟨stamping, rest, stamped, hsplit, hstamp, hrest⟩ := Action.yields_andThen.mp h
  obtain ⟨last, others, rfl, rfl, rfl⟩ := List.map_eq_append_iff.mp hsplit
  obtain ⟨rfl, hstamps⟩ := K.stamps_of_yields (fun m hm => hof m (List.mem_append_left _ hm)) hstamp
  obtain ⟨hnone, rfl⟩ := Action.yields_stop.mp (hx ▸ hrest)
  obtain rfl := List.map_eq_nil_iff.mp hnone
  rw [List.append_nil]
  exact ⟨rfl, hstamps⟩

/-- A value has its consequences, and the rule is stamped. -/
theorem RuleKeeper.settles_of_yields {ending : Ending AlertError RuleOutcome}
    (hof : ∀ m ∈ moments, m.Of K.world)
    (h : (evaluator.settle rule value now).Yields (moments.map Moment.event) ending) :
    ∃ own last, moments = own ++ last ∧
      evaluator.Reacts rule value now (own.map Moment.event) ending ∧
      K.Stamps rule.id now last := by
  change ((Action.andThen _ _).andThen _).Yields _ _ at h
  rw [Action.andThen_andThen] at h
  obtain ⟨first, second, reacted, hsplit, hfirst, hsecond⟩ := Action.yields_andThen.mp h
  obtain ⟨own, last, rfl, rfl, rfl⟩ := List.map_eq_append_iff.mp hsplit
  have hreacts := reacts_of_yields hfirst
  have hlast : ∀ m ∈ last, m.Of K.world := fun m hm => hof m (List.mem_append_right _ hm)
  cases reacted with
  | value outcome =>
    obtain ⟨rfl, hstamps⟩ := K.stamps_after (x := .ok outcome) hlast rfl hsecond
    exact ⟨own, last, rfl, hreacts, hstamps⟩
  | error e =>
    obtain ⟨rfl, hstamps⟩ := K.stamps_after (x := .error e) hlast rfl hsecond
    exact ⟨own, last, rfl, hreacts, hstamps⟩
  | crash c => rcases hreacts.returns with ⟨-, _, ⟨⟩, -⟩ | ⟨_, -, ⟨⟩⟩

/-- No call for alerts fails in a stamp, and nobody is told of anything. -/
theorem RuleKeeper.Stamps.quiet {stamped : RuleId} (h : K.Stamps stamped now moments) :
    (moments.map Moment.event).filterMap Event.alertFailure? = [] ∧
      ∀ m ∈ moments, ∀ notification, ¬ m.event.Tells notification := by
  cases h with
  | gone hget hread =>
    rw [List.map_singleton, List.forall_mem_singleton, hget]
    exact ⟨rfl, fun _ => id⟩
  | stamped hget hread hsave =>
    rw [List.map_cons, List.map_singleton, List.forall_mem_cons, List.forall_mem_singleton, hget,
      hsave]
    exact ⟨rfl, fun _ => id, fun _ => id⟩

theorem Request.IsQuery.no_other {event : Event} (h : event.request.IsQuery) :
    event.alertFailure? = none ∧ ¬ event.SavesRule ∧
      ∀ notification, ¬ event.Tells notification := by
  obtain ⟨request, answer⟩ := event
  cases request with
  | relational | dataset | api => exact ⟨rfl, id, fun _ => id⟩
  | call | now | freshId | putArtifact | notify | launch => exact h.elim

/-- An alert that was created is stored. -/
theorem RuleKeeper.stores_of_created {m : Moment σ} {alert : Alert} (hof : m.Of K.world)
    (hevent : m.event = ⟨.call (.createActive alert), .ok true⟩) : K.Stores m.after alert := by
  obtain ⟨s, event, s'⟩ := m
  obtain rfl : event = _ := hevent
  obtain rfl : (K.world (.call (.createActive alert)) s).2 = s' := congrArg Prod.snd hof
  exact K.created (congrArg Prod.fst hof)

/-- The alert of a breach is stored before anybody is told of it. -/
theorem RuleKeeper.endures_of_parts {asked own last : List (Moment σ)} {clock : Moment σ}
    {ending : Ending AlertError RuleOutcome} (hmoments : moments = asked ++ clock :: (own ++ last))
    (hof : ∀ m ∈ moments, m.Of K.world) (hasked : ∀ m ∈ asked, m.event.request.IsQuery)
    (hclock : clock.event = ⟨.now, now⟩)
    (hreacts : evaluator.Reacts rule value now (own.map Moment.event) ending)
    (hstamps : K.Stamps rule.id now last) :
    K.Endures evaluator rule value now moments ending := by
  refine ⟨⟨asked ++ [clock], own, last, ?_, hreacts⟩,
    ⟨asked ++ clock :: own, last, ?_, hstamps, ?_⟩, ?_⟩
  · rw [hmoments, List.append_assoc, List.singleton_append]
  · rw [hmoments, List.append_assoc, List.cons_append]
  · refine List.forall_mem_append.mpr ⟨fun m hm => (hasked m hm).no_other.2.1,
      List.forall_mem_cons.mpr ⟨?_, fun m hm => ?_⟩⟩
    · rw [hclock]
      exact id
    · exact hreacts.spares_rules m.event (List.mem_map_of_mem hm)
  · intro before m after hsplit notification htells
    rw [hmoments, ← List.singleton_append, ← List.append_assoc] at hsplit
    obtain ⟨earlier, later, rfl, rfl⟩ := split_within
      (P := fun m => ¬ m.event.Tells notification)
      (List.forall_mem_append.mpr ⟨fun m hm => (hasked m hm).no_other.2.2 notification,
        List.forall_mem_singleton.mpr (hclock ▸ id)⟩)
      (fun m hm => hstamps.quiet.2 m hm notification) (not_not_intro htells) hsplit
    obtain ⟨fresh, hopened, rfl⟩ := hreacts.told List.map_append htells
    obtain ⟨opening, hopening, hevent⟩ := List.mem_map.mp hopened
    have hstores : K.Stores opening.after _ :=
      K.stores_of_created (hof opening (by simp [hmoments, hopening])) hevent
    exact ⟨opening, List.mem_append_right _ hopening, _, fresh, rfl, hevent, hstores, rfl⟩

/-- All that the evaluation of a rule comes to. -/
theorem evaluates_of_yields {ending : Ending AlertError RuleOutcome}
    (hof : ∀ m ∈ moments, m.Of K.world)
    (h : (evaluator.evaluateRule rule).Yields (moments.map Moment.event) ending) :
    K.Evaluates evaluator rule moments ending := by
  change ((Action.andThen _ _).andThen _).Yields _ _ at h
  rw [Action.andThen_andThen] at h
  obtain ⟨first, second, middle, hsplit, hfirst, hsecond⟩ := Action.yields_andThen.mp h
  obtain ⟨asked, rest, rfl, rfl, rfl⟩ := List.map_eq_append_iff.mp hsplit
  cases middle with
  | value value =>
    obtain ⟨now, events, hevents, hsettle⟩ := Action.yields_request_bind.mp hsecond
    obtain ⟨clock, others, rfl, hclock, rfl⟩ := List.map_eq_cons_iff.mp hevents
    have hothers : ∀ m ∈ others, m.Of K.world := fun m hm => hof m (by simp [hm])
    obtain ⟨own, last, rfl, hreacts, hstamps⟩ := K.settles_of_yields hothers hsettle
    have hasked : ∀ m ∈ asked, m.event.request.IsQuery := fun m hm =>
      hfirst.forall_mem (asksOnly_metric evaluator rule) m.event (List.mem_map_of_mem hm)
    have hendures := K.endures_of_parts rfl hof hasked hclock hreacts hstamps
    have hreads : evaluator.Reads rule
        ((asked ++ clock :: (own ++ last)).map Moment.event) value now := by
      refine ⟨_, (own ++ last).map Moment.event, ?_, hfirst⟩
      rw [List.map_append, List.map_cons, hclock]
    have hfailures : ((asked ++ clock :: (own ++ last)).map Moment.event).filterMap
        Event.alertFailure? = (own.map Moment.event).filterMap Event.alertFailure? := by
      have hnone : (asked.map Moment.event).filterMap Event.alertFailure? = [] :=
        List.filterMap_eq_nil_iff.mpr (List.forall_mem_map.mpr fun m hm => (hasked m hm).no_other.1)
      rw [List.map_append, List.filterMap_append, hnone, List.map_cons, hclock,
        List.filterMap_cons_none rfl, List.map_append, List.filterMap_append, hstamps.quiet.1,
        List.append_nil, List.nil_append]
    rcases hreacts.returns with ⟨hsound, outcome, rfl, hrule, hskipped⟩ | ⟨e, hfailed, rfl⟩
    · exact .settled hreads hendures (hfailures.trans hsound) hrule hskipped
    · exact .failed hreads hendures (hfailures.trans hfailed)
  | error e =>
    obtain ⟨hnone, rfl⟩ := Action.yields_stop.mp hsecond
    obtain rfl := List.map_eq_nil_iff.mp hnone
    rw [List.append_nil]
    exact .skipped hfirst
  | crash c =>
    obtain ⟨hnone, rfl⟩ := Action.yields_stop.mp hsecond
    obtain rfl := List.map_eq_nil_iff.mp hnone
    rw [List.append_nil]
    exact .crashed hfirst

end

/-! ## Ticks -/

/-- What a tick reports of an evaluation: an error is an outcome. -/
def Ending.reported (rule : AlertRule) :
    Ending AlertError RuleOutcome → Ending AlertError RuleOutcome
  | .value outcome => .value outcome
  | .error e => .value (.skipped rule.id e.message)
  | .crash c => .crash c

theorem outcomeOf_eq (evaluator : Evaluator) (rule : AlertRule) :
    evaluator.outcomeOf rule
      = (evaluator.evaluateRule rule).andThen fun ended => .stop (ended.reported rule) := by
  refine (Action.andThen_andThen _ _ _).trans
    (congrArg (evaluator.evaluateRule rule).andThen (funext fun ended => ?_))
  cases ended <;> rfl

theorem evaluateAll_eq_mapM (evaluator : Evaluator) (rules : List AlertRule) :
    evaluator.evaluateAll rules = rules.mapM evaluator.outcomeOf := by
  induction rules with
  | nil => rfl
  | cons rule rest ih =>
    rw [List.mapM_cons, ← ih]
    rfl

section

variable {σ : Type} {K : RuleKeeper σ} {evaluator : Evaluator} {rule : AlertRule}
  {moments : List (Moment σ)}

/-- What a tick reports of a rule. -/
def RuleKeeper.Reports (K : RuleKeeper σ) (evaluator : Evaluator) (rule : AlertRule)
    (moments : List (Moment σ)) (ending : Ending AlertError RuleOutcome) : Prop :=
  ∃ ended, K.Evaluates evaluator rule moments ended ∧ ending = ended.reported rule

/-- How the evaluation of some rules may end, one after the other: each has its own moments and its
own outcome, unless a source breaks down. -/
inductive RuleKeeper.EvaluatesAll (K : RuleKeeper σ) (evaluator : Evaluator)
    (rules : List AlertRule) : List (Moment σ) → Ending AlertError (List RuleOutcome) → Prop
  | reported {parts : List (List (Moment σ) × RuleOutcome)}
    (h : List.Forall₂ (fun rule part => K.Reports evaluator rule part.1 (.value part.2))
      rules parts) :
    EvaluatesAll K evaluator rules (parts.flatMap Prod.fst) (.value (parts.map Prod.snd))
  | crashed {first last : List (Moment σ)} {rule : AlertRule} {c : Crash} (hrule : rule ∈ rules)
    (h : K.Reports evaluator rule last (.crash c)) :
    EvaluatesAll K evaluator rules (first ++ last) (.crash c)

theorem reports_of_yields {ending : Ending AlertError RuleOutcome}
    (hof : ∀ m ∈ moments, m.Of K.world)
    (h : (evaluator.outcomeOf rule).Yields (moments.map Moment.event) ending) :
    K.Reports evaluator rule moments ending := by
  rw [outcomeOf_eq] at h
  obtain ⟨first, second, ended, hsplit, hfirst, hsecond⟩ := Action.yields_andThen.mp h
  obtain ⟨rfl, rfl⟩ := Action.yields_stop.mp hsecond
  rw [List.append_nil] at hsplit
  exact ⟨ended, evaluates_of_yields hof (hsplit ▸ hfirst), rfl⟩

/-- An outcome is never an error. -/
theorem RuleKeeper.Reports.no_error {e : AlertError}
    (h : K.Reports evaluator rule moments (.error e)) : False := by
  obtain ⟨ended, -, hended⟩ := h
  cases ended with
  | value | error | crash => cases hended

theorem evaluatesAll_of_yields {rules : List AlertRule}
    {ending : Ending AlertError (List RuleOutcome)} (hof : ∀ m ∈ moments, m.Of K.world)
    (h : (evaluator.evaluateAll rules).Yields (moments.map Moment.event) ending) :
    K.EvaluatesAll evaluator rules moments ending := by
  rw [evaluateAll_eq_mapM] at h
  obtain ⟨parts, rfl, rfl, hparts⟩ | ⟨rule, hrule, first, last, rfl, hwrong⟩ :=
    Action.yields_mapM h
  · refine .reported (List.forall₂_iff_zip.mpr ⟨hparts.length_eq, fun {rule part} hzip => ?_⟩)
    have hpart : part ∈ parts := (List.of_mem_zip hzip).2
    exact reports_of_yields (fun m hm => hof m (List.mem_flatMap.mpr ⟨part, hpart, hm⟩))
      ((List.forall₂_iff_zip.mp hparts).2 hzip)
  · have hlast : ∀ m ∈ last, m.Of K.world := fun m hm => hof m (List.mem_append_right _ hm)
    obtain ⟨e, rfl, hyields⟩ | ⟨c, rfl, hyields⟩ := hwrong
    · exact (reports_of_yields hlast hyields).no_error.elim
    · exact .crashed hrule (reports_of_yields hlast hyields)

/-- How a tick may end: its rules are listed, and those that are enabled are evaluated. -/
def RuleKeeper.Ticks (K : RuleKeeper σ) (evaluator : Evaluator) (moments : List (Moment σ))
    (ending : Ending AlertError (List RuleOutcome)) : Prop :=
  ∃ listing rest, moments = listing :: rest ∧
    listing.event = ⟨.call (.list .rule ()), .ok (K.listed listing.before)⟩ ∧
    K.EvaluatesAll evaluator ((K.listed listing.before).filter AlertRule.enabled) rest ending

theorem ticks_of_yields {ending : Ending AlertError (List RuleOutcome)}
    (hof : ∀ m ∈ moments, m.Of K.world)
    (h : evaluator.tick.Yields (moments.map Moment.event) ending) :
    K.Ticks evaluator moments ending := by
  unfold Evaluator.tick Evaluator.enabledRules at h
  rw [bind_assoc] at h
  obtain ⟨s, rest, rfl, hrest, hall⟩ := yields_call_of_world K.list_rules hof h
  exact ⟨_, rest, rfl, rfl, evaluatesAll_of_yields hrest hall⟩

end

/-! ## Rules side by side -/

section

variable {σ ε α : Type} {world : World σ}

/-- Actions over the states of a world. -/
def World.setting (world : World σ) : Setting σ ε α where
  answers request s answer s' := world request s = (answer, s')
  launches _ := []
  forks _ := []

/-- An action that is under way since a world stood at `s`. What it was answered are moments of its
own among those of everybody. -/
structure Watched (world : World σ) (s : σ) (turns : List Turn) (s' : σ) (action : Action ε α)
    (t : Thread ε α) : Prop where
  state : world.after (turns.map Turn.event) s = s'
  own : ∃ own : List (Moment σ), own.Sublist (world.moments (turns.map Turn.event) s) ∧
    own.map Moment.event = t.past.reverse ∧ ∀ m ∈ own, m.Of world
  continues : t.Continues action

namespace Watched

variable {s m s' : σ} {turns : List Turn} {action : Action ε α}

theorem begin (world : World σ) (s : σ) (action : Action ε α) :
    Watched world s [] s action (.begin action) :=
  ⟨rfl, ⟨[], .slnil, rfl, List.forall_mem_nil _⟩, Thread.continues_begin action⟩

/-- The action takes a turn. -/
theorem ask {past : List Event} {request : Request} {next : request.Answer → Action ε α}
    {answer : request.Answer} (h : Watched world s turns m action ⟨past, .ask request next⟩)
    (hanswer : world request m = (answer, s')) :
    Watched world s (turns ++ [⟨past, ⟨request, answer⟩⟩]) s' action
      ⟨⟨request, answer⟩ :: past, next answer⟩ := by
  obtain ⟨hstate, ⟨own, hsublist, hown, hof⟩, hcontinues⟩ := h
  refine ⟨?_, ⟨own ++ [⟨m, ⟨request, answer⟩, s'⟩], ?_, ?_, ?_⟩, hcontinues.ask answer⟩
  · rw [List.map_append, List.map_singleton, World.after_concat, hstate, hanswer]
  · rw [List.map_append, List.map_singleton, World.moments_concat, World.after_concat, hstate,
      hanswer]
    exact hsublist.append (.refl _)
  · rw [List.map_append, hown, List.reverse_cons]
    rfl
  · exact List.forall_mem_append.mpr ⟨hof, List.forall_mem_singleton.mpr hanswer⟩

/-- Somebody else takes a turn. -/
theorem elsewhere {t : Thread ε α} {turn : Turn} (h : Watched world s turns m action t)
    (hanswer : world turn.event.request m = (turn.event.answer, s')) :
    Watched world s (turns ++ [turn]) s' action t := by
  obtain ⟨hstate, ⟨own, hsublist, hown, hof⟩, hcontinues⟩ := h
  refine ⟨?_, ⟨own, ?_, hown, hof⟩, hcontinues⟩
  · rw [List.map_append, List.map_singleton, World.after_concat, hstate, hanswer]
  · rw [List.map_append, List.map_singleton, World.moments_concat]
    exact hsublist.trans (List.sublist_append_left _ _)

end Watched

theorem Joint.watched {actions : List (Action ε α)} {s : σ} {turns : List Turn} {c : Scene σ ε α}
    (h : Joint world.setting (.begin actions s) turns c) :
    List.Forall₂ (Watched world s turns c.state) actions c.threads :=
  h.forall₂ (P := Watched world s) (fun _ => rfl) (fun action _ => .begin world s action)
    (fun h hanswer => h.ask hanswer) (fun h hanswer => h.elsewhere hanswer)

end

/-- The same ending with another value. -/
def Ending.map {ε α β : Type} (f : α → β) : Ending ε α → Ending ε β
  | .value a => .value (f a)
  | .error e => .error e
  | .crash c => .crash c

/-- Rules are evaluated side by side, and anybody else may do anything at the same time: each rule
that has come to an end has its report. -/
def RuleKeeper.EvaluatesSideBySide {σ : Type} (K : RuleKeeper σ) (evaluator : Evaluator)
    (s : σ) : Prop :=
  ∀ (rules : List AlertRule) (others : List (Action AlertError AlertResult)) (turns : List Turn)
    (c : Scene σ AlertError AlertResult),
    Joint K.world.setting (.begin (rules.map (ruleAction evaluator) ++ others) s) turns c →
    List.Forall₂ (fun rule t => ∀ ending, t.rest = .stop ending →
      ∃ (own : List (Moment σ)) (reported : Ending AlertError RuleOutcome),
        own.Sublist (K.world.moments (turns.map Turn.event) s) ∧
        own.map Moment.event = t.past.reverse ∧ K.Reports evaluator rule own reported ∧
        ending = reported.map .outcome) rules (c.threads.take rules.length)

theorem RuleKeeper.evaluates_sideBySide {σ : Type} (K : RuleKeeper σ) (evaluator : Evaluator)
    (s : σ) : K.EvaluatesSideBySide evaluator s := by
  intro rules others turns c h
  have hrules := List.forall₂_take rules.length h.watched
  rw [List.take_left' (List.length_map ..), List.forall₂_map_left_iff] at hrules
  refine hrules.imp fun rule t hwatched ending hstop => ?_
  obtain ⟨-, ⟨own, hsublist, hown, hof⟩, hcontinues⟩ := hwatched
  obtain ⟨first, second, reported, hsplit, hfirst, hsecond⟩ :=
    Action.yields_andThen.mp (hcontinues.yields hstop)
  have hall : second = [] ∧ ending = reported.map .outcome := by
    cases reported with
    | value | error | crash => exact Action.yields_stop.mp hsecond
  obtain ⟨rfl, rfl⟩ := hall
  rw [List.append_nil, ← hown] at hsplit
  exact ⟨own, reported, hsublist, hown, reports_of_yields hof (hsplit ▸ hfirst), rfl⟩

/-! ## A repository that fails by a plan -/

/-- A repository in memory whose calls for alerts fail by a plan, which says of one after the other
how it fails, if it does. All calls after the plan succeed. -/
def MemoryRepository.planned {σ : Type} (outside : World σ) :
    World (MemoryRepository × List (Option StorageError) × σ)
  | .call c, (r, plan, s) =>
    match c.OnAlerts, plan with
    | true, some e :: rest => (.error e, r, rest, s)
    | true, none :: rest => ((r.answer c).1, (r.answer c).2, rest, s)
    | _, plan => ((r.answer c).1, (r.answer c).2, plan, s)
  | request, (r, plan, s) => ((outside request s).1, r, plan, (outside request s).2)

/-- An alert that was created is in the repository. -/
theorem MemoryRepository.mem_of_created (r : MemoryRepository) {alert : Alert}
    (h : (r.answer (.createActive alert)).1 = .ok true) :
    alert ∈ (r.answer (.createActive alert)).2.alerts.entities := by
  rw [r.answer_createActive] at h ⊢
  split at h
  · cases h
  · rw [if_neg ‹_›]
    exact Table.mem_save.mpr (.inl rfl)

/-- Its rules can be relied on. -/
def RuleKeeper.planned {σ : Type} (outside : World σ) :
    RuleKeeper (MemoryRepository × List (Option StorageError) × σ) where
  world := MemoryRepository.planned outside
  rule? s id := s.1.rules.get? id
  listed s := s.1.rules.list ()
  Stores s alert := alert ∈ s.1.alerts.entities
  id_eq h := (Table.get?_eq_some_iff.mp h).2
  get_rule _ _ := rfl
  save_rule _ _ := rfl
  saved_rule s rule := (s.1.rules.get?_save rule rule.id).trans (if_pos rfl)
  list_rules _ := rfl
  created := by
    rintro ⟨r, _ | ⟨_ | e, plan⟩, s⟩ alert h
    · exact r.mem_of_created h
    · exact r.mem_of_created h
    · cases h

/-- **Alerts may fail.** Wherever rules can be relied on, and whatever becomes of alerts: the
evaluation of a rule whose metric was read gives the error of the call for alerts that failed, if
one did; it stamps the rule as it was read again, and tells nobody of an alert that was not stored.
A tick reports the error as the outcome of this rule, and of no other, whether its rules are
evaluated one after the other or side by side. -/
theorem alerts_may_fail {σ : Type} (K : RuleKeeper σ) (evaluator : Evaluator) (s : σ) :
    (∀ rule, K.Evaluates evaluator rule
      (K.world.moments ((evaluator.evaluateRule rule).trace K.world s) s)
      ((evaluator.evaluateRule rule).run K.world s).1) ∧
    K.Ticks evaluator (K.world.moments (evaluator.tick.trace K.world s) s)
      (evaluator.tick.run K.world s).1 ∧
    K.EvaluatesSideBySide evaluator s := by
  refine ⟨fun rule => ?_, ?_, K.evaluates_sideBySide evaluator s⟩
  · refine evaluates_of_yields (Action.moments_trace _ s) ?_
    rw [World.map_moments]
    exact Action.yields_trace _ _ _
  · refine ticks_of_yields (Action.moments_trace _ s) ?_
    rw [World.map_moments]
    exact Action.yields_trace _ _ _

/-- A load of zero breaches the rule while the disk is full: the error comes back, and the rule is
stamped. -/
theorem full_disk_is_survived :
    let K := RuleKeeper.planned noLoad
    let full : StorageError := .task "disk full"
    let s := (loadRepository, [some full], (⟨.memory loadRepository, []⟩ : AlertRoom))
    let evaluation := loadEvaluator.evaluateRule anyLoad
    (evaluation.run K.world s).1 = .error (.storage full) ∧
      K.Evaluates loadEvaluator anyLoad (K.world.moments (evaluation.trace K.world s) s)
        (.error (.storage full)) ∧
      K.rule? (evaluation.run K.world s).2 anyLoad.id
        = some { anyLoad with lastEvaluatedAt := some default } := by
  intro K full s evaluation
  have hending : (evaluation.run K.world s).1 = .error (.storage full) := rfl
  have hevaluates := (alerts_may_fail K loadEvaluator s).1 anyLoad
  exact ⟨hending, hending ▸ hevaluates, rfl⟩

end Bulletin
