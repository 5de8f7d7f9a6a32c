import Bulletin.Proofs.Conclusions

/-!
# Which alerts are opened, and who is told

The evaluation of a rule opens an alert if its metric is read and breaches the rule, and the rule
has no active alert. Every channel of the rule is told of this alert once, and nobody is told of
anything else.

* `Ways.opens` — what an evaluation has opened
* `Run.opens`, `Run.new_iff` — what a tick has opened
* `Run.deliveries` — who was told in a tick
-/

namespace Bulletin

/-! ## Openings and deliveries -/

/-- The alert that was created. -/
def Event.opened? : Event → Option Alert
  | ⟨.call (.createActive alert), .ok true⟩ => some alert
  | _ => none

/-- What was to be delivered, and where. -/
def Event.delivery? : Event → Option (Channel × Notification)
  | ⟨.notify channel notification, _⟩ => some (channel, notification)
  | _ => none

/-- All that is due when an alert of a rule is opened. -/
def AlertRule.deliveries (rule : AlertRule) (alert : Alert) : List (Channel × Notification) :=
  rule.channels.map fun channel => (channel, .ofAlert rule alert)

/-- Whatever the results, there is one delivery for each channel. -/
theorem filterMap_tellings (rule : AlertRule) (alert : Alert)
    {results : List (Except DeliveryError Unit)} (h : results.length = rule.channels.length) :
    (rule.tellings alert results).filterMap Event.delivery? = rule.deliveries alert ∧
      (rule.tellings alert results).filterMap Event.opened? = [] := by
  unfold AlertRule.tellings AlertRule.deliveries
  generalize rule.channels = channels at h
  induction channels generalizing results with
  | nil => exact ⟨rfl, rfl⟩
  | cons channel rest ih =>
    obtain ⟨result, others, rfl⟩ := List.exists_cons_of_length_eq_add_one h
    obtain ⟨hdeliveries, hopened⟩ := ih (Nat.succ.inj h)
    exact ⟨congrArg (_ :: ·) hdeliveries, hopened⟩

/-- Nothing is opened and nobody is told. -/
def Event.Quiet (event : Event) : Prop := event.opened? = none ∧ event.delivery? = none

theorem filterMap_quiet {events : List Event} (h : ∀ event ∈ events, event.Quiet) :
    events.filterMap Event.opened? = [] ∧ events.filterMap Event.delivery? = [] :=
  ⟨List.filterMap_eq_nil_iff.mpr fun event he => (h event he).1,
    List.filterMap_eq_nil_iff.mpr fun event he => (h event he).2⟩

theorem quiet_of_isQuery {event : Event} (h : event.request.IsQuery) : event.Quiet := by
  obtain ⟨request, answer⟩ := event
  cases request with
  | relational | dataset | api => exact ⟨rfl, rfl⟩
  | call | now | freshId | putArtifact | notify | launch => exact h.elim

namespace MemoryRepository

variable {r : MemoryRepository} {now : Instant} {id : Uuid}

theorem quiet_stamping (r : MemoryRepository) (rule : RuleId) (now : Instant) :
    ∀ event ∈ r.stamping rule now, event.Quiet := by
  unfold stamping
  refine List.forall_mem_cons.mpr ⟨⟨rfl, rfl⟩, ?_⟩
  split
  · exact fun _ he => absurd he List.not_mem_nil
  · exact List.forall_mem_singleton.mpr ⟨rfl, rfl⟩

/-- No identifier is taken where stored alerts end. -/
theorem free_ended {alerts : List Alert} (hstored : ∀ alert ∈ alerts, ¬ r.Free alert.id.uuid)
    (hfree : r.Free id) : (r.ended now alerts).Free id := by
  induction alerts generalizing r with
  | nil => exact hfree
  | cons alert rest ih =>
    obtain ⟨halert, hrest⟩ := List.forall_mem_cons.mp hstored
    have hne : alert.id ≠ ⟨id⟩ := fun he => halert (he ▸ hfree)
    refine ih (fun other ho hother => hrest other ho (free_save.mp hother).1) ?_
    exact free_save.mpr ⟨hfree, hne⟩

/-- An alert that is stored has its identifier. -/
theorem not_free_of_mem {alert : Alert} (h : alert ∈ r.alerts.entities) :
    ¬ r.Free alert.id.uuid :=
  not_not_intro ⟨alert, h, rfl⟩

end MemoryRepository

theorem quiet_endings (now : Instant) (alerts : List Alert) :
    ∀ event ∈ endings now alerts, event.Quiet := by
  intro event he
  obtain ⟨alert, -, rfl⟩ := List.mem_map.mp he
  exact ⟨rfl, rfl⟩

/-! ## One evaluation -/

namespace Evaluator

variable {evaluator : Evaluator} {rule : AlertRule} {r own : MemoryRepository}
  {events : List Event} {value value' : Binary64} {now now' : Instant}

/-- The metric of a rule was read, and then the clock. -/
def Reads (evaluator : Evaluator) (rule : AlertRule) (events : List Event) (value : Binary64)
    (now : Instant) : Prop :=
  ∃ asked rest, events = asked ++ ⟨.now, now⟩ :: rest ∧
    (evaluator.metric rule).Yields asked (.value value)

/-- There is one reading. -/
theorem Reads.unique (h : evaluator.Reads rule events value now)
    (h' : evaluator.Reads rule events value' now') : value' = value ∧ now' = now := by
  obtain ⟨asked, rest, rfl, hm⟩ := h
  obtain ⟨asked', rest', hsame, hm'⟩ := h'
  obtain ⟨rfl, hvalue⟩ := hm.unique hm' hsame
  cases hvalue
  obtain ⟨hnow, -⟩ := List.cons.inj (List.append_cancel_left hsame)
  cases hnow
  exact ⟨rfl, rfl⟩

/-- There is no reading where the metric is an error or breaks down. -/
theorem Reads.of_yields {ending : Ending AlertError Binary64}
    (h : evaluator.Reads rule events value now)
    (hm : (evaluator.metric rule).Yields events ending) : ending = .value value := by
  obtain ⟨asked, rest, hsame, hm'⟩ := h
  have hall : asked ++ (⟨.now, now⟩ :: rest) = events ++ [] := by
    rw [List.append_nil]
    exact hsame.symm
  exact (hm'.unique hm hall).2

/-- What an evaluation has opened, and what has become of the alerts. -/
inductive Opens (evaluator : Evaluator) (rule : AlertRule) (r : MemoryRepository)
    (events : List Event) (own : MemoryRepository) : List Alert → Prop
  /-- a breach without an active alert -/
  | opened {value : Binary64} {now : Instant} {fresh : Uuid}
    (hreads : evaluator.Reads rule events value now) (hb : rule.breached value = true)
    (hactive : ¬ r.hasActive rule.id = true) (hfree : r.Free fresh)
    (hown : own.alerts = r.alerts.save (.triggered ⟨fresh⟩ rule value now)) :
    Opens evaluator rule r events own [.triggered ⟨fresh⟩ rule value now]
  /-- a breach while an alert is active -/
  | standing {value : Binary64} {now : Instant}
    (hreads : evaluator.Reads rule events value now) (hb : rule.breached value = true)
    (hactive : r.hasActive rule.id = true) (hown : own.alerts = r.alerts) :
    Opens evaluator rule r events own []
  /-- no breach is read -/
  | quiet (hreads : ∀ value now, evaluator.Reads rule events value now →
      ¬ rule.breached value = true) (hfree : ∀ id, r.Free id → own.Free id) :
    Opens evaluator rule r events own []

/-- What a verdict opens and tells. -/
theorem verdict_opens {fresh : Uuid} {results : List (Except DeliveryError Unit)} {v : Verdict}
    (hreads : evaluator.Reads rule events value now)
    (hlength : results.length = rule.channels.length)
    (hfree : rule.breached value = true → r.Free fresh)
    (hv : evaluator.verdict rule r value now fresh results = v)
    (hown : own.alerts = v.after.alerts) :
    evaluator.Opens rule r events own (v.events.filterMap Event.opened?) ∧
      v.events.filterMap Event.delivery?
        = (v.events.filterMap Event.opened?).flatMap rule.deliveries := by
  subst hv
  unfold verdict at hown ⊢
  by_cases hb : rule.breached value = true
  · by_cases hactive : r.hasActive rule.id = true
    · simp only [if_pos hb, if_pos hactive] at hown ⊢
      exact ⟨.standing hreads hb hactive hown, rfl⟩
    · simp only [if_pos hb, if_neg hactive] at hown ⊢
      let alert := Alert.triggered ⟨fresh⟩ rule value now
      obtain ⟨hdeliveries, hopened⟩ := filterMap_tellings rule alert hlength
      have hone : (⟨.freshId, fresh⟩ :: ⟨.call (.createActive alert), .ok true⟩ ::
          rule.tellings alert results).filterMap Event.opened? = [alert] :=
        congrArg (alert :: ·) hopened
      rw [hone, List.flatMap_singleton]
      exact ⟨.opened hreads hb hactive (hfree hb) hown, hdeliveries⟩
  · simp only [if_neg hb] at hown ⊢
    have hno : ∀ value' now', evaluator.Reads rule events value' now' →
        ¬ rule.breached value' = true := by
      intro value' now' hreads'
      obtain ⟨rfl, rfl⟩ := hreads.unique hreads'
      exact hb
    by_cases hauto : evaluator.config.autoResolve = true
    · simp only [if_pos hauto] at hown ⊢
      obtain ⟨hopened, hdeliveries⟩ := filterMap_quiet (quiet_endings now (r.openAlerts rule.id))
      rw [List.filterMap_cons_none rfl, List.filterMap_cons_none rfl, hopened, hdeliveries]
      refine ⟨.quiet hno fun id hid => ?_, rfl⟩
      have hstored : ∀ alert ∈ r.openAlerts rule.id, ¬ r.Free alert.id.uuid := fun alert ha =>
        r.not_free_of_mem (EntityKind.mem_listing.mp (List.mem_filter.mp ha).1).1
      exact (MemoryRepository.free_congr hown).mpr (r.free_ended hstored hid)
    · simp only [if_neg hauto] at hown ⊢
      exact ⟨.quiet hno fun id => (MemoryRepository.free_congr hown).mpr, rfl⟩

/-- What an evaluation has opened and told. -/
theorem Ways.opens {ending : Ending AlertError RuleOutcome}
    (h : evaluator.Ways rule r events ending own) :
    evaluator.Opens rule r events own (events.filterMap Event.opened?) ∧
      events.filterMap Event.delivery?
        = (events.filterMap Event.opened?).flatMap rule.deliveries := by
  have hquiet : ∀ {asked ending}, (evaluator.metric rule).Yields asked ending →
      ∀ event ∈ asked, event.Quiet := fun hm event he =>
    quiet_of_isQuery (hm.forall_mem (asksOnly_metric evaluator rule) event he)
  cases h with
  | crashed hm =>
    obtain ⟨hopened, hdeliveries⟩ := filterMap_quiet (hquiet hm)
    rw [hopened, hdeliveries]
    exact ⟨.quiet (fun _ _ hreads => nomatch hreads.of_yields hm) fun _ => id, rfl⟩
  | skipped hm =>
    obtain ⟨hopened, hdeliveries⟩ := filterMap_quiet (hquiet hm)
    rw [hopened, hdeliveries]
    exact ⟨.quiet (fun _ _ hreads => nomatch hreads.of_yields hm) fun _ => id, rfl⟩
  | @judged asked value now fresh results v hm hlength hfree hv =>
    -- before and after the verdict nothing is opened, and nobody is told
    obtain ⟨hasked, hasked'⟩ := filterMap_quiet (hquiet hm)
    obtain ⟨hstamp, hstamp'⟩ := filterMap_quiet (v.after.quiet_stamping rule.id now)
    rw [List.filterMap_append, List.filterMap_append, List.filterMap_cons_none rfl,
      List.filterMap_cons_none rfl, List.filterMap_append, List.filterMap_append, hasked, hasked',
      hstamp, hstamp', List.append_nil, List.append_nil, List.nil_append, List.nil_append]
    exact verdict_opens ⟨asked, _, rfl, hm⟩ hlength hfree hv (v.after.stamped_alerts rule.id now)

end Evaluator

/-! ## One tick -/

namespace Evaluation

/-- All that an evaluation was answered, the oldest first. -/
def events (e : Evaluation) : List Event := e.thread.past.reverse

/-- The alerts that an evaluation has opened. -/
def opened (e : Evaluation) : List Alert := e.events.filterMap Event.opened?

end Evaluation

namespace Round

/-- The alerts that were opened, each with its rule. -/
def opened (t : Round) : List (AlertRule × Alert) :=
  t.evaluations.flatMap fun e => e.opened.map fun alert => (e.rule, alert)

/-- The metric of a rule was read. -/
def Reads (evaluator : Evaluator) (t : Round) (rule : AlertRule) (value : Binary64)
    (now : Instant) : Prop :=
  ∃ e ∈ t.evaluations, e.rule = rule ∧ evaluator.Reads rule e.events value now

theorem mem_opened {t : Round} {rule : AlertRule} {alert : Alert} :
    (rule, alert) ∈ t.opened ↔ ∃ e ∈ t.evaluations, e.rule = rule ∧ alert ∈ e.opened := by
  simp only [opened, List.mem_flatMap, List.mem_map, Prod.mk.injEq]
  exact exists_congr fun e => and_congr_right fun _ =>
    ⟨fun ⟨_, ha, hrule, hsame⟩ => ⟨hrule, hsame ▸ ha⟩, fun ⟨hrule, ha⟩ => ⟨alert, ha, hrule, rfl⟩⟩

variable {evaluator : Evaluator} {rules : List AlertRule} {r : MemoryRepository}
  {drawn : List Uuid} {t t' : Round} {turns : List Turn} {rule : AlertRule} {alert : Alert}

/-- The events of the turns are those of the evaluations. -/
theorem Run.events_perm (h : t.Run turns t') :
    (t'.evaluations.flatMap Evaluation.events).Perm
      (t.evaluations.flatMap Evaluation.events ++ turns.map Turn.event) := by
  induction h with
  | start => simp
  | advance _ ha ih =>
    cases ha with
    | @take before after rule past request next answer r r' drawn drawn' ha =>
      rw [List.flatMap_append, List.flatMap_cons] at ih ⊢
      have hevents : Evaluation.events ⟨rule, ⟨⟨request, answer⟩ :: past, next answer⟩⟩
          = Evaluation.events ⟨rule, ⟨past, .ask request next⟩⟩ ++ [⟨request, answer⟩] :=
        List.reverse_cons
      rw [hevents, List.map_append, ← List.append_assoc (t.evaluations.flatMap _)]
      refine List.Perm.trans ?_ (ih.append_right [⟨request, answer⟩])
      rw [List.append_assoc (before.flatMap _), List.append_assoc (Evaluation.events _),
        List.append_assoc (Evaluation.events _)]
      exact (List.perm_append_comm.append_left _).append_left _

/-- What an evaluation that is over has opened and told. -/
theorem Run.opens (hrules : (rules.map AlertRule.id).Nodup)
    (h : (begin evaluator rules r drawn).Run turns t) (hover : t.Over) {e : Evaluation}
    (he : e ∈ t.evaluations) :
    e.events.filterMap Event.delivery? = e.opened.flatMap e.rule.deliveries ∧
      ∃ own, MemoryRepository.AgreeOn e.rule.id own t.repository ∧
        evaluator.Opens e.rule r e.events own e.opened := by
  obtain ⟨ending, hrest⟩ := hover e he
  obtain ⟨rule, past, rest⟩ := e
  obtain rfl : rest = .stop ending := hrest
  obtain ⟨own, hagree, ⟨outcome, -, hways⟩ | ⟨crash, -, hways⟩⟩ := h.ways hrules he
  · exact ⟨hways.opens.2, own, hagree, hways.opens.1⟩
  · exact ⟨hways.opens.2, own, hagree, hways.opens.1⟩

/-- The alerts that were opened are the new ones. -/
theorem Run.mem_opened (hrules : (rules.map AlertRule.id).Nodup)
    (h : (begin evaluator rules r drawn).Run turns t) (hover : t.Over) :
    (rule, alert) ∈ t.opened ↔ rule ∈ rules ∧ alert.ruleId = rule.id ∧
      alert ∈ t.repository.alerts.entities ∧ r.Free alert.id.uuid := by
  rw [Round.mem_opened]
  constructor
  · rintro ⟨e, he, rfl, ha⟩
    obtain ⟨-, own, hagree, hopens⟩ := h.opens hrules hover he
    generalize e.opened = opened at ha hopens
    cases hopens with
    | opened _ _ _ hfree hown =>
      obtain rfl := List.mem_singleton.mp ha
      refine ⟨h.mem_rules he, rfl, (hagree.alerts _ rfl).mpr ?_, hfree⟩
      rw [hown]
      exact Table.mem_save.mpr (.inl rfl)
    | standing => exact absurd ha List.not_mem_nil
    | quiet => exact absurd ha List.not_mem_nil
  · rintro ⟨hrule, howner, hstored, hfree⟩
    obtain ⟨e, he, rfl⟩ := h.exists_evaluation hrule
    obtain ⟨-, own, hagree, hopens⟩ := h.opens hrules hover he
    refine ⟨e, he, rfl, ?_⟩
    have hmem : alert ∈ own.alerts.entities := (hagree.alerts alert howner).mp hstored
    generalize e.opened = opened at hopens
    cases hopens with
    | opened _ _ _ _ hown =>
      rw [hown] at hmem
      rcases Table.mem_save.mp hmem with rfl | ⟨hold, -⟩
      · exact List.mem_singleton_self _
      · exact absurd hfree (r.not_free_of_mem hold)
    | standing _ _ _ hown => exact absurd hfree (r.not_free_of_mem (hown ▸ hmem))
    | quiet _ hkept => exact absurd (hkept _ hfree) (own.not_free_of_mem hmem)

/-- Every new alert was opened for a rule. -/
theorem Run.exists_of_new (hrules : (rules.map AlertRule.id).Nodup)
    (h : (begin evaluator rules r drawn).Run turns t) (hover : t.Over)
    (hstored : alert ∈ t.repository.alerts.entities) (hfree : r.Free alert.id.uuid) :
    ∃ rule, (rule, alert) ∈ t.opened := by
  by_cases hid : alert.ruleId ∈ rules.map AlertRule.id
  · obtain ⟨rule, hrule, howner⟩ := List.mem_map.mp hid
    exact ⟨rule, (h.mem_opened hrules hover).mpr ⟨hrule, howner.symm, hstored, hfree⟩⟩
  · have hothers : alert.ruleId ∉ (begin evaluator rules r drawn).evaluations.map
        fun e => e.rule.id := by
      rw [begin, List.map_map]
      exact hid
    have hagree := h.others (apart_begin evaluator r drawn hrules) hothers
    exact absurd hfree (r.not_free_of_mem ((hagree.alerts alert rfl).mp hstored))

/-- An alert is opened for a rule if and only if a breach is read and none is active. -/
theorem Run.opened_iff (hrules : (rules.map AlertRule.id).Nodup)
    (h : (begin evaluator rules r drawn).Run turns t) (hover : t.Over) (hrule : rule ∈ rules) :
    (∃ alert, (rule, alert) ∈ t.opened) ↔ ∃ value now, t.Reads evaluator rule value now ∧
      rule.breached value = true ∧ ¬ r.hasActive rule.id = true := by
  obtain ⟨e, he, rfl⟩ := h.exists_evaluation hrule
  obtain ⟨-, own, -, hopens⟩ := h.opens hrules hover he
  have hone : ∀ e' ∈ t.evaluations, e'.rule = e.rule → e' = e :=
    fun e' he' hsame => h.eq_of_rule hrules he' he hsame
  have hopened : (∃ alert, (e.rule, alert) ∈ t.opened) ↔ ∃ alert, alert ∈ e.opened := by
    refine exists_congr fun alert => Round.mem_opened.trans ⟨?_, fun ha => ⟨e, he, rfl, ha⟩⟩
    rintro ⟨e', he', hsame, ha⟩
    exact hone e' he' hsame ▸ ha
  have hreading : ∀ value now, t.Reads evaluator e.rule value now ↔
      evaluator.Reads e.rule e.events value now := by
    refine fun value now => ⟨?_, fun hreads => ⟨e, he, rfl, hreads⟩⟩
    rintro ⟨e', he', hsame, hreads⟩
    exact hone e' he' hsame ▸ hreads
  simp only [hopened, hreading]
  generalize e.opened = opened at hopens
  cases hopens with
  | opened hreads hb hactive =>
    exact ⟨fun _ => ⟨_, _, hreads, hb, hactive⟩, fun _ => ⟨_, List.mem_singleton_self _⟩⟩
  | standing _ _ hactive =>
    exact ⟨fun ⟨_, ha⟩ => absurd ha List.not_mem_nil, fun ⟨_, _, _, _, hno⟩ => absurd hactive hno⟩
  | quiet hno =>
    exact ⟨fun ⟨_, ha⟩ => absurd ha List.not_mem_nil,
      fun ⟨_, _, hreads, hb, _⟩ => absurd hb (hno _ _ hreads)⟩

/-- A breach leaves the alerts of the rule as they were, or adds one to them. -/
theorem Run.breach (hrules : (rules.map AlertRule.id).Nodup)
    (h : (begin evaluator rules r drawn).Run turns t) (hover : t.Over) {value : Binary64}
    {now : Instant} (hreads : t.Reads evaluator rule value now) (hb : rule.breached value = true) :
    (r.hasActive rule.id = true ∧ ∀ a : Alert, a.ruleId = rule.id →
      (a ∈ t.repository.alerts.entities ↔ a ∈ r.alerts.entities)) ∨
    ¬ r.hasActive rule.id = true ∧ ∃ alert, (rule, alert) ∈ t.opened ∧
      alert = .triggered alert.id rule value now ∧ ∀ a : Alert, a.ruleId = rule.id →
        (a ∈ t.repository.alerts.entities ↔ a = alert ∨ a ∈ r.alerts.entities) := by
  obtain ⟨e, he, rfl, hreads⟩ := hreads
  obtain ⟨-, own, hagree, hopens⟩ := h.opens hrules hover he
  have hmem : ∀ alert ∈ e.opened, (e.rule, alert) ∈ t.opened :=
    fun alert ha => Round.mem_opened.mpr ⟨e, he, rfl, ha⟩
  generalize e.opened = opened at hopens hmem
  cases hopens with
  | @opened value' now' fresh hreads' hb' hactive hfree hown =>
    obtain ⟨rfl, rfl⟩ := hreads.unique hreads'
    refine .inr ⟨hactive, _, hmem _ (List.mem_singleton_self _), rfl, fun a ha => ?_⟩
    rw [hagree.alerts a ha, hown, Table.mem_save]
    refine or_congr_right (and_iff_left_of_imp fun hold hid => r.not_free_of_mem hold ?_)
    exact (congrArg Id.uuid hid : a.id.uuid = fresh) ▸ hfree
  | standing _ _ hactive hown =>
    refine .inl ⟨hactive, fun a ha => ?_⟩
    rw [hagree.alerts a ha, hown]
  | quiet hno => exact absurd hb (hno _ _ hreads)

/-- An alert that was opened tells of the reading. -/
theorem Run.triggered_of_opened (hrules : (rules.map AlertRule.id).Nodup)
    (h : (begin evaluator rules r drawn).Run turns t) (hover : t.Over)
    (hopened : (rule, alert) ∈ t.opened) :
    ∃ value now, t.Reads evaluator rule value now ∧
      alert = .triggered alert.id rule value now := by
  obtain ⟨e, he, rfl, ha⟩ := Round.mem_opened.mp hopened
  obtain ⟨-, own, -, hopens⟩ := h.opens hrules hover he
  generalize e.opened = opened at ha hopens
  cases hopens with
  | opened hreads =>
    obtain rfl := List.mem_singleton.mp ha
    exact ⟨_, _, ⟨e, he, rfl, hreads⟩, rfl⟩
  | standing => exact absurd ha List.not_mem_nil
  | quiet => exact absurd ha List.not_mem_nil

/-- No rule opens more than one alert. -/
theorem Run.nodup_opened (hrules : (rules.map AlertRule.id).Nodup)
    (h : (begin evaluator rules r drawn).Run turns t) (hover : t.Over) :
    (t.opened.map Prod.fst).Nodup := by
  have hsub : ∀ evaluations : List Evaluation, (∀ e ∈ evaluations, e.opened.length ≤ 1) →
      ((evaluations.flatMap fun e => e.opened.map fun alert => (e.rule, alert)).map
        Prod.fst).Sublist (evaluations.map Evaluation.rule) := by
    intro evaluations hle
    induction evaluations with
    | nil => exact .refl _
    | cons e rest ih =>
      obtain ⟨he, hrest⟩ := List.forall_mem_cons.mp hle
      rw [List.flatMap_cons, List.map_append, List.map_cons]
      cases hopened : e.opened with
      | nil => exact (ih hrest).cons _
      | cons alert others =>
        rw [hopened, List.length_cons] at he
        obtain rfl := List.eq_nil_of_length_eq_zero (Nat.le_zero.mp (Nat.le_of_succ_le_succ he))
        exact (ih hrest).cons_cons _
  have hdistinct : (t.evaluations.map Evaluation.rule).Nodup := h.evaluated ▸ hrules.of_map
  refine hdistinct.sublist (hsub _ fun e he => ?_)
  obtain ⟨-, own, -, hopens⟩ := h.opens hrules hover he
  generalize e.opened = opened at hopens
  cases hopens with
  | opened => exact Nat.le_refl 1
  | standing => exact Nat.zero_le 1
  | quiet => exact Nat.zero_le 1

/-- Every channel is told of every alert that was opened, once, and of nothing else. -/
theorem Run.deliveries (hrules : (rules.map AlertRule.id).Nodup)
    (h : (begin evaluator rules r drawn).Run turns t) (hover : t.Over) :
    ((turns.map Turn.event).filterMap Event.delivery?).Perm
      (t.opened.flatMap fun o => o.1.deliveries o.2) := by
  have hbegun : (begin evaluator rules r drawn).evaluations.flatMap Evaluation.events = [] := by
    refine List.flatMap_eq_nil_iff.mpr fun e he => ?_
    obtain ⟨rule, -, rfl⟩ := List.mem_map.mp he
    rfl
  have hperm := h.events_perm
  rw [hbegun, List.nil_append] at hperm
  have hall : (t.evaluations.flatMap Evaluation.events).filterMap Event.delivery?
      = t.opened.flatMap fun o => o.1.deliveries o.2 := by
    unfold opened
    rw [List.filterMap_flatMap, List.flatMap_assoc]
    refine List.flatMap_congr fun e he => ?_
    rw [(h.opens hrules hover he).1, List.flatMap_map]
  exact hall ▸ (hperm.filterMap Event.delivery?).symm

end Round

end Bulletin
