import Bulletin.Proofs.AlertProtocol
import Bulletin.Proofs.Listings
import Bulletin.Proofs.StoredAlerts

/-!
# The part of a rule

To every rule belongs a part of a repository in memory: its record and its alerts. The evaluation
of a rule asks for its own part only. So repositories that agree on this part answer it alike, and
it leaves the parts of all other rules as they are.

* `AgreeOn.answer` — repositories that agree on a part answer for it alike, and go on to agree
* `agreeOn_answer_of_other` — what is asked for one rule leaves the other rules alone
* `obeys_own_outcomeOf` — the evaluation of a rule asks for its own part
-/

namespace Bulletin

/-! ## Parts -/

/-- Two repositories have the same record of a rule, and the same alerts of it. -/
structure MemoryRepository.AgreeOn (rule : RuleId) (r r' : MemoryRepository) : Prop where
  record : r'.rules.get? rule = r.rules.get? rule
  alerts : ∀ alert : Alert, alert.ruleId = rule →
    (alert ∈ r'.alerts.entities ↔ alert ∈ r.alerts.entities)

/-- Two repositories have the same entities but for rules and alerts. -/
structure MemoryRepository.SameBesides (r r' : MemoryRepository) : Prop where
  reports : r'.reports = r.reports
  executions : r'.executions = r.executions
  dashboards : r'.dashboards = r.dashboards
  widgets : r'.widgets = r.widgets

/-- A call that asks for the part of a rule, or for nothing else that could be changed. -/
def Call.Concerns (rule : RuleId) : Call → Prop
  | .get .rule id => id = rule
  | .save .rule entity => entity.id = rule
  | .list .alert scope => scope = some rule
  | .save .alert alert => alert.ruleId = rule
  | .createActive alert => alert.ruleId = rule
  | _ => False

/-- The alert that a call writes, if it writes one. -/
def Call.writes? : Call → Option Alert
  | .save .alert alert => some alert
  | .createActive alert => some alert
  | _ => none

namespace MemoryRepository

variable {rule other : RuleId} {r r' r'' : MemoryRepository} {c : Call}

theorem AgreeOn.refl (rule : RuleId) (r : MemoryRepository) : AgreeOn rule r r :=
  ⟨rfl, fun _ _ => Iff.rfl⟩

theorem AgreeOn.trans (h : AgreeOn rule r r') (h' : AgreeOn rule r' r'') : AgreeOn rule r r'' :=
  ⟨h'.record.trans h.record, fun alert ha => (h'.alerts alert ha).trans (h.alerts alert ha)⟩

theorem AgreeOn.symm (h : AgreeOn rule r r') : AgreeOn rule r' r :=
  ⟨h.record.symm, fun alert ha => (h.alerts alert ha).symm⟩

/-- The alerts of a rule are listed alike. -/
theorem AgreeOn.listing (h : AgreeOn rule r r') :
    EntityKind.alert.listing (some rule) r'.alerts.entities
      = EntityKind.alert.listing (some rule) r.alerts.entities := by
  let own (r : MemoryRepository) : List Alert :=
    r.alerts.entities.filter (EntityKind.alert.inScope (some rule))
  have hown : ∀ r, EntityKind.alert.listing (some rule) r.alerts.entities
      = EntityKind.alert.listing (some rule) (own r) := by
    intro r
    unfold EntityKind.listing
    rw [List.filter_filter]
    simp only [Bool.and_self]
  have hdistinct : ∀ r, ((own r).map EntityKind.alert.id).Nodup :=
    fun r => r.alerts.distinct.sublist (List.filter_sublist.map _)
  have hperm : (own r').Perm (own r) := by
    refine (List.perm_ext_iff_of_nodup (hdistinct r').of_map (hdistinct r).of_map).mpr ?_
    intro alert
    simp only [own, List.mem_filter]
    refine and_congr_left fun hscope => h.alerts alert ?_
    simpa [EntityKind.inScope] using hscope
  rw [hown, hown r]
  exact EntityKind.listing_perm hperm (hdistinct r')

/-- A rule has an active alert in both or in none. -/
theorem AgreeOn.any_blocks (h : AgreeOn rule r r') :
    r'.alerts.entities.any (Alert.blocks rule) = r.alerts.entities.any (Alert.blocks rule) := by
  rw [Bool.eq_iff_iff, List.any_eq_true, List.any_eq_true]
  refine exists_congr fun alert => and_congr_left fun hblocks => h.alerts alert ?_
  exact (Repository.Alert.blocks_eq_true_iff.mp hblocks).1

theorem AgreeOn.save_alert (h : AgreeOn rule r r') (alert : Alert) :
    AgreeOn rule (r.set .alert (r.alerts.save alert)) (r'.set .alert (r'.alerts.save alert)) := by
  refine ⟨h.record, fun a ha => ?_⟩
  change a ∈ (r'.alerts.save alert).entities ↔ a ∈ (r.alerts.save alert).entities
  rw [Table.mem_save, Table.mem_save, h.alerts a ha]

theorem AgreeOn.save_rule (h : AgreeOn rule r r') (entity : AlertRule) :
    AgreeOn rule (r.set .rule (r.rules.save entity)) (r'.set .rule (r'.rules.save entity)) := by
  refine ⟨?_, h.alerts⟩
  change (r'.rules.save entity).get? rule = (r.rules.save entity).get? rule
  rw [Table.get?_save, Table.get?_save, h.record]

/-- Repositories that agree on the part of a rule answer for it alike, and go on to agree. -/
theorem AgreeOn.answer (h : AgreeOn rule r r') (hc : c.Concerns rule) :
    (r'.answer c).1 = (r.answer c).1 ∧ AgreeOn rule (r.answer c).2 (r'.answer c).2 := by
  cases c with
  | get kind id =>
    cases kind with
    | rule =>
      obtain rfl : id = rule := hc
      exact ⟨congrArg Except.ok h.record, h⟩
    | report | execution | dashboard | widget | alert => exact hc.elim
  | save kind entity =>
    cases kind with
    | rule => exact ⟨rfl, h.save_rule entity⟩
    | alert => exact ⟨rfl, h.save_alert entity⟩
    | report | execution | dashboard | widget => exact hc.elim
  | list kind scope =>
    cases kind with
    | alert =>
      obtain rfl : scope = some rule := hc
      exact ⟨congrArg Except.ok h.listing, h⟩
    | report | execution | dashboard | widget | rule => exact hc.elim
  | createActive alert =>
    obtain rfl : alert.ruleId = rule := hc
    simp only [MemoryRepository.answer]
    rw [h.any_blocks]
    split
    · exact ⟨rfl, h⟩
    · exact ⟨rfl, h.save_alert alert⟩

/-- An alert that takes the place of none, or of one of its own rule, makes no difference to the
other rules. -/
theorem agreeOn_save_alert {alert : Alert}
    (hplace : ∀ a ∈ r.alerts.entities, a.id = alert.id → a.ruleId = alert.ruleId)
    (hne : alert.ruleId ≠ rule) : AgreeOn rule r (r.set .alert (r.alerts.save alert)) := by
  refine ⟨rfl, fun a ha => ?_⟩
  change a ∈ (r.alerts.save alert).entities ↔ _
  rw [Table.mem_save]
  constructor
  · rintro (rfl | ⟨hmem, -⟩)
    · exact absurd ha hne
    · exact hmem
  · exact fun hmem => .inr ⟨hmem, fun hid => hne ((hplace a hmem hid).symm.trans ha)⟩

/-- What is asked for one rule makes no difference to the others, as long as an alert is only saved
in the place of one of its own rule. -/
theorem agreeOn_answer_of_other (hc : c.Concerns other) (hne : other ≠ rule)
    (hplace : ∀ alert, c.writes? = some alert →
      ∀ a ∈ r.alerts.entities, a.id = alert.id → a.ruleId = alert.ruleId) :
    AgreeOn rule r (r.answer c).2 := by
  cases c with
  | get kind id => exact .refl rule r
  | list kind scope => exact .refl rule r
  | save kind entity =>
    cases kind with
    | rule =>
      refine ⟨?_, fun _ _ => Iff.rfl⟩
      change (r.rules.save entity).get? rule = _
      have hid : EntityKind.rule.id entity ≠ rule := fun hid => hne (hc.symm.trans hid)
      rw [Table.get?_save, if_neg hid]
    | alert => exact agreeOn_save_alert (hplace entity rfl) (hc.symm ▸ hne)
    | report | execution | dashboard | widget => exact hc.elim
  | createActive alert =>
    simp only [MemoryRepository.answer]
    split
    · exact .refl rule r
    · exact agreeOn_save_alert (hplace alert rfl) (hc.symm ▸ hne)

theorem SameBesides.refl (r : MemoryRepository) : SameBesides r r := ⟨rfl, rfl, rfl, rfl⟩

theorem SameBesides.trans (h : SameBesides r r') (h' : SameBesides r' r'') : SameBesides r r'' :=
  ⟨h'.reports.trans h.reports, h'.executions.trans h.executions,
    h'.dashboards.trans h.dashboards, h'.widgets.trans h.widgets⟩

theorem SameBesides.symm (h : SameBesides r r') : SameBesides r' r :=
  ⟨h.reports.symm, h.executions.symm, h.dashboards.symm, h.widgets.symm⟩

theorem sameBesides_answer (hc : c.Concerns rule) : SameBesides r (r.answer c).2 := by
  cases c with
  | get kind id => exact .refl r
  | list kind scope => exact .refl r
  | save kind entity => cases kind <;> first | exact hc.elim | exact ⟨rfl, rfl, rfl, rfl⟩
  | createActive alert =>
    simp only [MemoryRepository.answer]
    split <;> exact ⟨rfl, rfl, rfl, rfl⟩

end MemoryRepository

/-! ## What an evaluation asks for -/

/-- An answer shows what was asked for: the rule of an identifier, and the alerts of a rule. -/
def Event.Within : Event → Prop
  | ⟨.call (.get .rule id), .ok (some rule)⟩ => rule.id = id
  | ⟨.call (.list .alert (some rule)), .ok alerts⟩ => ∀ alert ∈ alerts, alert.ruleId = rule
  | _ => True

theorem MemoryRepository.within_answer (r : MemoryRepository) (c : Call) :
    Event.Within ⟨.call c, (r.answer c).1⟩ := by
  cases c with
  | get kind id =>
    cases kind with
    | rule =>
      change Event.Within ⟨.call (.get .rule id), .ok (r.rules.get? id)⟩
      cases h : r.rules.get? id with
      | none => trivial
      | some rule => exact (Table.get?_eq_some_iff.mp h).2
    | report | execution | dashboard | widget | alert => trivial
  | list kind scope =>
    cases kind with
    | alert =>
      cases scope with
      | none => trivial
      | some rule =>
        intro alert ha
        simpa [EntityKind.inScope] using (EntityKind.mem_listing.mp ha).2
    | report | execution | dashboard | widget | rule => trivial
  | save kind entity => cases kind <;> trivial
  | createActive alert => trivial

/-- A request that concerns a rule. -/
def Request.Concerns (rule : RuleId) : Request → Prop
  | .call c => c.Concerns rule
  | .putArtifact _ _ => False
  | .launch _ _ => False
  | _ => True

/-- Who is shown what was asked for asks for the part of a rule only. -/
def ownProtocol (rule : RuleId) : Protocol := fun past request =>
  (∀ event ∈ past, event.Within) → request.Concerns rule

variable {id : RuleId}

theorem ownProtocol_of_isQuery (past : List Event) (request : Request) (h : request.IsQuery) :
    ownProtocol id past request := by
  intro _
  cases request <;> trivial

theorem obeys_own_notifyAll {ε : Type} (notification : Notification) (channels : List Channel)
    (past : List Event) :
    (notifyAll notification channels : Action ε _).Obeys (ownProtocol id) (fun _ _ => True)
      past := by
  induction channels generalizing past with
  | nil => trivial
  | cons channel rest ih =>
    exact ⟨fun _ => trivial, fun answer => (ih _).bind fun _ _ => trivial⟩

theorem obeys_own_onBreach (rule : AlertRule) (value : Binary64) (now : Instant)
    (past : List Event) :
    (Evaluator.onBreach rule value now).Obeys (ownProtocol rule.id) (fun _ _ => True) past := by
  refine Action.obeys_request_bind.mpr ⟨fun _ => trivial, fun fresh => ?_⟩
  refine Action.obeys_call_bind.mpr ⟨fun _ => rfl, ?_, fun _ => trivial⟩
  intro created
  split
  · refine Action.Obeys.bind ?_ fun _ _ => trivial
    exact (obeys_own_notifyAll _ _ _).bind fun _ _ => trivial
  · trivial

/-- Resolving some alerts concerns their rule. -/
theorem obeys_own_resolveOpen (now : Instant) (alerts : List Alert) (past : List Event)
    (h : (∀ event ∈ past, event.Within) → ∀ alert ∈ alerts, alert.ruleId = id) :
    (Evaluator.resolveOpen now alerts).Obeys (ownProtocol id) (fun _ _ => True) past := by
  induction alerts generalizing past with
  | nil => trivial
  | cons alert rest ih =>
    have hrest : (∀ event ∈ past, event.Within) → ∀ alert ∈ rest, alert.ruleId = id :=
      fun hpast a ha => h hpast a (List.mem_cons_of_mem _ ha)
    unfold Evaluator.resolveOpen Alert.resolve
    split
    · exact ih past hrest
    · refine Action.obeys_ofExcept_bind.mpr ⟨?_, fun _ _ => trivial⟩
      intro resolved hresolved
      cases hresolved
      refine Action.obeys_call_bind.mpr ⟨?_, ?_, fun _ => trivial⟩
      · exact fun hpast => h hpast alert List.mem_cons_self
      · intro _
        refine (ih _ fun hpast => hrest fun event he => ?_).bind fun _ _ => trivial
        exact hpast event (List.mem_cons_of_mem _ he)

theorem obeys_own_onClear (evaluator : Evaluator) (rule : AlertRule) (value : Binary64)
    (now : Instant) (past : List Event) :
    (evaluator.onClear rule value now).Obeys (ownProtocol rule.id) (fun _ _ => True) past := by
  unfold Evaluator.onClear
  split
  · refine Action.obeys_call_bind.mpr ⟨fun _ => rfl, fun alerts => ?_, fun _ => trivial⟩
    refine (obeys_own_resolveOpen now alerts _ ?_).bind fun _ _ => trivial
    exact fun hpast => hpast _ List.mem_cons_self
  · trivial

theorem obeys_own_stamp (id : RuleId) (now : Instant) (past : List Event) :
    (Evaluator.stamp id now).Obeys (ownProtocol id) (fun _ _ => True) past := by
  refine Action.obeys_call_bind.mpr ⟨fun _ => rfl, ?_, fun _ => trivial⟩
  rintro (_ | rule)
  · trivial
  · exact ⟨fun hpast => hpast _ List.mem_cons_self, by rintro (_ | _) <;> trivial⟩

/-- The evaluation of a rule asks for its own part. -/
theorem obeys_own_outcomeOf (evaluator : Evaluator) (rule : AlertRule) (past : List Event) :
    (evaluator.outcomeOf rule).Obeys (ownProtocol rule.id) (fun _ _ => True) past := by
  have hrule : (evaluator.evaluateRule rule).Obeys (ownProtocol rule.id) (fun _ _ => True)
      past := by
    refine (((asksOnly_metric _ _).obeys ownProtocol_of_isQuery past).result).bind ?_
    rintro past (_ | value)
    · trivial
    refine Action.obeys_request_bind.mpr ⟨fun _ => trivial, fun now => ?_⟩
    refine Action.Obeys.bind (Action.Obeys.result ?_) fun past outcome => ?_
    · split
      · exact obeys_own_onBreach _ _ _ _
      · exact obeys_own_onClear _ _ _ _ _
    · refine (obeys_own_stamp _ _ _).bind fun past _ => ?_
      cases outcome <;> trivial
  refine hrule.result.bind ?_
  rintro past (_ | _) <;> trivial

end Bulletin
