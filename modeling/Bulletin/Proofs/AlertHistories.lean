import Bulletin.Proofs.AlertOpenings
import Mathlib.Data.List.Induction

/-!
# Alerts over time

Ticks of evaluators, and alerts that are acknowledged or resolved by hand, one call after the other
over a repository in memory. Nobody else writes there.

Every tick opens the alerts that are due, and calls by hand open none. Over the whole of a history
every channel is told once of every alert of its rule, and of nothing else. As long as a rule is
breached in every tick and nobody sees to it by hand, its first alert stands as it was opened, and
there is no other.

* `performs_change` — what is done by hand
* `AlertHistory.duly`, `AlertHistory.deliveries` — what a history opens and tells
* `alerts_of_history`
-/

namespace Bulletin

/-! ## Deeds -/

/-- A call that has come to its end. -/
inductive Deed where
  /-- the evaluations of a tick have taken their turns, and all are over -/
  | tick (evaluator : Evaluator) (turns : List Turn) (round : Round)
  /-- somebody has acknowledged or resolved an alert -/
  | byHand (events : List Event) (after : MemoryRepository)

namespace Deed

/-- All that was asked and answered, in order. -/
def events : Deed → List Event
  | .tick _ turns _ => turns.map Turn.event
  | .byHand events _ => events

/-- The repository afterwards. -/
def after : Deed → MemoryRepository
  | .tick _ _ round => round.repository
  | .byHand _ after => after

/-- The alerts that were opened, each with its rule. -/
def opened : Deed → List (AlertRule × Alert)
  | .tick _ _ round => round.opened
  | .byHand _ _ => []

/-- The metric of a rule was read. -/
def Reads (deed : Deed) (rule : AlertRule) (value : Binary64) (now : Instant) : Prop :=
  match deed with
  | .tick evaluator _ round => round.Reads evaluator rule value now
  | .byHand _ _ => False

/-- A breach of a rule was read. -/
def Breaches (deed : Deed) (id : RuleId) : Prop :=
  ∃ rule value now, rule.id = id ∧ deed.Reads rule value now ∧ rule.breached value = true

/-- What was opened is what was due. -/
structure Duly (r : MemoryRepository) (deed : Deed) : Prop where
  /-- it is all that is new -/
  new : ∀ alert, (∃ rule, (rule, alert) ∈ deed.opened) ↔
    alert ∈ deed.after.alerts.entities ∧ r.Free alert.id.uuid
  /-- it was due: a breach of an enabled rule was read while the rule had no active alert -/
  due : ∀ rule, (∃ alert, (rule, alert) ∈ deed.opened) ↔
    rule ∈ r.enabledRules ∧ ∃ value now, deed.Reads rule value now ∧
      rule.breached value = true ∧ ¬ r.hasActive rule.id = true
  /-- it tells of the breach -/
  told : ∀ rule alert, (rule, alert) ∈ deed.opened →
    ∃ value now, deed.Reads rule value now ∧ alert = .triggered alert.id rule value now
  once : (deed.opened.map Prod.fst).Nodup
  /-- every channel of the rule hears of it once, and nobody hears of anything else -/
  delivered : (deed.events.filterMap Event.delivery?).Perm
    (deed.opened.flatMap fun o => o.1.deliveries o.2)

end Deed

/-- A deed that may be done in a repository. -/
inductive Deed.Happens (r : MemoryRepository) : Deed → Prop
  | tick {evaluator : Evaluator} {drawn : List Uuid} {turns : List Turn} {t : Round}
    (hrun : (Round.tick evaluator r drawn).Run turns t) (hover : t.Over) :
    Happens r (.tick evaluator turns t)
  | acknowledge {id : AlertId} {person : Option String} {events : List Event}
    {ending : Ending AlertError Alert} {after : MemoryRepository}
    (h : (Evaluator.acknowledge id person).Performs r events ending after) :
    Happens r (.byHand events after)
  | resolve {id : AlertId} {reason : String} {events : List Event}
    {ending : Ending AlertError Alert} {after : MemoryRepository}
    (h : (Evaluator.resolve id reason).Performs r events ending after) :
    Happens r (.byHand events after)

/-! ## By hand -/

/-- A step by hand opens nothing and tells nobody, and takes no identifier. -/
theorem performs_change {id : AlertId} {step : Alert → Instant → Except DomainError Alert}
    (hstep : ∀ alert now alert', step alert now = .ok alert' → alert'.id = alert.id)
    {r r' : MemoryRepository} {events : List Event} {ending : Ending AlertError Alert}
    (h : (Evaluator.change id step).Performs r events ending r') :
    (∀ event ∈ events, event.Quiet) ∧ ∀ name, r'.Free name ↔ r.Free name := by
  obtain ⟨rest, rfl, hrest⟩ := Action.performs_call_bind h (a := r.alerts.get? id) (m := r) rfl
  cases hget : r.alerts.get? id with
  | none =>
    rw [hget] at hrest
    obtain ⟨rfl, -, rfl⟩ := Action.performs_stop.mp hrest
    exact ⟨List.forall_mem_singleton.mpr ⟨rfl, rfl⟩, fun _ => Iff.rfl⟩
  | some alert =>
    rw [hget] at hrest
    obtain ⟨now, others, rfl, -, hothers⟩ := Action.performs_request_bind hrest fun _ => nofun
    cases hnext : step alert now with
    | error e =>
      rw [hnext] at hothers
      obtain ⟨rfl, -, rfl⟩ := Action.performs_stop.mp hothers
      exact ⟨List.forall_mem_cons.mpr ⟨⟨rfl, rfl⟩, List.forall_mem_singleton.mpr ⟨rfl, rfl⟩⟩,
        fun _ => Iff.rfl⟩
    | ok alert' =>
      rw [hnext] at hothers
      obtain ⟨last, rfl, hlast⟩ := Action.performs_call_bind hothers (r.answer_save .alert alert')
      obtain ⟨rfl, -, rfl⟩ := Action.performs_pure.mp hlast
      refine ⟨by simp [Event.Quiet, Event.opened?, Event.delivery?], fun name => ?_⟩
      obtain ⟨hstored, rfl⟩ := Table.get?_eq_some_iff.mp hget
      have hid : alert'.id = alert.id := hstep alert now alert' hnext
      refine MemoryRepository.free_save.trans (and_iff_left_of_imp fun hfree he => ?_)
      exact r.not_free_of_mem hstored (hid ▸ he ▸ hfree)

namespace Deed

variable {deed : Deed} {r : MemoryRepository} {id : RuleId} {name : Uuid}

/-- A deed by hand is quiet. -/
theorem happens_byHand {events : List Event} {after : MemoryRepository}
    (h : (byHand events after).Happens r) :
    (∀ event ∈ events, event.Quiet) ∧ ∀ name, after.Free name ↔ r.Free name := by
  cases h with
  | acknowledge h =>
    refine performs_change (fun alert now alert' hstep => ?_) h
    unfold Alert.acknowledge at hstep
    split at hstep <;> cases hstep
    rfl
  | resolve h =>
    refine performs_change (fun alert now alert' hstep => ?_) h
    unfold Alert.resolve at hstep
    split at hstep <;> cases hstep
    rfl

/-- No identifier gets free. -/
theorem Happens.free (h : deed.Happens r) (hfree : deed.after.Free name) : r.Free name := by
  cases h with
  | tick hrun => exact hrun.free hfree
  | acknowledge h => exact ((happens_byHand (.acknowledge h)).2 name).mp hfree
  | resolve h => exact ((happens_byHand (.resolve h)).2 name).mp hfree

/-- Every deed opens and tells what is due. -/
theorem Happens.duly (h : deed.Happens r) : deed.Duly r := by
  cases deed with
  | tick evaluator turns t =>
    cases h with
    | tick hrun hover =>
      have hrules := r.nodup_enabledRules
      refine ⟨fun alert => ⟨?_, ?_⟩, fun rule => ⟨?_, ?_⟩, fun rule alert hopened => ?_,
        hrun.nodup_opened hrules hover, hrun.deliveries hrules hover⟩
      · rintro ⟨rule, hopened⟩
        exact ((hrun.mem_opened hrules hover).mp hopened).2.2
      · rintro ⟨hstored, hfree⟩
        exact hrun.exists_of_new hrules hover hstored hfree
      · rintro ⟨alert, hopened⟩
        have hrule := ((hrun.mem_opened hrules hover).mp hopened).1
        exact ⟨hrule, (hrun.opened_iff hrules hover hrule).mp ⟨alert, hopened⟩⟩
      · rintro ⟨hrule, hdue⟩
        exact (hrun.opened_iff hrules hover hrule).mpr hdue
      · exact hrun.triggered_of_opened hrules hover hopened
  | byHand events after =>
    obtain ⟨hquiet, hfree⟩ := happens_byHand h
    have hno : ∀ o, o ∉ (byHand events after).opened := fun o ho => nomatch ho
    refine ⟨fun alert => ⟨fun ⟨rule, ho⟩ => absurd ho (hno _), fun ⟨hstored, hnew⟩ => ?_⟩,
      fun rule => ⟨fun ⟨alert, ho⟩ => absurd ho (hno _), fun ⟨_, _, _, hreads, _⟩ => hreads.elim⟩,
      fun rule alert ho => absurd ho (hno _), .nil, ?_⟩
    · exact absurd ((hfree _).mpr hnew) (after.not_free_of_mem hstored)
    · exact (filterMap_quiet hquiet).2 ▸ .refl _

/-- The alerts that were opened for a rule. -/
def openedFor (id : RuleId) (deed : Deed) : List (AlertRule × Alert) :=
  deed.opened.filter fun o => o.1.id = id

/-- Alerts are opened for enabled rules, and these have identifiers of their own. -/
theorem Duly.eq_of_id (h : deed.Duly r) {o o' : AlertRule × Alert} (ho : o ∈ deed.opened)
    (ho' : o' ∈ deed.opened) (hid : o'.1.id = o.1.id) : o' = o := by
  have hrule : o'.1 = o.1 := List.inj_on_of_nodup_map r.nodup_enabledRules
    ((h.due o'.1).mp ⟨o'.2, ho'⟩).1 ((h.due o.1).mp ⟨o.2, ho⟩).1 hid
  exact List.inj_on_of_nodup_map h.once ho' ho hrule

theorem Duly.openedFor_eq (h : deed.Duly r) {rule : AlertRule} {alert : Alert}
    (hopened : (rule, alert) ∈ deed.opened) : deed.openedFor rule.id = [(rule, alert)] := by
  have hdistinct : (deed.openedFor rule.id).Nodup := h.once.of_map.filter _
  refine List.perm_singleton.mp
    ((List.perm_ext_iff_of_nodup hdistinct (List.nodup_singleton _)).mpr fun o => ?_)
  rw [openedFor, List.mem_filter, List.mem_singleton, decide_eq_true_iff]
  constructor
  · rintro ⟨ho, hid⟩
    exact h.eq_of_id hopened ho hid
  · rintro rfl
    exact ⟨hopened, rfl⟩

theorem Duly.openedFor_eq_nil (h : deed.Duly r) (hactive : r.hasActive id = true) :
    deed.openedFor id = [] := by
  refine List.filter_eq_nil_iff.mpr fun o ho hid => ?_
  obtain ⟨-, value, now, -, -, hnone⟩ := (h.due o.1).mp ⟨o.2, ho⟩
  exact hnone (of_decide_eq_true hid ▸ hactive)

/-- No two alerts are opened under one identifier. -/
theorem Duly.nodup_ids (h : deed.Duly r) : (deed.opened.map fun o => o.2.id).Nodup := by
  have hstored : ∀ o ∈ deed.opened, o.2 ∈ deed.after.alerts.entities ∧ o.2.ruleId = o.1.id := by
    intro o ho
    obtain ⟨value, now, -, htold⟩ := h.told o.1 o.2 ho
    exact ⟨((h.new o.2).mp ⟨o.1, ho⟩).1, congrArg Alert.ruleId htold⟩
  refine List.Nodup.map_on (fun o ho o' ho' hid => ?_) h.once.of_map
  obtain ⟨hmem, howner⟩ := hstored o ho
  obtain ⟨hmem', howner'⟩ := hstored o' ho'
  have hsame : o.2 = o'.2 := List.inj_on_of_nodup_map deed.after.alerts.distinct hmem hmem' hid
  exact h.eq_of_id ho' ho (howner.symm.trans ((congrArg Alert.ruleId hsame).trans howner'))

end Deed

/-! ## Breaches in a row -/

namespace MemoryRepository

variable {r : MemoryRepository} {id : RuleId} {alert : Alert}

/-- The only active alert of a rule. -/
def OnlyActive (r : MemoryRepository) (id : RuleId) (alert : Alert) : Prop :=
  ∀ a : Alert, a ∈ r.alerts.entities ∧ a.ruleId = id ∧ a.status = .active ↔ a = alert

theorem hasActive_iff : r.hasActive id = true ↔
    ∃ a ∈ r.alerts.entities, a.ruleId = id ∧ a.status = .active := by
  unfold hasActive
  rw [List.any_eq_true]
  exact exists_congr fun a => and_congr_right fun _ => Repository.Alert.blocks_eq_true_iff

theorem OnlyActive.hasActive (h : r.OnlyActive id alert) : r.hasActive id = true :=
  hasActive_iff.mpr ⟨alert, (h alert).mpr rfl⟩

end MemoryRepository

namespace Deed

variable {deed : Deed} {r : MemoryRepository} {id : RuleId} {alert : Alert}

/-- A breach without an active alert opens the only one. -/
theorem Happens.first_breach (h : deed.Happens r) (hb : deed.Breaches id)
    (hnone : ¬ r.hasActive id = true) :
    ∃ rule value now alert, rule ∈ r.enabledRules ∧ rule.id = id ∧ deed.Reads rule value now ∧
      alert = .triggered alert.id rule value now ∧ deed.openedFor id = [(rule, alert)] ∧
      deed.after.OnlyActive id alert := by
  have hduly := h.duly
  obtain ⟨rule, value, now, rfl, hreads, hbreached⟩ := hb
  cases h with
  | @tick evaluator _ turns t hrun hover =>
    rcases hrun.breach r.nodup_enabledRules hover hreads hbreached with
      ⟨hactive, -⟩ | ⟨-, alert, hopened, hnew, halerts⟩
    · exact absurd hactive hnone
    · refine ⟨rule, value, now, alert, ((hduly.due rule).mp ⟨alert, hopened⟩).1, rfl, hreads, hnew,
        hduly.openedFor_eq hopened, fun a => ⟨?_, ?_⟩⟩
      · rintro ⟨hstored, howner, hstatus⟩
        refine ((halerts a howner).mp hstored).resolve_right fun hold => hnone ?_
        exact MemoryRepository.hasActive_iff.mpr ⟨a, hold, howner, hstatus⟩
      · rintro rfl
        have howner : a.ruleId = rule.id := congrArg Alert.ruleId hnew
        exact ⟨(halerts a howner).mpr (.inl rfl), howner, congrArg Alert.status hnew⟩
  | acknowledge => exact hreads.elim
  | resolve => exact hreads.elim

/-- A breach while an alert is active leaves it as it is, and opens none. -/
theorem Happens.next_breach (h : deed.Happens r) (hb : deed.Breaches id)
    (hactive : r.OnlyActive id alert) :
    deed.openedFor id = [] ∧ deed.after.OnlyActive id alert := by
  refine ⟨h.duly.openedFor_eq_nil hactive.hasActive, ?_⟩
  obtain ⟨rule, value, now, rfl, hreads, hbreached⟩ := hb
  cases h with
  | tick hrun hover =>
    rcases hrun.breach r.nodup_enabledRules hover hreads hbreached with
      ⟨-, halerts⟩ | ⟨hnone, -⟩
    · refine fun a => Iff.trans ?_ (hactive a)
      rw [and_comm, and_comm (a := a ∈ r.alerts.entities)]
      exact and_congr_right fun ha => halerts a ha.1
    · exact absurd hactive.hasActive hnone
  | acknowledge => exact hreads.elim
  | resolve => exact hreads.elim

end Deed

/-! ## Histories -/

/-- One deed after the other, from a repository to another. -/
inductive AlertHistory (r₀ : MemoryRepository) : List Deed → MemoryRepository → Prop
  | start : AlertHistory r₀ [] r₀
  | add {past : List Deed} {r : MemoryRepository} {deed : Deed} (h : AlertHistory r₀ past r)
      (hdeed : deed.Happens r) : AlertHistory r₀ (past ++ [deed]) deed.after

namespace AlertHistory

variable {r₀ m r : MemoryRepository} {past first last deeds : List Deed} {deed : Deed}
  {id : RuleId} {alert : Alert}

theorem append (h : AlertHistory r₀ first m) (h' : AlertHistory m last r) :
    AlertHistory r₀ (first ++ last) r := by
  induction h' with
  | start => rwa [List.append_nil]
  | add _ hdeed ih =>
    rw [← List.append_assoc]
    exact ih.add hdeed

theorem eq_of_nil (h : AlertHistory r₀ [] r) : r = r₀ := by
  generalize hdeeds : [] = deeds at h
  cases h with
  | start => rfl
  | add => exact absurd hdeeds.symm (List.append_ne_nil_of_right_ne_nil _ (List.cons_ne_nil _ _))

theorem of_snoc (h : AlertHistory r₀ (past ++ [deed]) r) :
    ∃ m, AlertHistory r₀ past m ∧ deed.Happens m ∧ r = deed.after := by
  generalize hdeeds : past ++ [deed] = deeds at h
  cases h with
  | start => exact absurd hdeeds (List.append_ne_nil_of_right_ne_nil _ (List.cons_ne_nil _ _))
  | add h hdeed =>
    obtain ⟨rfl, hlast⟩ := List.append_inj' hdeeds rfl
    cases hlast
    exact ⟨_, h, hdeed, rfl⟩

/-- A history may be broken off and taken up again. -/
theorem split (h : AlertHistory r₀ (first ++ last) r) :
    ∃ m, AlertHistory r₀ first m ∧ AlertHistory m last r := by
  induction last using List.reverseRecOn generalizing r with
  | nil =>
    rw [List.append_nil] at h
    exact ⟨r, h, .start⟩
  | append_singleton last deed ih =>
    rw [← List.append_assoc] at h
    obtain ⟨n, hpast, hdeed, rfl⟩ := h.of_snoc
    obtain ⟨m, hfirst, hlast⟩ := ih hpast
    exact ⟨m, hfirst, hlast.add hdeed⟩

theorem of_cons (h : AlertHistory r₀ (deed :: last) r) :
    deed.Happens r₀ ∧ AlertHistory deed.after last r := by
  have hsplit : AlertHistory r₀ ([] ++ [deed] ++ last) r := h
  obtain ⟨m, hfirst, hlast⟩ := hsplit.split
  obtain ⟨n, hstart, hdeed, rfl⟩ := hfirst.of_snoc
  obtain rfl := hstart.eq_of_nil
  exact ⟨hdeed, hlast⟩

/-- Over a history every channel is told of every alert once, and of nothing else. -/
theorem deliveries (h : AlertHistory r₀ deeds r) :
    ((deeds.flatMap Deed.events).filterMap Event.delivery?).Perm
      ((deeds.flatMap Deed.opened).flatMap fun o => o.1.deliveries o.2) := by
  induction h with
  | start => exact .nil
  | add _ hdeed ih =>
    rw [List.flatMap_append, List.flatMap_singleton, List.filterMap_append, List.flatMap_append,
      List.flatMap_singleton, List.flatMap_append]
    exact ih.append hdeed.duly.delivered

/-- No two alerts of a history were opened under one identifier. -/
theorem nodup_ids (h : AlertHistory r₀ deeds r) :
    ((deeds.flatMap Deed.opened).map fun o => o.2.id).Nodup ∧
      ∀ o ∈ deeds.flatMap Deed.opened, ¬ r.Free o.2.id.uuid := by
  induction h with
  | start => exact ⟨.nil, fun _ ho => absurd ho List.not_mem_nil⟩
  | @add past r deed _ hdeed ih =>
    obtain ⟨hdistinct, htaken⟩ := ih
    have hduly := hdeed.duly
    have hnew : ∀ o ∈ deed.opened, o.2 ∈ deed.after.alerts.entities ∧ r.Free o.2.id.uuid :=
      fun o ho => (hduly.new o.2).mp ⟨o.1, ho⟩
    rw [List.flatMap_append, List.flatMap_singleton, List.map_append]
    refine ⟨List.nodup_append.mpr ⟨hdistinct, hduly.nodup_ids, ?_⟩, fun o ho => ?_⟩
    · -- what was opened before has its identifier, and what is new had a free one
      intro name hname name' hname' hsame
      obtain ⟨o, ho, rfl⟩ := List.mem_map.mp hname
      obtain ⟨o', ho', rfl⟩ := List.mem_map.mp hname'
      exact htaken o ho (hsame ▸ (hnew o' ho').2)
    · rcases List.mem_append.mp ho with ho | ho
      · exact fun hfree => htaken o ho (hdeed.free hfree)
      · exact deed.after.not_free_of_mem (hnew o ho).1

/-- Breaches in a row leave the only active alert as it is, and open none. -/
theorem next_breaches (h : AlertHistory m deeds r) (hb : ∀ deed ∈ deeds, deed.Breaches id)
    (hactive : m.OnlyActive id alert) :
    deeds.flatMap (Deed.openedFor id) = [] ∧ r.OnlyActive id alert := by
  induction h with
  | start => exact ⟨rfl, hactive⟩
  | add _ hdeed ih =>
    obtain ⟨hbefore, hlast⟩ := List.forall_mem_append.mp hb
    obtain ⟨hopened, hstands⟩ := ih hbefore
    obtain ⟨hnone, hkept⟩ := hdeed.next_breach (hlast _ (List.mem_singleton_self _)) hstands
    rw [List.flatMap_append, List.flatMap_singleton, hopened, hnone]
    exact ⟨rfl, hkept⟩

end AlertHistory

/-- The rule that is breached by any load, stamped. -/
def stampedLoad : AlertRule := { anyLoad with lastEvaluatedAt := some default }

/-- The repository of this rule after its first breach. -/
def breachedRepository : MemoryRepository :=
  (loadRepository.put .alert (.triggered ⟨.ofNat 0⟩ anyLoad (.finite .zero) default)).put .rule
    stampedLoad

/-- A tick of a single rule that reads a load of zero. -/
theorem Deed.exists_of_one {rule : AlertRule} {r r' : MemoryRepository} {drawn drawn' : List Uuid}
    {asked rest : List Event} (hone : r.enabledRules = [rule])
    (hadmits : alertSetting.Admits noLoad (ruleAction loadEvaluator rule) ⟨.memory r, drawn⟩)
    (hafter : ((ruleAction loadEvaluator rule).run noLoad ⟨.memory r, drawn⟩).2
      = ⟨.memory r', drawn'⟩)
    (htrace : (ruleAction loadEvaluator rule).trace noLoad ⟨.memory r, drawn⟩
      = asked ++ ⟨.now, default⟩ :: rest)
    (hreading : (loadEvaluator.metric rule).Yields asked (.value (.finite .zero)))
    (hb : rule.breached (.finite .zero) = true) :
    ∃ deed : Deed, deed.Happens r ∧ deed.Breaches rule.id ∧ deed.after = r' := by
  obtain ⟨turns, hrun⟩ := Round.exists_tick_of_one hone hadmits hafter
  refine ⟨_, .tick hrun (List.forall_mem_singleton.mpr ⟨_, rfl⟩), ?_, rfl⟩
  refine ⟨rule, .finite .zero, default, rfl, ⟨_, List.mem_singleton_self _, rfl, asked, rest, ?_,
    hreading⟩, hb⟩
  exact (List.reverse_reverse _).trans htrace

/--
**Alerts over time.** Ticks, acknowledgements and resolutions follow one another in any way.

* Every deed opens what is due: for a rule that is enabled an alert is opened if and only if its
  metric is read, breaches it, and the rule has no active alert. It is one alert, and it tells of
  this reading. Each channel of the rule is told of it once in the course of the deed, and nobody is
  told of anything else, whatever becomes of the deliveries.
* So it is over the whole history, and no two alerts were opened under one identifier.
* If some ticks in a row all read a breach of a rule that had no active alert before, they open one
  alert for it, the first of them does, and after each of them this alert is the only active one of
  the rule, and is as it was opened.
-/
theorem alerts_of_history {r₀ r : MemoryRepository} {deeds : List Deed}
    (h : AlertHistory r₀ deeds r) :
    (∀ first deed last, deeds = first ++ deed :: last →
      ∃ m, AlertHistory r₀ first m ∧ deed.Duly m ∧ AlertHistory deed.after last r) ∧
    ((deeds.flatMap Deed.events).filterMap Event.delivery?).Perm
      ((deeds.flatMap Deed.opened).flatMap fun o => o.1.deliveries o.2) ∧
    ((deeds.flatMap Deed.opened).map fun o => o.2.id).Nodup ∧
    ∀ first tick series last id, deeds = first ++ (tick :: series ++ last) →
      (∀ deed ∈ tick :: series, deed.Breaches id) →
      ∃ m, AlertHistory r₀ first m ∧ (¬ m.hasActive id = true →
        ∃ rule value now alert, rule ∈ m.enabledRules ∧ rule.id = id ∧
          tick.Reads rule value now ∧ alert = .triggered alert.id rule value now ∧
          ((tick :: series).flatMap Deed.opened).filter (fun o => o.1.id = id)
            = [(rule, alert)] ∧
          ∀ start rest, series = start ++ rest →
            ∃ m', AlertHistory m (tick :: start) m' ∧ AlertHistory m' (rest ++ last) r ∧
              m'.OnlyActive id alert) := by
  refine ⟨?_, h.deliveries, h.nodup_ids.1, ?_⟩
  · rintro first deed last rfl
    obtain ⟨m, hfirst, hrest⟩ := h.split
    obtain ⟨hdeed, hlast⟩ := hrest.of_cons
    exact ⟨m, hfirst, hdeed.duly, hlast⟩
  · rintro first tick series last id rfl hb
    obtain ⟨m, hfirst, hrest⟩ := h.split
    refine ⟨m, hfirst, fun hnone => ?_⟩
    obtain ⟨htick, hrest⟩ := hrest.of_cons
    obtain ⟨hbreach, hseries⟩ := List.forall_mem_cons.mp hb
    obtain ⟨rule, value, now, alert, hrule, hid, hreads, hnew, hopened, honly⟩ :=
      htick.first_breach hbreach hnone
    refine ⟨rule, value, now, alert, hrule, hid, hreads, hnew, ?_, ?_⟩
    · obtain ⟨n, hall, -⟩ := hrest.split
      have hothers := (hall.next_breaches hseries honly).1
      rw [List.filter_flatMap, List.flatMap_cons]
      exact congrArg₂ (· ++ ·) hopened hothers
    · rintro start rest rfl
      change AlertHistory _ (start ++ rest ++ last) r at hrest
      rw [List.append_assoc] at hrest
      obtain ⟨m', hstart, hlast⟩ := hrest.split
      refine ⟨m', AlertHistory.append (.add .start htick) hstart, hlast, ?_⟩
      exact (hstart.next_breaches (List.forall_mem_append.mp hseries).1 honly).2

/-- Two ticks that both read a breach open one alert. -/
theorem alerts_of_two_breaches : ∃ deeds r alert, deeds.length = 2 ∧
    AlertHistory loadRepository deeds r ∧ (∀ deed ∈ deeds, deed.Breaches anyLoad.id) ∧
    (deeds.flatMap Deed.opened).filter (fun o => o.1.id = anyLoad.id) = [(anyLoad, alert)] ∧
    r.OnlyActive anyLoad.id alert := by
  have hrules : loadRepository.enabledRules = [anyLoad] :=
    MemoryRepository.enabledRules_of_one rfl rfl
  have hrules' : breachedRepository.enabledRules = [stampedLoad] :=
    MemoryRepository.enabledRules_of_one rfl rfl
  have hfree : ¬ (Repository.memory loadRepository).Occupied ⟨.ofNat 0⟩ := by
    rintro ⟨_, ha, -⟩
    cases ha
  have hfree' : ¬ (Repository.memory breachedRepository).Occupied ⟨.ofNat 1⟩ := by
    rintro ⟨_, ha, hid⟩
    obtain rfl := List.mem_singleton.mp ha
    exact absurd hid (by decide)
  have hadmits : alertSetting.Admits noLoad (ruleAction loadEvaluator anyLoad)
      ⟨.memory loadRepository, []⟩ :=
    ⟨rfl, rfl, rfl, rfl, ⟨List.not_mem_nil, hfree, rfl⟩, rfl, ⟨rfl, rfl⟩, rfl, ⟨rfl, rfl⟩, rfl,
      ⟨rfl, rfl⟩, rfl, trivial⟩
  have hadmits' : alertSetting.Admits noLoad (ruleAction loadEvaluator stampedLoad)
      ⟨.memory breachedRepository, [.ofNat 0]⟩ :=
    ⟨rfl, rfl, rfl, rfl, ⟨by decide, hfree', rfl⟩, rfl, ⟨rfl, rfl⟩, rfl, ⟨rfl, rfl⟩, rfl,
      ⟨rfl, rfl⟩, rfl, trivial⟩
  let asked : List Event :=
    [⟨.dataset "load", .value (some [.single "load" (.number (.real .zero))])⟩]
  have hafter : ((ruleAction loadEvaluator anyLoad).run noLoad ⟨.memory loadRepository, []⟩).2
      = ⟨.memory breachedRepository, [.ofNat 0]⟩ := rfl
  have hreading : (loadEvaluator.metric anyLoad).Yields asked (.value (.finite .zero)) := .ask .stop
  have hreading' : (loadEvaluator.metric stampedLoad).Yields asked (.value (.finite .zero)) :=
    .ask .stop
  obtain ⟨first, hfirst, hb, hsame⟩ :=
    Deed.exists_of_one hrules hadmits hafter rfl hreading rfl
  obtain ⟨second, hsecond, hb', -⟩ :=
    Deed.exists_of_one hrules' hadmits' rfl rfl hreading' rfl
  have hhistory : AlertHistory loadRepository [first, second] second.after :=
    (AlertHistory.start.add hfirst).add (hsame ▸ hsecond)
  have hall : ∀ deed ∈ [first, second], deed.Breaches anyLoad.id :=
    List.forall_mem_cons.mpr ⟨hb, List.forall_mem_singleton.mpr hb'⟩
  obtain ⟨-, -, -, hseries⟩ := alerts_of_history hhistory
  obtain ⟨m, hstart, hone⟩ := hseries [] first [second] [] anyLoad.id rfl hall
  obtain rfl := hstart.eq_of_nil
  obtain ⟨rule, value, now, alert, hrule, -, -, -, hopened, honly⟩ := hone nofun
  obtain ⟨m', -, hend, halert⟩ := honly [second] [] rfl
  obtain rfl := hend.eq_of_nil
  rw [hrules, List.mem_singleton] at hrule
  exact ⟨_, _, alert, rfl, hhistory, hall, hrule ▸ hopened, halert⟩

end Bulletin
