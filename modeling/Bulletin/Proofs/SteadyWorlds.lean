import Bulletin.Proofs.AlertRoom
import Bulletin.Proofs.Renamings
import Bulletin.Proofs.RuleEvaluations

/-!
# Steady worlds

In a steady world time stands still, a connector answers a request alike at all times, and so does
a channel. Then two evaluations of a rule over repositories with the same part of it differ in the
names that they were given, and in nothing else.

* `yields_unique` — a metric has one reading in a steady world
* `Ways.alike` — two evaluations of a rule
-/

namespace Bulletin

/-- What a steady world answers. -/
structure SteadyWorld where
  now : Instant
  /-- the answers of the connectors -/
  reply : (request : Request) → request.Answer
  deliver : Channel → Except DeliveryError Unit

namespace SteadyWorld

/-- An event may occur in the world. -/
def Gives (w : SteadyWorld) : Event → Prop
  | ⟨.now, now⟩ => now = w.now
  | ⟨.relational connection sql, reply⟩ => reply = w.reply (.relational connection sql)
  | ⟨.dataset id, reply⟩ => reply = w.reply (.dataset id)
  | ⟨.api request, reply⟩ => reply = w.reply (.api request)
  | ⟨.notify channel _, result⟩ => result = w.deliver channel
  | _ => True

/-- No connector breaks down. -/
def Calm (w : SteadyWorld) : Prop := ∀ request, ¬ Event.Crashes ⟨request, w.reply request⟩

/-- A world in which all sources have the same row is steady. -/
def still (row : Record) (now : Instant) : SteadyWorld where
  now := now
  reply request := (AlertRoom.still row now request ⟨.memory .empty, []⟩).1
  deliver _ := .ok ()

theorem calm_still (row : Record) (now : Instant) : (still row now).Calm := by
  intro request
  cases request <;> exact id

variable {w : SteadyWorld}

theorem Calm.not_crashes (hw : w.Calm) {event : Event} (h : w.Gives event) : ¬ event.Crashes := by
  intro hcrash
  obtain ⟨request, answer⟩ := event
  cases request with
  | relational connection sql => exact hw (.relational connection sql) (h ▸ hcrash)
  | dataset id => exact hw (.dataset id) (h ▸ hcrash)
  | api request => exact hw (.api request) (h ▸ hcrash)
  | call | now | freshId | putArtifact | notify | launch => exact hcrash

/-- Questions to connectors lead to one end. -/
theorem yields_unique {ε α : Type} {action : Action ε α} (hasks : action.AsksOnly Request.IsQuery)
    {events events' : List Event} {ending ending' : Ending ε α}
    (h : action.Yields events ending) (hgives : ∀ event ∈ events, w.Gives event)
    (h' : action.Yields events' ending') (hgives' : ∀ event ∈ events', w.Gives event) :
    ending' = ending := by
  induction h generalizing events' with
  | stop =>
    cases h'
    rfl
  | @ask request next answer events ending hnext ih =>
    obtain ⟨hquery, hasks⟩ := hasks
    obtain ⟨hanswer, hgives⟩ := List.forall_mem_cons.mp hgives
    cases h' with
    | @ask _ _ answer' events' _ hnext' =>
      obtain ⟨hanswer', hgives'⟩ := List.forall_mem_cons.mp hgives'
      have hsame : answer' = answer := by
        cases request with
        | relational | dataset | api => exact Eq.trans hanswer' (Eq.symm hanswer)
        | call | now | freshId | putArtifact | notify | launch => exact hquery.elim
      exact ih (hasks answer) hgives (hsame ▸ hnext') hgives'

/-- Channels are delivered to alike. -/
theorem eq_deliver {rule : AlertRule} {alert : Alert} {results : List (Except DeliveryError Unit)}
    (hlength : results.length = rule.channels.length)
    (hgives : ∀ event ∈ rule.tellings alert results, w.Gives event) :
    results = rule.channels.map w.deliver := by
  unfold AlertRule.tellings at hgives
  generalize rule.channels = channels at hlength hgives
  induction channels generalizing results with
  | nil => exact List.eq_nil_of_length_eq_zero hlength
  | cons channel rest ih =>
    obtain ⟨result, others, rfl⟩ := List.exists_cons_of_length_eq_add_one hlength
    obtain ⟨hresult, hothers⟩ := List.forall_mem_cons.mp hgives
    rw [List.map_cons, ← ih (Nat.succ.inj hlength) hothers]
    exact congrArg (· :: others) hresult

end SteadyWorld

/-! ## The same evaluation twice -/

/-- The name of the alert that was opened. -/
def RuleOutcome.opened? : RuleOutcome → Option Uuid
  | .triggered _ _ alert _ => some alert.uuid
  | _ => none

namespace MemoryRepository

variable {rule : RuleId} {r q : MemoryRepository} {π : Equiv.Perm Uuid}

theorem AgreeOn.hasActive (h : AgreeOn rule r q) : q.hasActive rule = r.hasActive rule :=
  h.any_blocks

theorem AgreeOn.openAlerts (h : AgreeOn rule r q) : q.openAlerts rule = r.openAlerts rule := by
  unfold MemoryRepository.openAlerts
  rw [h.listing]

theorem PartUpTo.stamped (h : PartUpTo π rule r q) (now : Instant) :
    PartUpTo π rule (r.stamped rule now) (q.stamped rule now) := by
  unfold MemoryRepository.stamped
  rw [h.record]
  cases r.rules.get? rule with
  | none => exact h
  | some entity => exact h.save_rule _

theorem PartUpTo.ended {now : Instant} {alerts : List Alert} (h : PartUpTo π rule r q)
    (hkept : ∀ alert ∈ alerts, π alert.id.uuid = alert.id.uuid) :
    PartUpTo π rule (r.ended now alerts) (q.ended now alerts) := by
  induction alerts generalizing r q with
  | nil => exact h
  | cons alert rest ih =>
    obtain ⟨halert, hrest⟩ := List.forall_mem_cons.mp hkept
    have hput := h.put (alert.ended now)
    have hself : (alert.ended now).renamed π = alert.ended now := Alert.renamed_eq_self halert
    rw [hself] at hput
    exact ih hput hrest

end MemoryRepository

namespace Evaluator

variable {evaluator : Evaluator} {rule : AlertRule} {r q own own' : MemoryRepository}
  {value : Binary64} {now : Instant} {π : Equiv.Perm Uuid}

/-- Two verdicts on a value differ in the name of the alert that they open. -/
theorem verdict_alike (fresh fresh' : Uuid) (results : List (Except DeliveryError Unit))
    (hagree : MemoryRepository.AgreeOn rule.id r q)
    (hkept : ∀ alert ∈ r.alerts.entities, alert.ruleId = rule.id →
      π alert.id.uuid = alert.id.uuid)
    (hopened : (evaluator.verdict rule r value now fresh results).outcome.opened?.map π
      = (evaluator.verdict rule q value now fresh' results).outcome.opened?) :
    (evaluator.verdict rule q value now fresh' results).outcome
        = (evaluator.verdict rule r value now fresh results).outcome.renamed π ∧
      MemoryRepository.PartUpTo π rule.id (evaluator.verdict rule r value now fresh results).after
        (evaluator.verdict rule q value now fresh' results).after := by
  have hpart := hagree.partUpTo hkept
  have hopen : ∀ alert ∈ r.openAlerts rule.id, π alert.id.uuid = alert.id.uuid := by
    intro alert ha
    obtain ⟨hmem, hscope⟩ := EntityKind.mem_listing.mp (List.mem_filter.mp ha).1
    exact hkept alert hmem (by simpa [EntityKind.inScope] using hscope)
  unfold verdict at hopened ⊢
  rw [hagree.hasActive, hagree.listing, hagree.openAlerts] at hopened ⊢
  split
  · next hb =>
    split
    · exact ⟨rfl, hpart⟩
    · next hactive =>
      simp only [if_pos hb, if_neg hactive, RuleOutcome.opened?, Option.map_some] at hopened
      have hname : π fresh = fresh' := Option.some.inj hopened
      have hput := hpart.put (.triggered ⟨fresh⟩ rule value now)
      have hrenamed : (Alert.triggered ⟨fresh⟩ rule value now).renamed π
          = .triggered ⟨fresh'⟩ rule value now := by
        rw [← hname]
        rfl
      rw [hrenamed] at hput
      refine ⟨?_, hput⟩
      rw [← hname]
      rfl
  · split
    · refine ⟨?_, hpart.ended hopen⟩
      simp only [RuleOutcome.renamed, List.map_map]
      congr 1
      refine List.map_congr_left fun alert ha => ?_
      exact congrArg Id.mk (hopen alert ha).symm
    · exact ⟨rfl, hpart⟩

/-- The verdict on a value in a steady world. -/
def steadyVerdict (evaluator : Evaluator) (w : SteadyWorld) (rule : AlertRule)
    (r : MemoryRepository) (value : Binary64) (fresh : Uuid) : Verdict :=
  evaluator.verdict rule r value w.now fresh (rule.channels.map w.deliver)

variable {w : SteadyWorld} {outcome outcome' : RuleOutcome} {events events' : List Event}

/-- In a steady world an evaluation goes by its reading and its fresh identifier. -/
theorem Ways.steady (h : evaluator.Ways rule r events (.value outcome) own)
    (hgives : ∀ event ∈ events, w.Gives event) :
    ∃ asked reading, (evaluator.metric rule).Yields asked reading ∧
      (∀ event ∈ asked, w.Gives event) ∧
      ((∃ e, reading = .error e ∧ outcome = .skipped rule.id e.message ∧ own = r) ∨
        ∃ value fresh, reading = .value value ∧
          outcome = (evaluator.steadyVerdict w rule r value fresh).outcome ∧
          own = (evaluator.steadyVerdict w rule r value fresh).after.stamped rule.id w.now) := by
  cases h with
  | @skipped _ e hm => exact ⟨events, _, hm, hgives, .inl ⟨e, rfl, rfl, rfl⟩⟩
  | @judged asked value now fresh results v hm hlength _ hv =>
    obtain ⟨hasked, hrest⟩ := List.forall_mem_append.mp hgives
    obtain ⟨hnow, hrest⟩ := List.forall_mem_cons.mp hrest
    obtain ⟨hevents, -⟩ := List.forall_mem_append.mp hrest
    obtain rfl : now = w.now := hnow
    -- the results of deliveries matter only where there are some
    have hsteady : v = evaluator.steadyVerdict w rule r value fresh := by
      subst hv
      unfold steadyVerdict verdict at *
      by_cases hb : rule.breached value = true
      · by_cases hactive : r.hasActive rule.id = true
        · simp only [if_pos hb, if_pos hactive]
        · simp only [if_pos hb, if_neg hactive] at hevents ⊢
          have htold := (List.forall_mem_cons.mp (List.forall_mem_cons.mp hevents).2).2
          rw [SteadyWorld.eq_deliver hlength htold]
      · simp only [if_neg hb]
    exact ⟨asked, _, hm, hasked, .inr ⟨value, fresh, rfl, hsteady ▸ rfl, hsteady ▸ rfl⟩⟩

/-- Two evaluations of a rule have the same reading. -/
theorem Ways.both (h : evaluator.Ways rule r events (.value outcome) own)
    (hgives : ∀ event ∈ events, w.Gives event)
    (h' : evaluator.Ways rule q events' (.value outcome') own')
    (hgives' : ∀ event ∈ events', w.Gives event) :
    (∃ reason, outcome = .skipped rule.id reason ∧ outcome' = .skipped rule.id reason ∧
        own = r ∧ own' = q) ∨
      ∃ value fresh fresh',
        outcome = (evaluator.steadyVerdict w rule r value fresh).outcome ∧
        own = (evaluator.steadyVerdict w rule r value fresh).after.stamped rule.id w.now ∧
        outcome' = (evaluator.steadyVerdict w rule q value fresh').outcome ∧
        own' = (evaluator.steadyVerdict w rule q value fresh').after.stamped rule.id w.now := by
  obtain ⟨asked, reading, hm, hasked, hends⟩ := h.steady hgives
  obtain ⟨asked', reading', hm', hasked', hends'⟩ := h'.steady hgives'
  obtain rfl := SteadyWorld.yields_unique (asksOnly_metric evaluator rule) hm hasked hm' hasked'
  rcases hends with ⟨e, rfl, rfl, rfl⟩ | ⟨value, fresh, rfl, rfl, rfl⟩
  · rcases hends' with ⟨e', ⟨⟩, rfl, rfl⟩ | ⟨value, fresh, ⟨⟩, -, -⟩
    exact .inl ⟨_, rfl, rfl, rfl, rfl⟩
  · rcases hends' with ⟨e', ⟨⟩, -, -⟩ | ⟨value', fresh', ⟨⟩, rfl, rfl⟩
    exact .inr ⟨value, fresh, fresh', rfl, rfl, rfl, rfl⟩

/-- Both evaluations of a rule open an alert, or neither does. -/
theorem Ways.opened_alike (hagree : MemoryRepository.AgreeOn rule.id r q)
    (h : evaluator.Ways rule r events (.value outcome) own)
    (hgives : ∀ event ∈ events, w.Gives event)
    (h' : evaluator.Ways rule q events' (.value outcome') own')
    (hgives' : ∀ event ∈ events', w.Gives event) :
    outcome'.opened?.isSome = outcome.opened?.isSome := by
  rcases h.both hgives h' hgives' with ⟨reason, rfl, rfl, -, -⟩ |
    ⟨value, fresh, fresh', rfl, -, rfl, -⟩
  · rfl
  · unfold steadyVerdict verdict
    rw [hagree.hasActive]
    split
    · split <;> rfl
    · split <;> rfl

/-- Two evaluations of a rule differ in the name of the alert that they open. -/
theorem Ways.alike (hagree : MemoryRepository.AgreeOn rule.id r q)
    (hkept : ∀ alert ∈ r.alerts.entities, alert.ruleId = rule.id →
      π alert.id.uuid = alert.id.uuid)
    (h : evaluator.Ways rule r events (.value outcome) own)
    (hgives : ∀ event ∈ events, w.Gives event)
    (h' : evaluator.Ways rule q events' (.value outcome') own')
    (hgives' : ∀ event ∈ events', w.Gives event)
    (hopened : outcome.opened?.map π = outcome'.opened?) :
    outcome' = outcome.renamed π ∧ MemoryRepository.PartUpTo π rule.id own own' := by
  rcases h.both hgives h' hgives' with ⟨reason, rfl, rfl, rfl, rfl⟩ |
    ⟨value, fresh, fresh', rfl, rfl, rfl, rfl⟩
  · exact ⟨rfl, hagree.partUpTo hkept⟩
  · obtain ⟨houtcome, hpart⟩ := verdict_alike fresh fresh' _ hagree hkept hopened
    exact ⟨houtcome, hpart.stamped w.now⟩

end Evaluator

end Bulletin
