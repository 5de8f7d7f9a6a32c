import Bulletin.Proofs.RuleParts
import Bulletin.Proofs.Traces
import Mathlib.Data.Fintype.Sum

/-!
# Renaming alerts

An identifier of an alert says nothing but which alert it is, so two repositories may be the same
except for the names. A renaming is a permutation of identifiers. It moves alerts, outcomes and
repositories; their times, values and rules stay.

* `exists_perm` — a relation of names that is one to one is part of a renaming
* `PartUpTo.put`, `PartUpTo.save_rule` — what the same change does to both sides
* `SameUpTo` — two repositories are the same but for names
-/

namespace Bulletin

/-- The identifiers are finitely many. -/
instance : Finite Uuid :=
  Finite.of_equiv (Fin (2 ^ 128))
    ⟨fun i => ⟨.ofFin i⟩, fun id => id.value.toFin, fun _ => rfl, fun _ => rfl⟩

/-- A relation that is one to one is part of a permutation. -/
theorem exists_perm {α : Type} [Finite α] {R : α → α → Prop}
    (hfun : ∀ x y y', R x y → R x y' → y = y') (hinj : ∀ x x' y, R x y → R x' y → x = x') :
    ∃ π : Equiv.Perm α, ∀ x y, R x y → π x = y := by
  classical
  have := Fintype.ofFinite α
  let f (x : α) : α := if h : ∃ y, R x y then h.choose else x
  have hf : ∀ x y, R x y → f x = y := by
    intro x y h
    have hex : ∃ y, R x y := ⟨y, h⟩
    exact (dif_pos hex).trans (hfun x _ _ hex.choose_spec h)
  have hmaps : Set.MapsTo f {x | ∃ y, R x y} (Finset.univ : Finset α) :=
    fun x _ => Finset.mem_coe.mpr (Finset.mem_univ (f x))
  have hon : Set.InjOn f {x | ∃ y, R x y} := by
    rintro x ⟨y, h⟩ x' ⟨y', h'⟩ he
    rw [hf x y h, hf x' y' h'] at he
    exact hinj x x' y h (he ▸ h')
  obtain ⟨g, hg⟩ := hmaps.exists_equiv_extend_of_card_eq Finset.card_univ.symm hon
  refine ⟨g.trans (Equiv.subtypeUnivEquiv Finset.mem_univ), fun x y h => ?_⟩
  exact (hg x ⟨y, h⟩).trans (hf x y h)

/-! ## Renamed alerts -/

/-- An alert under another name. -/
def Alert.renamed (π : Equiv.Perm Uuid) (alert : Alert) : Alert :=
  { alert with id := ⟨π alert.id.uuid⟩ }

/-- An outcome with other names of alerts. -/
def RuleOutcome.renamed (π : Equiv.Perm Uuid) : RuleOutcome → RuleOutcome
  | .skipped rule reason => .skipped rule reason
  | .clear rule value resolved => .clear rule value (resolved.map fun id => ⟨π id.uuid⟩)
  | .triggered rule value alert notifications =>
    .triggered rule value ⟨π alert.uuid⟩ notifications
  | .deduplicated rule value => .deduplicated rule value

variable {π : Equiv.Perm Uuid} {alert other : Alert}

@[simp] theorem Alert.renamed_ruleId : (alert.renamed π).ruleId = alert.ruleId := rfl

@[simp] theorem Alert.renamed_uuid : (alert.renamed π).id.uuid = π alert.id.uuid := rfl

theorem Alert.renamed_id_inj :
    (alert.renamed π).id = (other.renamed π).id ↔ alert.id = other.id := by
  constructor
  · intro h
    exact congrArg Id.mk (π.injective (congrArg Id.uuid h))
  · intro h
    exact congrArg (fun id : AlertId => Id.mk (π id.uuid)) h

theorem Alert.renamed_inj : alert.renamed π = other.renamed π ↔ alert = other := by
  refine ⟨fun h => ?_, fun h => h ▸ rfl⟩
  have hid := renamed_id_inj.mp (congrArg Alert.id h)
  cases alert
  cases other
  cases hid
  cases h
  rfl

theorem Alert.renamed_eq_self (h : π alert.id.uuid = alert.id.uuid) : alert.renamed π = alert := by
  rw [Alert.renamed, h]

/-! ## Parts of repositories -/

namespace MemoryRepository

variable {rule : RuleId} {r r' q q' : MemoryRepository}

/-- Two repositories have the same part of a rule, but for the names of its alerts. -/
structure PartUpTo (π : Equiv.Perm Uuid) (rule : RuleId) (r q : MemoryRepository) : Prop where
  record : q.rules.get? rule = r.rules.get? rule
  alerts : ∀ alert : Alert, alert.ruleId = rule →
    (alert.renamed π ∈ q.alerts.entities ↔ alert ∈ r.alerts.entities)

/-- Two repositories are the same but for the names of alerts. -/
structure SameUpTo (π : Equiv.Perm Uuid) (r q : MemoryRepository) : Prop where
  besides : SameBesides r q
  rules : ∀ id, q.rules.get? id = r.rules.get? id
  alerts : ∀ alert : Alert, alert.renamed π ∈ q.alerts.entities ↔ alert ∈ r.alerts.entities

theorem sameUpTo_of_parts (hbesides : SameBesides r q) (hparts : ∀ rule, PartUpTo π rule r q) :
    SameUpTo π r q :=
  ⟨hbesides, fun id => (hparts id).record, fun alert => (hparts alert.ruleId).alerts alert rfl⟩

/-- The same part is the same but for names that are kept. -/
theorem AgreeOn.partUpTo (h : AgreeOn rule r q)
    (hkept : ∀ alert ∈ r.alerts.entities, alert.ruleId = rule → π alert.id.uuid = alert.id.uuid) :
    PartUpTo π rule r q := by
  refine ⟨h.record, fun alert ha => ?_⟩
  constructor
  · intro hmem
    -- the new name is one that is kept, so it is the old one
    have hstored := (h.alerts (alert.renamed π) ha).mp hmem
    have hid : π alert.id.uuid = alert.id.uuid := π.injective (hkept _ hstored ha)
    rw [Alert.renamed_eq_self hid] at hstored
    exact hstored
  · intro hmem
    rw [Alert.renamed_eq_self (hkept alert hmem ha)]
    exact (h.alerts alert ha).mpr hmem

theorem PartUpTo.trans_agreeOn (h : PartUpTo π rule r q) (hr : AgreeOn rule r r')
    (hq : AgreeOn rule q q') : PartUpTo π rule r' q' := by
  refine ⟨?_, fun alert ha => ?_⟩
  · rw [hq.record, hr.record, h.record]
  · rw [hq.alerts (alert.renamed π) ha, hr.alerts alert ha, h.alerts alert ha]

/-- An alert is saved in both, each under its name. -/
theorem PartUpTo.put (h : PartUpTo π rule r q) (alert : Alert) :
    PartUpTo π rule (r.put .alert alert) (q.put .alert (alert.renamed π)) := by
  refine ⟨h.record, fun a ha => ?_⟩
  change a.renamed π ∈ (q.alerts.save (alert.renamed π)).entities ↔
    a ∈ (r.alerts.save alert).entities
  rw [Table.mem_save, Table.mem_save, Alert.renamed_inj, h.alerts a ha]
  exact or_congr_right (and_congr_right fun _ => not_congr Alert.renamed_id_inj)

/-- A rule is saved in both. -/
theorem PartUpTo.save_rule (h : PartUpTo π rule r q) (entity : AlertRule) :
    PartUpTo π rule (r.put .rule entity) (q.put .rule entity) := by
  refine ⟨?_, h.alerts⟩
  change (q.rules.save entity).get? rule = (r.rules.save entity).get? rule
  rw [Table.get?_save, Table.get?_save, h.record]

end MemoryRepository

end Bulletin
