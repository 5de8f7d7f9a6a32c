import Bulletin.Proofs.Tables
import Mathlib.Data.List.Sort
import Mathlib.Data.List.Nodup

/-!
# Listings

The order of every kind of entity is total, and two entities at one place of it have one
identifier. So a listing of entities with different identifiers does not depend on the order in
which they were met.

* `EntityKind.eq_id_of_order_eq` — one place, one identifier
* `EntityKind.listing_perm` — the order of the entities does not matter
-/

namespace Bulletin

instance Instant.transCmp_order : Std.TransCmp Instant.order :=
  inferInstanceAs (Std.TransCmp
    (compareLex (compareOn Instant.second) (compareOn Instant.nano)))

theorem Instant.before_eq_false_iff {a b : Instant} :
    a.before b = false ↔ (a.order b).isGE = true := by
  unfold before
  cases a.order b <;> decide

theorem Id.eq_of_order_eq {kind : EntityKind} {a b : Id kind} (h : a.order b = .eq) : a = b := by
  have hvalue : a.uuid.value = b.uuid.value :=
    BitVec.eq_of_toNat_eq (Std.LawfulEqCmp.eq_of_compare h)
  exact congrArg (fun value => Id.mk (Uuid.mk value)) hvalue

namespace EntityKind

variable {kind : EntityKind}

/-- Two entities are told apart by their identifiers if by nothing else. -/
theorem eq_id_of_order_eq {a b : kind.Entity} (h : kind.order a b = .eq) :
    kind.id a = kind.id b := by
  cases kind with
  | execution => exact (Id.eq_of_order_eq (Ordering.then_eq_eq.mp h).2).symm
  | report | dashboard | widget | rule | alert =>
    exact Id.eq_of_order_eq (Ordering.then_eq_eq.mp h).2

/-- Every order compares a few fields, one after the other. -/
instance transCmp_order : Std.TransCmp kind.order := by
  cases kind with
  | report =>
    exact inferInstanceAs (Std.TransCmp
      (compareLex (compareOn Report.name) (compareOn fun r : Report => r.id.uuid.value.toNat)))
  | execution =>
    -- the newest first: all fields are compared the other way round
    exact @Std.TransCmp.opposite _ (compareLex
      (compareLex (compareOn fun e : Execution => e.createdAt.second)
        (compareOn fun e : Execution => e.createdAt.nano))
      (compareOn fun e : Execution => e.id.uuid.value.toNat)) inferInstance
  | dashboard =>
    exact inferInstanceAs (Std.TransCmp (compareLex (compareOn Dashboard.name)
      (compareOn fun d : Dashboard => d.id.uuid.value.toNat)))
  | widget =>
    exact inferInstanceAs (Std.TransCmp (compareLex
      (compareLex (compareOn fun w : Widget => w.position.y)
        (compareOn fun w : Widget => w.position.x))
      (compareOn fun w : Widget => w.id.uuid.value.toNat)))
  | rule =>
    exact inferInstanceAs (Std.TransCmp
      (compareLex (compareOn AlertRule.name)
        (compareOn fun r : AlertRule => r.id.uuid.value.toNat)))
  | alert =>
    exact inferInstanceAs (Std.TransCmp (compareLex
      (compareLex (compareOn fun a : Alert => a.triggeredAt.second)
        (compareOn fun a : Alert => a.triggeredAt.nano))
      (compareOn fun a : Alert => a.id.uuid.value.toNat)))

/-- A listing is sorted. -/
theorem pairwise_listing (scope : kind.Scope) (entities : List kind.Entity) :
    (kind.listing scope entities).Pairwise fun a b => (kind.order a b != .gt) = true := by
  refine List.pairwise_mergeSort ?_ ?_ _
  · intro a b c hab hbc
    simp only [bne_iff_ne] at hab hbc ⊢
    exact Ordering.isLE_iff_ne_gt.mp (Std.TransCmp.isLE_trans (Ordering.isLE_iff_ne_gt.mpr hab)
      (Ordering.isLE_iff_ne_gt.mpr hbc))
  · intro a b
    rw [show kind.order b a = (kind.order a b).swap from Std.OrientedCmp.eq_swap]
    cases kind.order a b <;> rfl

/-- Sorted entities with different identifiers stand in one order only. -/
theorem eq_of_perm_of_pairwise {entities entities' : List kind.Entity}
    (hperm : entities.Perm entities') (hd : (entities.map kind.id).Nodup)
    (h : entities.Pairwise fun a b => (kind.order a b != .gt) = true)
    (h' : entities'.Pairwise fun a b => (kind.order a b != .gt) = true) : entities = entities' := by
  refine hperm.eq_of_pairwise ?_ h h'
  intro a b ha hb hab hba
  -- neither stands after the other, so they are at one place and have one identifier
  have heq : kind.order a b = .eq := by
    rw [show kind.order b a = (kind.order a b).swap from Std.OrientedCmp.eq_swap] at hba
    cases ho : kind.order a b <;> simp_all
  exact List.inj_on_of_nodup_map hd ha (hperm.mem_iff.mpr hb) (eq_id_of_order_eq heq)

/-- The order in which entities are met does not show in their listing. -/
theorem listing_perm {scope : kind.Scope} {entities entities' : List kind.Entity}
    (h : entities.Perm entities') (hd : (entities.map kind.id).Nodup) :
    kind.listing scope entities = kind.listing scope entities' := by
  have hsort : (kind.listing scope entities).Perm (entities.filter (kind.inScope scope)) :=
    List.mergeSort_perm _ _
  have hperm : (kind.listing scope entities).Perm (kind.listing scope entities') :=
    hsort.trans ((h.filter _).trans (List.mergeSort_perm _ _).symm)
  refine eq_of_perm_of_pairwise hperm ?_ (pairwise_listing scope entities)
    (pairwise_listing scope entities')
  exact (hsort.map kind.id).nodup_iff.mpr (hd.sublist (List.filter_sublist.map _))

/-- Sorted entities of a scope are a listing of theirs. -/
theorem listing_of_sorted {scope : kind.Scope} {entities sorted : List kind.Entity}
    (h : sorted.Perm entities) (hd : (entities.map kind.id).Nodup)
    (hscope : ∀ e ∈ sorted, kind.inScope scope e = true)
    (hsorted : sorted.Pairwise fun a b => (kind.order a b != .gt) = true) :
    kind.listing scope entities = sorted := by
  rw [← listing_perm h ((h.map kind.id).nodup_iff.mpr hd), listing,
    List.filter_eq_self.mpr hscope]
  exact List.mergeSort_of_pairwise hsorted

end EntityKind

end Bulletin
