import Bulletin.Proofs.ValueOrder
import Bulletin.Transform.Step
import Mathlib.Data.List.Nodup

/-!
# Sorted rows

A sort step puts rows in the order of the values of a field, upwards or downwards, and rows with
equal values keep their order either way. Values are equal here if the order finds them so: `1` and
`1.0` are, and a missing field is `null`.

Because a sort keeps the order of what it finds equal, sorts can be put one after the other: the
last one decides first.

* `pairwise_mergeSort_of_pairwise` — a sort keeps the order of what it finds equal
* `arranged_applyAll` — sorts one after the other
* `sort_steps_arrange`
-/

namespace Bulletin

/-! ## Arrangements -/

section

variable {α : Type} {order : α → α → Ordering} {before after : List α}

/-- The elements of a list, each with the place where it stood, in another order: what is smaller
stands first, and what is equal stands as it stood. -/
def Arranged (order : α → α → Ordering) (before after : List α) : Prop :=
  ∃ placed : List (α × Nat), placed.Perm before.zipIdx ∧ placed.map Prod.fst = after ∧
    placed.Pairwise fun a b => order a.1 b.1 = .lt ∨ order a.1 b.1 = .eq ∧ a.2 < b.2

theorem Arranged.perm (h : Arranged order before after) : after.Perm before := by
  obtain ⟨placed, hperm, rfl, -⟩ := h
  have hbefore : before.zipIdx.map Prod.fst = before := List.zipIdx_map_fst 0 before
  exact hbefore ▸ hperm.map Prod.fst

theorem Arranged.pairwise (h : Arranged order before after) :
    after.Pairwise fun a b => order a b ≠ .gt := by
  obtain ⟨placed, -, rfl, hplaced⟩ := h
  refine List.pairwise_map.mpr (hplaced.imp ?_)
  rintro a b (hlt | ⟨heq, -⟩)
  · simp [hlt]
  · simp [heq]

/-- The places of a list rise. -/
theorem pairwise_zipIdx (l : List α) : l.zipIdx.Pairwise fun a b => a.2 < b.2 := by
  have hplaces : (l.zipIdx.map Prod.snd).Pairwise (· < ·) := by
    rw [List.zipIdx_map_snd, ← List.range_eq_range']
    exact List.pairwise_lt_range
  exact List.pairwise_map.mp hplaces

/-- A sort keeps the order of what it finds equal, whatever this order is. -/
theorem pairwise_mergeSort_of_pairwise [Std.TransCmp order] {R : α → α → Prop} {l : List α}
    (h : l.Pairwise R) :
    (l.mergeSort fun a b => order a b != .gt).Pairwise fun a b =>
      order a b = .lt ∨ order a b = .eq ∧ R a b := by
  let le (a b : α) : Bool := order a b != .gt
  have hle : ∀ {a b}, le a b = true ↔ (order a b).isLE = true := by
    intro a b
    rw [Ordering.isLE_iff_ne_gt]
    exact bne_iff_ne
  have hswap : ∀ a b, order b a = (order a b).swap := fun _ _ => Std.OrientedCmp.eq_swap
  -- sorted with their places, equal elements stand in the order of the places
  have hsorted : (l.zipIdx.mergeSort (List.zipIdxLE le)).Pairwise fun a b =>
      List.zipIdxLE le a b = true := by
    refine List.pairwise_mergeSort (List.zipIdxLE_trans ?_) (List.zipIdxLE_total ?_) _
    · intro a b c hab hbc
      exact hle.mpr (Std.TransCmp.isLE_trans (hle.mp hab) (hle.mp hbc))
    · intro a b
      change (order a b != .gt || order b a != .gt) = true
      rw [hswap a b]
      cases order a b <;> rfl
  have hplaces : (l.zipIdx.mergeSort (List.zipIdxLE le)).Pairwise fun a b => a.2 ≠ b.2 := by
    have hperm : (l.zipIdx.mergeSort (List.zipIdxLE le)).Perm l.zipIdx := List.mergeSort_perm _ _
    refine (hperm.pairwise_iff fun h => h.symm).mpr ?_
    exact (pairwise_zipIdx l).imp fun h => Nat.ne_of_lt h
  have hmem : ∀ a ∈ l.zipIdx.mergeSort (List.zipIdxLE le), ∃ hlt : a.2 < l.length,
      a.1 = l[a.2] := by
    intro a ha
    obtain ⟨hlt, hvalue⟩ := List.mem_zipIdx' (List.mem_mergeSort.mp ha)
    exact ⟨hlt, hvalue⟩
  change (l.mergeSort le).Pairwise _
  rw [← List.mergeSort_zipIdx, List.pairwise_map]
  refine (hsorted.and hplaces).imp_of_mem ?_
  rintro a b ha hb ⟨hab, hne⟩
  obtain ⟨hla, hfirst⟩ := hmem a ha
  obtain ⟨hlb, hsecond⟩ := hmem b hb
  have hrises : a.2 < b.2 → R a.1 b.1 := by
    intro hlt
    rw [hfirst, hsecond]
    exact List.pairwise_iff_getElem.mp h a.2 b.2 hla hlb hlt
  have hback := hswap a.1 b.1
  unfold List.zipIdxLE at hab
  change (if (order a.1 b.1 != .gt) = true then
    if (order b.1 a.1 != .gt) = true then decide (a.2 ≤ b.2) else true else false) = true at hab
  cases hcase : order a.1 b.1 with
  | lt => exact .inl rfl
  | eq =>
    rw [hback, hcase] at hab
    exact .inr ⟨rfl, hrises (Nat.lt_of_le_of_ne (of_decide_eq_true hab) hne)⟩
  | gt =>
    rw [hcase] at hab
    cases hab

/-- Sorting what was arranged arranges it anew, and the old order counts among equals. -/
theorem Arranged.mergeSort {first : α → α → Ordering} [Std.TransCmp first]
    (h : Arranged order before after) :
    Arranged (fun a b => (first a b).then (order a b)) before
      (after.mergeSort fun a b => first a b != .gt) := by
  obtain ⟨placed, hperm, rfl, hplaced⟩ := h
  have hfirst : Std.TransCmp fun a b : α × Nat => first a.1 b.1 :=
    { eq_swap := Std.OrientedCmp.eq_swap, isLE_trans := Std.TransCmp.isLE_trans }
  refine ⟨placed.mergeSort fun a b => first a.1 b.1 != .gt, (List.mergeSort_perm _ _).trans hperm,
    List.map_mergeSort fun _ _ _ _ => rfl, ?_⟩
  refine (pairwise_mergeSort_of_pairwise hplaced).imp ?_
  rintro a b (hlt | ⟨heq, hrest⟩)
  · simp [hlt]
  · simpa [heq] using hrest

end

/-! ## Sort steps -/

namespace Record

/-- The order of rows by the values of a field, upwards or downwards. -/
def fieldOrder (field : String) (ascending : Bool) (a b : Record) : Ordering :=
  let order := (a.value field).order (b.value field)
  if ascending then order else order.swap

/-- The order of rows by several fields, each with its direction; the first one decides first. -/
def keyOrder : List (String × Bool) → Record → Record → Ordering
  | [], _, _ => .eq
  | (field, ascending) :: rest, a, b => (fieldOrder field ascending a b).then (keyOrder rest a b)

instance transCmp_fieldOrder (field : String) (ascending : Bool) :
    Std.TransCmp (fieldOrder field ascending) := by
  have hup : Std.TransCmp fun a b : Record => (a.value field).order (b.value field) :=
    { eq_swap := Std.OrientedCmp.eq_swap, isLE_trans := Std.TransCmp.isLE_trans }
  cases ascending with
  | true => exact hup
  | false =>
    have hdown : fieldOrder field false
        = fun a b => (b.value field).order (a.value field) := by
      funext a b
      exact Std.OrientedCmp.eq_swap.symm
    rw [hdown]
    exact Std.TransCmp.opposite

end Record

namespace TransformStep

open Record (fieldOrder keyOrder)

/-- The comparison of a sort step is that of the order. -/
theorem sortedBefore_eq (field : String) (ascending : Bool) :
    sortedBefore field ascending = fun a b => fieldOrder field ascending a b != .gt := by
  funext a b
  unfold sortedBefore fieldOrder
  cases ascending with
  | true => rfl
  | false => cases (a.value field).order (b.value field) <;> rfl

/-- Sorts one after the other arrange rows by all their fields, the last one deciding first. -/
theorem arranged_applyAll (rows : List Record) (keys : List (String × Bool)) :
    Arranged (keyOrder keys) rows
      (applyAll rows (keys.reverse.map fun key => sort key.1 key.2)) := by
  induction keys with
  | nil =>
    refine ⟨rows.zipIdx, .refl _, List.zipIdx_map_fst 0 rows, ?_⟩
    exact (pairwise_zipIdx rows).imp fun h => .inr ⟨rfl, h⟩
  | cons key rest ih =>
    obtain ⟨field, ascending⟩ := key
    unfold applyAll at ih ⊢
    rw [List.reverse_cons, List.map_append, List.foldl_append]
    change Arranged _ _ (List.mergeSort _ (sortedBefore field ascending))
    rw [sortedBefore_eq]
    exact ih.mergeSort

/-- **Sorting rows.**

* A sort step gives the rows in another order. Of two rows the one that comes first has the smaller
  value in the field, or the greater one if the step sorts downwards, or their values compare equal,
  and then the one comes first that stood first. A row that lacks the field counts as `null`.
* So sort steps one after the other arrange the rows by the pair, or by all the tuple, of their
  fields, each in its own direction: the step that is applied last decides first. -/
theorem sort_steps_arrange (rows : List Record) :
    (∀ field ascending,
      (apply rows (.sort field ascending)).Perm rows ∧
      ((apply rows (.sort field ascending)).Pairwise fun a b =>
        (a.value field).order (b.value field) ≠ if ascending then .gt else .lt) ∧
      Arranged (fieldOrder field ascending) rows (apply rows (.sort field ascending))) ∧
    ∀ keys : List (String × Bool), Arranged (keyOrder keys) rows
      (applyAll rows (keys.reverse.map fun key => .sort key.1 key.2)) := by
  refine ⟨fun field ascending => ?_, arranged_applyAll rows⟩
  have harranged : Arranged (fieldOrder field ascending) rows
      (apply rows (.sort field ascending)) := by
    have hone := arranged_applyAll rows [(field, ascending)]
    have horder : keyOrder [(field, ascending)] = fieldOrder field ascending := by
      funext a b
      exact Ordering.then_eq
    exact horder ▸ hone
  refine ⟨harranged.perm, harranged.pairwise.imp fun {a b} h => ?_, harranged⟩
  unfold fieldOrder at h
  cases ascending with
  | true => exact h
  | false =>
    intro hlt
    exact h (congrArg Ordering.swap hlt)

end TransformStep

end Bulletin
