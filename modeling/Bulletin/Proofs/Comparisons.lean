import Bulletin.Proofs.PredicateTexts
import Bulletin.Proofs.ValueOrder
import Bulletin.Transform.Filter

/-!
# Comparing values

There are three ways to compare two values: the order of all values, equality, and the operators of
a filter step. The order is a total preorder. Equality of scalars is what the order finds equal, and
between two numbers or two strings exactly one operator holds, the one that the order names.

* `Json.order_eq_eq_iff` — what the order finds equal
* `FilterOperator.holds_iff` — the operator that holds
* `comparisons_agree` — both, and the laws of the order
-/

namespace Bulletin

/-- A comparison is a total preorder, and values that it finds equal compare alike. -/
structure IsTotalPreorder {α : Type} (order : α → α → Ordering) : Prop where
  /-- a value is equal to itself -/
  refl : ∀ v, order v v = .eq
  /-- the other way round the result is reversed -/
  swap : ∀ v w, order w v = (order v w).swap
  /-- what is at most a second value, which is at most a third one, is at most the third one -/
  trans : ∀ u v w, order u v ≠ .gt → order v w ≠ .gt → order u w ≠ .gt
  /-- equal values compare alike with every value, on either side -/
  congr : ∀ u v w, order u v = .eq → order u w = order v w ∧ order w u = order w v

namespace Json

variable {v w : Json}

theorem isTotalPreorder_order : IsTotalPreorder order where
  refl _ := Std.ReflCmp.compare_self
  swap _ _ := Std.OrientedCmp.eq_swap
  trans u v w huv hvw := by
    have huv := Ordering.ne_gt_iff_isLE.mp huv
    have hvw := Ordering.ne_gt_iff_isLE.mp hvw
    exact Ordering.ne_gt_iff_isLE.mpr (Std.TransCmp.isLE_trans huv hvw)
  congr _ _ _ h := ⟨Std.TransCmp.congr_left h, Std.TransCmp.congr_right h⟩

/-- A scalar is equal to just the values that the order finds equal to it. -/
theorem order_eq_eq_iff (hv : v.IsScalar) : v.order w = .eq ↔ v.equal w = true := by
  cases v <;> cases w
  case number.number n m =>
    obtain ⟨x, hx⟩ := n.exists_finite
    obtain ⟨y, hy⟩ := m.exists_finite
    simp [order, equal, numeric?, hx, hy, Binary64.order?, Binary64.numEq]
  case array.array | array.object | object.array | object.object => exact hv.elim
  -- the kind decides, or the values are compared as they are
  all_goals simp [order, equal, numeric?, same, rank]

/-- Two numbers or two strings. -/
inductive Comparable : Json → Json → Prop
  | numbers (n m : Number) : Comparable (.number n) (.number m)
  | strings (s t : String) : Comparable (.string s) (.string t)

end Json

namespace FilterOperator

open Json (Comparable)

variable {v w : Json}

/-- The operator that holds of two values in a given order. -/
def named : Ordering → FilterOperator
  | .lt => .lessThan
  | .eq => .equals
  | .gt => .greaterThan

theorem comparison?_of_comparable (h : Comparable v w) : comparison? v w = some (v.order w) := by
  cases h with
  | numbers n m =>
    obtain ⟨x, hx⟩ := n.exists_finite
    obtain ⟨y, hy⟩ := m.exists_finite
    simp [comparison?, Json.order, hx, hy, Binary64.order?]
  | strings s t => rfl

theorem comparison?_of_not_comparable (h : ¬ Comparable v w) : comparison? v w = none := by
  cases v <;> cases w
  case number.number n m => exact absurd (.numbers n m) h
  case string.string s t => exact absurd (.strings s t) h
  all_goals rfl

/-- Between two numbers or two strings the order names the operator that holds. -/
theorem holds_iff (h : Comparable v w) (operator : FilterOperator) :
    operator.holds v w = true ↔ operator = named (v.order w) := by
  have hscalar : v.IsScalar := by
    cases h <;> trivial
  cases operator with
  | equals =>
    rw [holds, ← Json.order_eq_eq_iff hscalar]
    cases v.order w <;> simp [named]
  | greaterThan | lessThan =>
    rw [holds, comparison?_of_comparable h]
    cases v.order w <;> simp [named]

/-- Values of other kinds are in no strict order. -/
theorem not_holds_of_not_comparable (h : ¬ Comparable v w) :
    lessThan.holds v w = false ∧ greaterThan.holds v w = false := by
  simp [holds, comparison?_of_not_comparable h]

end FilterOperator

open FilterOperator in
/-- **Comparing values.**

* The order of all values is a total preorder, and equal values compare alike.
* It finds a scalar equal to just the values that equality does.
* Between two numbers or two strings one operator of a filter holds and no other, the one that the
  order names. Between values of other kinds neither strict operator holds. -/
theorem comparisons_agree :
    IsTotalPreorder Json.order ∧
      (∀ v w : Json, v.IsScalar → (v.order w = .eq ↔ v.equal w = true)) ∧
      (∀ v w, Json.Comparable v w →
        ∀ operator : FilterOperator, operator.holds v w = true ↔ operator = named (v.order w)) ∧
      ∀ v w, ¬ Json.Comparable v w →
        lessThan.holds v w = false ∧ greaterThan.holds v w = false :=
  ⟨Json.isTotalPreorder_order, fun _ _ hv => Json.order_eq_eq_iff hv, fun _ _ h => holds_iff h,
    fun _ _ h => not_holds_of_not_comparable h⟩

/-- A whole number beyond `2 ^ 53`, its neighbours, and a string. -/
theorem comparisons_agree_of_neighbours :
    let n := Json.number (.int 9007199254740993 (by decide))
    let x := Json.number (.int 9007199254740992 (by decide))
    let y := Json.number (.int 9007199254740994 (by decide))
    n.order x = .eq ∧ n.IsScalar ∧ n.equal x = true ∧
      x.order y ≠ .gt ∧ y.order (.string "b") ≠ .gt ∧ x.order (.string "b") ≠ .gt ∧
      n.order y = x.order y ∧ Json.Comparable x y ∧ FilterOperator.lessThan.holds x y = true ∧
      ¬ Json.Comparable y (.string "b") ∧
      FilterOperator.lessThan.holds y (.string "b") = false := by
  intro n x y
  obtain ⟨hpreorder, hequal, hholds, hnone⟩ := comparisons_agree
  have hnx : n.order x = .eq := by decide +kernel
  have hless : x.order y = .lt := by decide +kernel
  have hxy : x.order y ≠ .gt := by simp [hless]
  have hy : y.order (.string "b") ≠ .gt := by decide
  have hnumbers : Json.Comparable x y := .numbers _ _
  have hkinds : ¬ Json.Comparable (.number (.int 9007199254740994 (by decide))) (.string "b") :=
    nofun
  refine ⟨hnx, trivial, (hequal n x trivial).mp hnx, hxy, hy, hpreorder.trans x y _ hxy hy,
    (hpreorder.congr n x y hnx).1, hnumbers, ?_, hkinds, (hnone y _ hkinds).1⟩
  rw [hholds x y hnumbers, hless]
  rfl

end Bulletin
