import Bulletin.Proofs.Rounding
import Bulletin.Record

/-!
# The order of all values

Values are compared by kind, then by size, then by text, and every kind has but one of the last
two: truth values and numbers have a size, strings, arrays and objects a text. So the order is a
total preorder.

* `Json.order_eq` — the order in three comparisons
* `Json.transCmp_order` — it is a total preorder
-/

namespace Bulletin

namespace Json

/-! ## Size and text -/

/-- The size of a truth value or a number, a number in units. -/
def size : Json → Int
  | .bool true => 1
  | .number n => (n.toBinary64.finite?.map Finite64.scaled).getD 0
  | _ => 0

/-- The text by which strings, arrays and objects are compared. -/
def wording : Json → String
  | .string s => s
  | .array items => (Json.array items).compact
  | .object members => (Json.object members).compact
  | _ => ""

/-- A number has a finite double next to it. -/
theorem Number.exists_finite (n : Number) : ∃ x, n.toBinary64 = .finite x := by
  cases n with
  | int n fits => exact Binary64.exists_finite_ofInt fits
  | real x => exact ⟨x, rfl⟩

/-- The order compares kinds, sizes and texts, in this order. -/
theorem order_eq (v w : Json) :
    v.order w
      = compareLex (compareLex (compareOn rank) (compareOn size)) (compareOn wording) v w := by
  cases v <;> cases w
  case number.number n m =>
    obtain ⟨x, hx⟩ := n.exists_finite
    obtain ⟨y, hy⟩ := m.exists_finite
    simp [compareLex, compareOn, order, size, wording, rank, hx, hy, Binary64.order?,
      Binary64.finite?, Finite64.order, Ordering.then_eq]
  case bool.bool a b => cases a <;> cases b <;> rfl
  case string.string | array.array | object.object =>
    simp [compareLex, compareOn, order, size, wording, rank]
  -- the kind decides
  all_goals rfl

/-- The order is a total preorder. -/
instance transCmp_order : Std.TransCmp order := by
  have h : order
      = compareLex (compareLex (compareOn rank) (compareOn size)) (compareOn wording) := by
    funext v w
    exact order_eq v w
  rw [h]
  infer_instance

end Json

end Bulletin
