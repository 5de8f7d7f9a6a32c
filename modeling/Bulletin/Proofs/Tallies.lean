import Bulletin.Proofs.ValueOrder
import Bulletin.Transform.Aggregate
import Mathlib.Data.List.Induction

/-!
# Tallies

A tally goes through the values of a group once, and yet what it holds at the end is said of all
the values at once: how many there are, which is the earliest of the least and of the greatest, and
what the numbers come to.

* `Tally.least_ofValues`, `Tally.greatest_ofValues` — the extremes
* `Tally.count_ofValues`, `Tally.average_ofValues` — the count and the mean
-/

namespace Bulletin

/-! ## Values of a group -/

namespace Json

/-- A value stands before another one in the order of all values. -/
def Precedes (v w : Json) : Prop := v.order w = .lt

/-- The values other than `null`. -/
def nonNull (values : List Json) : List Json := values.filter fun v => v ≠ .null

/-- The first of some values with a property, or `null` if there are no values. -/
def IsEarliest (p : Json → Prop) (values : List Json) (v : Json) : Prop :=
  (values = [] ∧ v = .null) ∨
    ∃ before after, values = before ++ v :: after ∧ p v ∧ ∀ u ∈ before, ¬ p u

/-- The double next to the mean of some numbers, added in their order; `null` if there are none. -/
def mean : List Binary64 → Json
  | [] => .null
  | xs => Json.real ((xs.foldl Binary64.add Binary64.zero).divNat xs.length)

variable {beyond : Ordering} {u v w : Json}

/-- Nothing lies beyond a value and a second one, unless it lies beyond the second one or the
second one beyond the value. -/
theorem order_of_not_beyond (h : v.order w = beyond) (hu : u.order w ≠ beyond)
    (hb : beyond ≠ .eq) : v.order u = beyond := by
  have hswap : w.order u = (u.order w).swap := Std.OrientedCmp.eq_swap
  cases beyond with
  | eq => exact absurd rfl hb
  | lt =>
    refine Std.TransCmp.lt_of_lt_of_isLE h ?_
    rw [hswap]
    cases ho : u.order w <;> simp_all
  | gt =>
    refine Std.TransCmp.gt_of_gt_of_isGE h ?_
    rw [hswap]
    cases ho : u.order w <;> simp_all

theorem order_beyond_trans (h : u.order v = beyond) (h' : v.order w = beyond)
    (hb : beyond ≠ .eq) : u.order w = beyond := by
  refine order_of_not_beyond h (fun hw => hb ?_) hb
  have hswap : w.order v = (v.order w).swap := Std.OrientedCmp.eq_swap
  rw [hw, h'] at hswap
  cases beyond <;> cases hswap
  rfl

end Json

/-! ## Tallies -/

namespace Tally

open Json

variable (tally : Tally)

/-- Only the whole sum and its overflow are touched. -/
theorem addWhole_kept (n : Int) :
    (tally.addWhole n).present = tally.present ∧ (tally.addWhole n).least = tally.least ∧
      (tally.addWhole n).greatest = tally.greatest ∧ (tally.addWhole n).numbers = tally.numbers ∧
      (tally.addWhole n).realSum = tally.realSum := by
  unfold addWhole
  split
  · simp only
    split <;> exact ⟨rfl, rfl, rfl, rfl, rfl⟩
  · exact ⟨rfl, rfl, rfl, rfl, rfl⟩

/-- A number leaves the count of values and the extremes to the rest of the step. -/
theorem addNumber_kept (n : Number) :
    (tally.addNumber n).present = tally.present ∧ (tally.addNumber n).least = tally.least ∧
      (tally.addNumber n).greatest = tally.greatest ∧
      (tally.addNumber n).numbers = tally.numbers + 1 ∧
      (tally.addNumber n).realSum = tally.realSum.add n.toBinary64 := by
  unfold addNumber
  cases n.signed? with
  | some i => exact addWhole_kept _ i
  | none => exact ⟨rfl, rfl, rfl, rfl, rfl⟩

/-- A value other than `null` is counted and compared with both extremes. -/
theorem push_of_ne_null {v : Json} (h : v ≠ .null) :
    (tally.push v).present = tally.present + 1 ∧
      (tally.push v).least = extreme .lt tally.least v ∧
      (tally.push v).greatest = extreme .gt tally.greatest v := by
  cases v with
  | null => exact absurd rfl h
  | number n =>
    obtain ⟨hpresent, hleast, hgreatest, -⟩ := tally.addNumber_kept n
    exact ⟨congrArg (· + 1) hpresent, congrArg (extreme .lt · _) hleast,
      congrArg (extreme .gt · _) hgreatest⟩
  | bool | string | array | object => exact ⟨rfl, rfl, rfl⟩

theorem push_number (n : Number) :
    (tally.push (.number n)).numbers = tally.numbers + 1 ∧
      (tally.push (.number n)).realSum = tally.realSum.add n.toBinary64 :=
  (tally.addNumber_kept n).2.2.2

theorem push_of_no_number {v : Json} (h : v.numeric? = none) :
    (tally.push v).numbers = tally.numbers ∧ (tally.push v).realSum = tally.realSum := by
  cases v with
  | number n => cases h
  | null | bool | string | array | object => exact ⟨rfl, rfl⟩

theorem ofValues_concat (values : List Json) (v : Json) :
    ofValues (values ++ [v]) = (ofValues values).push v := by
  rw [ofValues, List.foldl_append]
  rfl

/-- What a tally holds of the values, one after the other, with `null` passed over. -/
theorem ofValues_nonNull (values : List Json) :
    (ofValues values).present = (nonNull values).length ∧
      (ofValues values).least = (nonNull values).foldl (extreme .lt) none ∧
      (ofValues values).greatest = (nonNull values).foldl (extreme .gt) none := by
  induction values using List.reverseRecOn with
  | nil => exact ⟨rfl, rfl, rfl⟩
  | append_singleton values v ih =>
    obtain ⟨hcount, hleast, hgreatest⟩ := ih
    rw [ofValues_concat, nonNull, List.filter_append]
    by_cases hv : v = .null
    · subst hv
      rw [List.filter_cons_of_neg (by simp), List.filter_nil, List.append_nil]
      exact ⟨hcount, hleast, hgreatest⟩
    · obtain ⟨hc, hl, hg⟩ := (ofValues values).push_of_ne_null hv
      rw [List.filter_cons_of_pos (by simpa using hv), List.filter_nil, List.length_append,
        List.foldl_append, List.foldl_append, hc, hl, hg, hcount, hleast, hgreatest]
      exact ⟨rfl, rfl, rfl⟩

theorem ofValues_numbers (values : List Json) :
    (ofValues values).numbers = (values.filterMap numeric?).length ∧
      (ofValues values).realSum = (values.filterMap numeric?).foldl Binary64.add Binary64.zero := by
  induction values using List.reverseRecOn with
  | nil => exact ⟨rfl, rfl⟩
  | append_singleton values v ih =>
    obtain ⟨hnumbers, hsum⟩ := ih
    rw [ofValues_concat, List.filterMap_append]
    cases hv : v.numeric? with
    | none =>
      obtain ⟨hn, hs⟩ := (ofValues values).push_of_no_number hv
      rw [hn, hs, List.filterMap_cons_none hv, List.filterMap_nil, List.append_nil]
      exact ⟨hnumbers, hsum⟩
    | some x =>
      match v, hv with
      | .number n, rfl =>
        obtain ⟨hn, hs⟩ := (ofValues values).push_number n
        rw [hn, hs, hnumbers, hsum, List.length_append, List.foldl_append]
        exact ⟨rfl, rfl⟩

/-! ## Extremes -/

/-- A value of a list that lies beyond all before it and that none behind it lies beyond. -/
def Foremost (beyond : Ordering) (values : List Json) (v : Json) : Prop :=
  ∃ before after, values = before ++ v :: after ∧ (∀ u ∈ before, v.order u = beyond) ∧
    ∀ u ∈ after, u.order v ≠ beyond

/-- One more value either lies beyond the foremost one, and then beyond all, or does not. -/
theorem Foremost.concat {beyond : Ordering} (hb : beyond ≠ .eq) {values : List Json} {c : Json}
    (h : Foremost beyond values c) (v : Json) :
    ∃ d, extreme beyond (some c) v = some d ∧ Foremost beyond (values ++ [v]) d := by
  obtain ⟨before, after, rfl, hbefore, hafter⟩ := h
  unfold extreme
  by_cases hv : v.order c = beyond
  · refine ⟨v, if_pos (beq_iff_eq.mpr hv), before ++ c :: after, [], rfl, fun u hu => ?_, nofun⟩
    rcases List.mem_append.mp hu with hu | hu
    · exact order_beyond_trans hv (hbefore u hu) hb
    · rcases List.mem_cons.mp hu with rfl | hu
      · exact hv
      · exact order_of_not_beyond hv (hafter u hu) hb
  · refine ⟨c, if_neg fun h => hv (beq_iff_eq.mp h), before, after ++ [v], by simp, hbefore,
      fun u hu => ?_⟩
    rcases List.mem_append.mp hu with hu | hu
    · exact hafter u hu
    · rw [List.mem_singleton.mp hu]
      exact hv

/-- The comparisons one after the other find the foremost value. -/
theorem foremost_foldl {beyond : Ordering} (hb : beyond ≠ .eq) (values : List Json) :
    (values = [] ∧ values.foldl (extreme beyond) none = none) ∨
      ∃ v, values.foldl (extreme beyond) none = some v ∧ Foremost beyond values v := by
  induction values using List.reverseRecOn with
  | nil => exact .inl ⟨rfl, rfl⟩
  | append_singleton values v ih =>
    rw [List.foldl_append, List.foldl_cons, List.foldl_nil]
    rcases ih with ⟨rfl, hnone⟩ | ⟨c, hsome, hc⟩
    · rw [hnone]
      exact .inr ⟨v, rfl, [], [], rfl, nofun, nofun⟩
    · rw [hsome]
      exact .inr (hc.concat hb v)

/-- The least value is the earliest one that no other precedes. -/
theorem least_ofValues (values : List Json) :
    IsEarliest (fun v => ∀ w ∈ nonNull values, ¬ w.Precedes v) (nonNull values)
      ((ofValues values).result .min) := by
  show IsEarliest _ _ ((ofValues values).least.getD .null)
  rw [(ofValues_nonNull values).2.1]
  rcases foremost_foldl (show Ordering.lt ≠ .eq by decide) (nonNull values) with
    ⟨hnil, hnone⟩ | ⟨v, hsome, before, after, hsplit, hbefore, hafter⟩
  · rw [hnone]
    exact .inl ⟨hnil, rfl⟩
  · rw [hsome]
    refine .inr ⟨before, after, hsplit, fun w hw hlt => ?_, fun u hu hall => ?_⟩
    · rw [hsplit] at hw
      rcases List.mem_append.mp hw with hw | hw
      · exact Std.OrientedCmp.not_lt_of_lt (hbefore w hw) hlt
      · rcases List.mem_cons.mp hw with rfl | hw
        · exact absurd (hlt.symm.trans Std.ReflCmp.compare_self) (by decide)
        · exact hafter w hw hlt
    · exact hall v (by rw [hsplit]; simp) (hbefore u hu)

/-- The greatest value is the earliest one that precedes no other. -/
theorem greatest_ofValues (values : List Json) :
    IsEarliest (fun v => ∀ w ∈ nonNull values, ¬ v.Precedes w) (nonNull values)
      ((ofValues values).result .max) := by
  show IsEarliest _ _ ((ofValues values).greatest.getD .null)
  rw [(ofValues_nonNull values).2.2]
  rcases foremost_foldl (show Ordering.gt ≠ .eq by decide) (nonNull values) with
    ⟨hnil, hnone⟩ | ⟨v, hsome, before, after, hsplit, hbefore, hafter⟩
  · rw [hnone]
    exact .inl ⟨hnil, rfl⟩
  · rw [hsome]
    refine .inr ⟨before, after, hsplit, fun w hw hlt => ?_, fun u hu hall => ?_⟩
    · rw [hsplit] at hw
      rcases List.mem_append.mp hw with hw | hw
      · exact absurd (hlt.symm.trans (hbefore w hw)) (by decide)
      · rcases List.mem_cons.mp hw with rfl | hw
        · exact absurd (hlt.symm.trans Std.ReflCmp.compare_self) (by decide)
        · exact hafter w hw (Std.OrientedCmp.gt_of_lt hlt)
    · exact hall v (by rw [hsplit]; simp) (Std.OrientedCmp.lt_of_gt (hbefore u hu))

theorem count_ofValues (values : List Json) :
    (ofValues values).result .count = Json.nat (nonNull values).length :=
  congrArg Json.nat (ofValues_nonNull values).1

theorem average_ofValues (values : List Json) :
    (ofValues values).result .avg = mean (values.filterMap numeric?) := by
  obtain ⟨hnumbers, hsum⟩ := ofValues_numbers values
  rw [result, hnumbers, hsum]
  cases values.filterMap numeric? with
  | nil => rfl
  | cons x xs => exact if_neg (Nat.succ_ne_zero _)

end Tally

end Bulletin
