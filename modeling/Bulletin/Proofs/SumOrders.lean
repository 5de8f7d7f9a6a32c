import Bulletin.Proofs.Sums
import Mathlib.Algebra.Order.BigOperators.Group.List
import Mathlib.Data.List.Perm.Basic

/-!
# Sums of reordered rows

The partial sums of signed words depend on the order of the rows, and with them whether the sum
comes out as a whole number. Every partial sum in every order lies between the sum of the negative
numbers and the sum of the positive ones, and both bounds are partial sums of some order. If the
total fits, there is an order in which all partial sums fit: next comes a number that draws the sum
towards zero, as long as there is one.

* `forall_perm_fit_iff` — when all partial sums fit in every order
* `exists_perm_fit_iff` — when they fit in some order
* `sum_of_orders` — the sums of all orders
-/

namespace Bulletin

open Json (FitsSigned IsWhole Number PartialSumsFit number? numbersAmong partialSumsFit_iff
  signedNumbers? sumOfDoubles)

/-! ## Partial sums of all orders -/

/-- The sum of the positive ones of some numbers. -/
def positiveTotal (ns : List Int) : Int := (ns.filter (0 < ·)).sum

/-- The sum of the negative ones of some numbers. -/
def negativeTotal (ns : List Int) : Int := (ns.filter (· < 0)).sum

variable {ns ns' before : List Int} {s k : Int}

theorem fitsSigned_of_between {a b : Int} (ha : FitsSigned a) (hb : FitsSigned b) (hak : a ≤ k)
    (hkb : k ≤ b) : FitsSigned k :=
  ⟨Int.le_trans ha.1 hak, Int.lt_of_le_of_lt hkb hb.2⟩

theorem sum_nonpos (h : ∀ k ∈ ns, k ≤ 0) : ns.sum ≤ 0 := by
  simpa using List.sum_le_card_nsmul ns 0 h

theorem totals_bound (ns : List Int) : negativeTotal ns ≤ ns.sum ∧ ns.sum ≤ positiveTotal ns := by
  have hpos := (List.filter_append_perm (0 < ·) ns).sum_eq
  have hneg := (List.filter_append_perm (· < 0) ns).sum_eq
  rw [List.sum_append] at hpos hneg
  have hlow : 0 ≤ (ns.filter fun k => !decide (k < 0)).sum :=
    List.sum_nonneg fun k hk => by simpa using (List.mem_filter.mp hk).2
  have hhigh : (ns.filter fun k => !decide (0 < k)).sum ≤ 0 :=
    sum_nonpos fun k hk => by simpa using (List.mem_filter.mp hk).2
  unfold negativeTotal positiveTotal
  omega

theorem totals_prefix (h : before <+: ns) :
    negativeTotal ns ≤ negativeTotal before ∧ positiveTotal before ≤ positiveTotal ns := by
  obtain ⟨after, rfl⟩ := h
  simp only [negativeTotal, positiveTotal, List.filter_append, List.sum_append]
  have hpos : 0 ≤ (after.filter (0 < ·)).sum :=
    List.sum_nonneg fun k hk => Int.le_of_lt (of_decide_eq_true (List.mem_filter.mp hk).2)
  have hneg : (after.filter (· < 0)).sum ≤ 0 :=
    sum_nonpos fun k hk => Int.le_of_lt (of_decide_eq_true (List.mem_filter.mp hk).2)
  omega

theorem totals_perm (h : ns'.Perm ns) :
    negativeTotal ns' = negativeTotal ns ∧ positiveTotal ns' = positiveTotal ns :=
  ⟨(h.filter _).sum_eq, (h.filter _).sum_eq⟩

/-- With the numbers that are chosen in front, their sum is a partial sum. -/
theorem fits_of_forall_perm (h : ∀ ns', ns'.Perm ns → PartialSumsFit ns') (p : Int → Bool) :
    FitsSigned (ns.filter p).sum :=
  partialSumsFit_iff.mp (h _ (List.filter_append_perm p ns)) _ (List.prefix_append _ _)

/-- The partial sums fit in every order if and only if the positive numbers and the negative ones
do by themselves. -/
theorem forall_perm_fit_iff :
    (∀ ns', ns'.Perm ns → PartialSumsFit ns') ↔
      FitsSigned (negativeTotal ns) ∧ FitsSigned (positiveTotal ns) := by
  constructor
  · exact fun h => ⟨fits_of_forall_perm h _, fits_of_forall_perm h _⟩
  · rintro ⟨hneg, hpos⟩ ns' hperm
    refine partialSumsFit_iff.mpr fun before hbefore => ?_
    obtain ⟨hlow, hhigh⟩ := totals_bound before
    obtain ⟨hlow', hhigh'⟩ := totals_prefix hbefore
    obtain ⟨hlow'', hhigh''⟩ := totals_perm hperm
    exact fitsSigned_of_between hneg hpos (by omega) (by omega)

/-- From a sum that fits some number leads to a sum that fits, if the last sum does. -/
theorem exists_mem_fits (hns : ∀ k ∈ ns, FitsSigned k) (hne : ns ≠ []) (hs : FitsSigned s)
    (htotal : FitsSigned (s + ns.sum)) : ∃ k ∈ ns, FitsSigned (s + k) := by
  by_cases hback : ∃ k ∈ ns, (0 ≤ s ∧ k ≤ 0) ∨ (s ≤ 0 ∧ 0 ≤ k)
  · -- a number that draws the sum towards zero does not lead out of the range
    obtain ⟨k, hk, hsign⟩ := hback
    refine ⟨k, hk, ?_⟩
    rcases hsign with ⟨hs0, hk0⟩ | ⟨hs0, hk0⟩
    · exact ⟨by have := (hns k hk).1; omega, by have := hs.2; omega⟩
    · exact ⟨by have := hs.1; omega, by have := (hns k hk).2; omega⟩
  · -- all numbers lead on to the last sum
    have haway : ∀ k ∈ ns, (0 ≤ s → 0 < k) ∧ (s ≤ 0 → k < 0) := fun k hk => by
      constructor
      · exact fun hs0 => Int.lt_of_not_ge fun hk0 => hback ⟨k, hk, .inl ⟨hs0, hk0⟩⟩
      · exact fun hs0 => Int.lt_of_not_ge fun hk0 => hback ⟨k, hk, .inr ⟨hs0, hk0⟩⟩
    cases ns with
    | nil => exact absurd rfl hne
    | cons k rest =>
      refine ⟨k, List.mem_cons_self, ?_⟩
      have hk := haway k List.mem_cons_self
      rw [List.sum_cons] at htotal
      rcases Int.le_total 0 s with hs0 | hs0
      · have hrest : 0 ≤ rest.sum := List.sum_nonneg fun j hj =>
          Int.le_of_lt ((haway j (List.mem_cons_of_mem _ hj)).1 hs0)
        have hk0 := hk.1 hs0
        exact fitsSigned_of_between hs htotal (by omega) (by omega)
      · have hrest : rest.sum ≤ 0 := sum_nonpos fun j hj =>
          Int.le_of_lt ((haway j (List.mem_cons_of_mem _ hj)).2 hs0)
        have hk0 := hk.2 hs0
        exact fitsSigned_of_between htotal hs (by omega) (by omega)

/-- From a sum that fits there is an order in which all sums fit, if the last one does. -/
theorem exists_perm_sums_fit (hns : ∀ k ∈ ns, FitsSigned k) (hs : FitsSigned s)
    (htotal : FitsSigned (s + ns.sum)) :
    ∃ ns', ns'.Perm ns ∧ ∀ before, before <+: ns' → FitsSigned (s + before.sum) := by
  induction hlength : ns.length generalizing ns s with
  | zero =>
    rw [List.length_eq_zero_iff] at hlength
    refine ⟨[], by rw [hlength], fun before hbefore => ?_⟩
    rw [List.prefix_nil.mp hbefore]
    simpa using hs
  | succ length ih =>
    have hne : ns ≠ [] := by
      rintro rfl
      cases hlength
    obtain ⟨k, hk, hfits⟩ := exists_mem_fits hns hne hs htotal
    have hperm := List.perm_cons_erase hk
    have hsum : s + k + (ns.erase k).sum = s + ns.sum := by
      rw [hperm.sum_eq, List.sum_cons]
      omega
    have hshorter : (ns.erase k).length = length := by
      rw [List.length_erase_of_mem hk, hlength, Nat.add_sub_cancel]
    obtain ⟨ns', hperm', hsums⟩ :=
      ih (fun j hj => hns j (List.mem_of_mem_erase hj)) hfits (hsum ▸ htotal) hshorter
    refine ⟨k :: ns', (hperm'.cons k).trans hperm.symm, fun before hbefore => ?_⟩
    rcases List.prefix_cons_iff.mp hbefore with rfl | ⟨front, rfl, hfront⟩
    · simpa using hs
    · rw [List.sum_cons, ← Int.add_assoc]
      exact hsums front hfront

/-- The partial sums fit in some order if and only if the total does. -/
theorem exists_perm_fit_iff (hns : ∀ k ∈ ns, FitsSigned k) :
    (∃ ns', ns'.Perm ns ∧ PartialSumsFit ns') ↔ FitsSigned ns.sum := by
  constructor
  · rintro ⟨ns', hperm, hfit⟩
    exact hperm.sum_eq ▸ hfit.total
  · intro htotal
    have hzero : FitsSigned 0 := by decide
    obtain ⟨ns', hperm, hsums⟩ := exists_perm_sums_fit hns hzero (by rwa [Int.zero_add])
    refine ⟨ns', hperm, partialSumsFit_iff.mpr fun before hbefore => ?_⟩
    simpa using hsums before hbefore

/-! ## The numbers of reordered rows -/

variable {values values' : List Json}

theorem mapM_eq_some_iff {α β : Type} {f : α → Option β} {l : List α} {l' : List β} :
    l.mapM f = some l' ↔ (∀ a ∈ l, (f a).isSome) ∧ l.filterMap f = l' := by
  induction l generalizing l' with
  | nil => simp
  | cons a l ih =>
    cases ha : f a with
    | none => simp [ha]
    | some b =>
      have hcons : (a :: l).mapM f = some l' ↔ ∃ m, l.mapM f = some m ∧ b :: m = l' := by
        simp [List.mapM_cons, ha, Option.bind_eq_some_iff]
      rw [hcons, List.forall_mem_cons, List.filterMap_cons_some ha]
      simp [ih, ha, and_assoc]

theorem signedNumbers?_eq_some_iff :
    signedNumbers? values = some ns ↔
      (∀ n ∈ numbersAmong values, n.signed?.isSome) ∧
        (numbersAmong values).filterMap Number.signed? = ns :=
  mapM_eq_some_iff

theorem number_eq_int {n : Number} (h : n.signed? = some k) :
    FitsSigned k ∧ Json.number n = .int k := by
  cases n with
  | real x => cases h
  | int j fits =>
    rw [Number.signed?] at h
    split at h
    · next hfits =>
      cases h
      exact ⟨hfits, by rw [Json.int, dif_pos fits]⟩
    · cases h

theorem fitsSigned_of_signedNumbers? (h : signedNumbers? values = some ns) :
    ∀ k ∈ ns, FitsSigned k := by
  intro k hk
  rw [← (signedNumbers?_eq_some_iff.mp h).2] at hk
  obtain ⟨n, -, hn⟩ := List.mem_filterMap.mp hk
  exact (number_eq_int hn).1

/-- Reordered values hold the same numbers in another order. -/
theorem exists_signedNumbers?_of_perm (h : signedNumbers? values = some ns)
    (hperm : values'.Perm values) : ∃ ns', ns'.Perm ns ∧ signedNumbers? values' = some ns' := by
  obtain ⟨hsigned, rfl⟩ := signedNumbers?_eq_some_iff.mp h
  have hnumbers : (numbersAmong values').Perm (numbersAmong values) := hperm.filterMap _
  refine ⟨_, hnumbers.filterMap _, signedNumbers?_eq_some_iff.mpr ⟨fun n hn => ?_, rfl⟩⟩
  exact hsigned n (hnumbers.mem_iff.mp hn)

/-- The values that are numbers, in their order. -/
theorem map_int_eq_filter (h : signedNumbers? values = some ns) :
    ns.map .int = values.filter fun v => v.number?.isSome := by
  obtain ⟨hsigned, rfl⟩ := signedNumbers?_eq_some_iff.mp h
  clear h
  induction values with
  | nil => rfl
  | cons v values ih =>
    cases hv : v.number? with
    | none =>
      have hnumbers : numbersAmong (v :: values) = numbersAmong values :=
        List.filterMap_cons_none hv
      rw [hnumbers] at hsigned ⊢
      rw [ih hsigned, List.filter_cons_of_neg (by simp [hv])]
    | some n =>
      have hnumbers : numbersAmong (v :: values) = n :: numbersAmong values :=
        List.filterMap_cons_some hv
      rw [hnumbers, List.forall_mem_cons] at hsigned
      obtain ⟨k, hk⟩ := Option.isSome_iff_exists.mp hsigned.1
      have hvn : v = .number n := by
        cases v <;> cases hv
        rfl
      rw [hnumbers, List.filterMap_cons_some hk, List.map_cons, ih hsigned.2,
        List.filter_cons_of_pos (by simp [hv]), hvn, (number_eq_int hk).2]

theorem signedNumbers?_map_int (hns : ∀ k ∈ ns, FitsSigned k)
    (hvalues : ∀ v ∈ values, v.number? = none) :
    signedNumbers? (ns.map .int ++ values) = some ns := by
  induction ns with
  | nil =>
    have hnumbers : numbersAmong values = [] := List.filterMap_eq_nil_iff.mpr hvalues
    rw [List.map_nil, List.nil_append, signedNumbers?, hnumbers]
    rfl
  | cons k ns ih =>
    rw [List.forall_mem_cons] at hns
    have hk : (Json.Number.int k hns.1.fitsWord).signed? = some k := if_pos hns.1
    have hint : Json.int k = .number (.int k hns.1.fitsWord) := dif_pos hns.1.fitsWord
    have hnumbers : numbersAmong (Json.int k :: (ns.map .int ++ values))
        = .int k hns.1.fitsWord :: numbersAmong (ns.map .int ++ values) := by
      rw [hint]
      rfl
    obtain ⟨hsigned, hrest⟩ := signedNumbers?_eq_some_iff.mp (ih hns.2)
    rw [List.map_cons, List.cons_append, signedNumbers?_eq_some_iff, hnumbers,
      List.forall_mem_cons, List.filterMap_cons_some hk, hrest]
    exact ⟨⟨by rw [hk]; rfl, hsigned⟩, rfl⟩

/-- Every order of the numbers is that of some order of the values. -/
theorem exists_perm_of_signedNumbers? (h : signedNumbers? values = some ns)
    (hperm : ns'.Perm ns) :
    ∃ values', values'.Perm values ∧ signedNumbers? values' = some ns' := by
  -- the numbers first, in the order that is asked for
  refine ⟨ns'.map .int ++ values.filter fun v => !v.number?.isSome, ?_, ?_⟩
  · have hnumbers := (hperm.map Json.int).append_right
      (values.filter fun v => !v.number?.isSome)
    rw [map_int_eq_filter h] at hnumbers
    exact hnumbers.trans (List.filter_append_perm _ _)
  · refine signedNumbers?_map_int (fun k hk => ?_) fun v hv => ?_
    · exact fitsSigned_of_signedNumbers? h k (hperm.mem_iff.mp hk)
    · simpa using (List.mem_filter.mp hv).2

/-! ## Sums of all orders -/

/-- In an order the sum is the total if and only if the partial sums of this order fit. -/
theorem isWhole_total_iff (h : signedNumbers? values' = some ns') (hperm : ns'.Perm ns) :
    IsWhole ns.sum ((Tally.ofValues values').result .sum) ↔ PartialSumsFit ns' := by
  rw [Tally.isWhole_sum_iff]
  constructor
  · rintro ⟨_, hns', hfit, -⟩
    rw [h] at hns'
    cases hns'
    exact hfit
  · exact fun hfit => ⟨ns', h, hfit, hperm.sum_eq.symm⟩

theorem forall_isWhole_iff (h : signedNumbers? values = some ns) :
    (∀ values', values'.Perm values → IsWhole ns.sum ((Tally.ofValues values').result .sum)) ↔
      FitsSigned (negativeTotal ns) ∧ FitsSigned (positiveTotal ns) := by
  rw [← forall_perm_fit_iff]
  constructor
  · intro hall ns' hperm
    obtain ⟨values', hvalues, hns'⟩ := exists_perm_of_signedNumbers? h hperm
    exact (isWhole_total_iff hns' hperm).mp (hall values' hvalues)
  · intro hall values' hvalues
    obtain ⟨ns', hperm, hns'⟩ := exists_signedNumbers?_of_perm h hvalues
    exact (isWhole_total_iff hns' hperm).mpr (hall ns' hperm)

theorem exists_isWhole_iff (h : signedNumbers? values = some ns) :
    (∃ values', values'.Perm values ∧ IsWhole ns.sum ((Tally.ofValues values').result .sum)) ↔
      FitsSigned ns.sum := by
  rw [← exists_perm_fit_iff (fitsSigned_of_signedNumbers? h)]
  constructor
  · rintro ⟨values', hvalues, hwhole⟩
    obtain ⟨ns', hperm, hns'⟩ := exists_signedNumbers?_of_perm h hvalues
    exact ⟨ns', hperm, (isWhole_total_iff hns' hperm).mp hwhole⟩
  · rintro ⟨ns', hperm, hfit⟩
    obtain ⟨values', hvalues, hns'⟩ := exists_perm_of_signedNumbers? h hperm
    exact ⟨values', hvalues, (isWhole_total_iff hns' hperm).mpr hfit⟩

/-- In an order whose partial sums do not fit the doubles count. -/
theorem sum_of_order_not_fit (h : signedNumbers? values' = some ns')
    (hfit : ¬ PartialSumsFit ns') :
    (Tally.ofValues values').result .sum = .real (sumOfDoubles (numbersAmong values')) := by
  refine Tally.sum_of_not_fit ?_
  rw [h]
  rintro _ ⟨⟩
  exact hfit

theorem fitsSigned_sum (hneg : FitsSigned (negativeTotal ns))
    (hpos : FitsSigned (positiveTotal ns)) : FitsSigned ns.sum :=
  fitsSigned_of_between hneg hpos (totals_bound ns).1 (totals_bound ns).2

/-- With a total that fits, all orders have one sum if they all have the total. -/
theorem forall_sum_eq_iff_of_fits (h : signedNumbers? values = some ns)
    (htotal : FitsSigned ns.sum) :
    (∀ values', values'.Perm values →
        (Tally.ofValues values').result .sum = (Tally.ofValues values).result .sum) ↔
      FitsSigned (negativeTotal ns) ∧ FitsSigned (positiveTotal ns) := by
  rw [← forall_isWhole_iff h]
  constructor
  · -- some order has the total, and then they all have
    intro hsame values' hvalues
    obtain ⟨values'', hvalues'', hwhole⟩ := (exists_isWhole_iff h).mpr htotal
    rwa [hsame values' hvalues, ← hsame values'' hvalues'']
  · intro hall values' hvalues
    obtain ⟨_, hv⟩ := hall values (List.Perm.refl _)
    obtain ⟨_, hv'⟩ := hall values' hvalues
    rw [hv, hv']

/-- With a total that does not fit, all orders are summed as doubles. -/
theorem sum_of_total_not_fit (h : signedNumbers? values = some ns)
    (htotal : ¬ FitsSigned ns.sum) (hvalues : values'.Perm values) :
    (Tally.ofValues values').result .sum = .real (sumOfDoubles (numbersAmong values')) := by
  obtain ⟨ns', hperm, hns'⟩ := exists_signedNumbers?_of_perm h hvalues
  exact sum_of_order_not_fit hns' fun hfit => htotal (hperm.sum_eq ▸ hfit.total)

/-- **Sums of reordered rows.** Take values whose numbers are signed words.

* In every order the sum is the total as a whole number, or the double that adding the numbers in
  this order gives.
* It is the total in some order if and only if the total fits a signed word.
* It is the total in every order if and only if the negative numbers and the positive ones sum up
  to signed words by themselves.
* All orders have one sum if and only if this is so, or the total does not fit and adding doubles
  gives the same in all orders. -/
theorem sum_of_orders (values : List Json) (ns : List Int)
    (h : signedNumbers? values = some ns) :
    (∀ values', values'.Perm values →
      IsWhole ns.sum ((Tally.ofValues values').result .sum) ∨
        (Tally.ofValues values').result .sum = .real (sumOfDoubles (numbersAmong values'))) ∧
    ((∃ values', values'.Perm values ∧ IsWhole ns.sum ((Tally.ofValues values').result .sum)) ↔
      FitsSigned ns.sum) ∧
    ((∀ values', values'.Perm values → IsWhole ns.sum ((Tally.ofValues values').result .sum)) ↔
      FitsSigned (negativeTotal ns) ∧ FitsSigned (positiveTotal ns)) ∧
    ((∀ values', values'.Perm values →
        (Tally.ofValues values').result .sum = (Tally.ofValues values).result .sum) ↔
      FitsSigned (negativeTotal ns) ∧ FitsSigned (positiveTotal ns) ∨
        ¬ FitsSigned ns.sum ∧ ∀ values', values'.Perm values →
          Json.real (sumOfDoubles (numbersAmong values'))
            = .real (sumOfDoubles (numbersAmong values))) := by
  refine ⟨fun values' hvalues => ?_, exists_isWhole_iff h, forall_isWhole_iff h, ?_⟩
  · obtain ⟨ns', hperm, hns'⟩ := exists_signedNumbers?_of_perm h hvalues
    by_cases hfit : PartialSumsFit ns'
    · exact .inl ((isWhole_total_iff hns' hperm).mpr hfit)
    · exact .inr (sum_of_order_not_fit hns' hfit)
  · by_cases htotal : FitsSigned ns.sum
    · rw [forall_sum_eq_iff_of_fits h htotal]
      exact ⟨.inl, fun hor => hor.resolve_right fun hno => hno.1 htotal⟩
    · have hdoubles : ∀ values', values'.Perm values → (Tally.ofValues values').result .sum
        = .real (sumOfDoubles (numbersAmong values')) :=
      fun _ hvalues => sum_of_total_not_fit h htotal hvalues
      constructor
      · refine fun hsame => .inr ⟨htotal, fun values' hvalues => ?_⟩
        rw [← hdoubles values' hvalues, ← hdoubles values (List.Perm.refl _)]
        exact hsame values' hvalues
      · rintro (⟨hneg, hpos⟩ | ⟨-, hsame⟩) values' hvalues
        · exact absurd (fitsSigned_sum hneg hpos) htotal
        · rw [hdoubles values' hvalues, hdoubles values (List.Perm.refl _)]
          exact hsame values' hvalues

/-- The greatest signed word with one more and one less. -/
theorem sum_of_orders_of_limit :
    let values := [Json.int 9223372036854775807, .null, .int 1, .int (-1)]
    signedNumbers? values = some [9223372036854775807, 1, -1] ∧
      FitsSigned ([9223372036854775807, 1, -1] : List Int).sum ∧
      (∃ values', values'.Perm values ∧
        IsWhole 9223372036854775807 ((Tally.ofValues values').result .sum)) ∧
      ¬ ∀ values', values'.Perm values →
        (Tally.ofValues values').result .sum = (Tally.ofValues values).result .sum := by
  intro values
  obtain ⟨-, hsome, -, hsame⟩ := sum_of_orders values [9223372036854775807, 1, -1] rfl
  have htotal : FitsSigned ([9223372036854775807, 1, -1] : List Int).sum := by decide
  refine ⟨rfl, htotal, hsome.mpr htotal, ?_⟩
  rw [hsame]
  rintro (hparts | ⟨hno, -⟩)
  · revert hparts
    decide
  · exact hno htotal

/-- Two orders of three signed words whose total fits: the one gives a double, which is not the
total, and the other the total. -/
theorem sum_of_swapped_rows :
    let rows := [Json.int 9223372036854775807, .int 1, .int (-1)]
    let swapped := [Json.int 9223372036854775807, .int (-1), .int 1]
    swapped.Perm rows ∧ signedNumbers? rows = some [9223372036854775807, 1, -1] ∧
      FitsSigned ([9223372036854775807, 1, -1] : List Int).sum ∧
      (Tally.ofValues swapped).result .sum = .int 9223372036854775807 ∧
      (Tally.ofValues rows).result .sum = .real (.ofInt 9223372036854775808) := by
  refine ⟨?_, rfl, by decide, rfl, by decide +kernel⟩
  exact (List.Perm.swap _ _ _).cons _

end Bulletin
