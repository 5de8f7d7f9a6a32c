import Bulletin.Proofs.Comparisons
import Bulletin.Proofs.NearestDoubles
import Bulletin.Proofs.Tallies

/-!
# Comparing whole numbers

Whole numbers are kept exactly and compared as doubles. So two of them are compared rightly unless
they share a double; then they are equal to every comparison, and the extremes of a group are the
first of the numbers that share the double of the true one.

* `Json.order_int` — the order of two whole numbers
* `FilterOperator.holds_int` — the operators of a filter
* `Json.IsEarliest.takenFor` — the extremes of a group
* `whole_numbers_compared` — all of them
-/

namespace Bulletin

open Binary64 (Merged nearestUnits nearestUnits_mono ofInt_eq_iff scaled_ofInt)

namespace Json

variable {a b k n : Int} {ns : List Int} {result : Json}

/-! ## Two numbers -/

theorem int_of_fits (h : FitsWord n) : int n = .number (.int n h) := dif_pos h

theorem int_inj (ha : FitsWord a) (hb : FitsWord b) (h : int a = int b) : a = b := by
  rw [int_of_fits ha, int_of_fits hb] at h
  simpa using h

theorem order_eq_compare_nearestUnits (ha : FitsWord a) (hb : FitsWord b) :
    (int a).order (int b) = compare (nearestUnits a) (nearestUnits b) := by
  obtain ⟨x, hx, hxa⟩ := scaled_ofInt ha
  obtain ⟨y, hy, hyb⟩ := scaled_ofInt hb
  have hx' : (Number.int a ha).toBinary64 = .finite x := hx
  have hy' : (Number.int b hb).toBinary64 = .finite y := hy
  rw [int_of_fits ha, int_of_fits hb, order, hx', hy', ← hxa, ← hyb]
  rfl

/-- Whole numbers are compared rightly, unless they share a double. -/
theorem order_int (ha : FitsWord a) (hb : FitsWord b) :
    (int a).order (int b) = if Merged a b then .eq else compare a b := by
  rw [order_eq_compare_nearestUnits ha hb]
  split
  · next h => rw [(ofInt_eq_iff ha hb).mp h.shared, compare_eq_iff_eq]
  · next h =>
    have hne : a ≠ b → nearestUnits a ≠ nearestUnits b := fun hab hunits =>
      h ⟨hab, (ofInt_eq_iff ha hb).mpr hunits⟩
    rcases Int.lt_trichotomy a b with hlt | rfl | hgt
    · have hle := nearestUnits_mono (Int.le_of_lt hlt)
      have hunits := hne (Int.ne_of_lt hlt)
      rw [compare_lt_iff_lt.mpr hlt, compare_lt_iff_lt]
      omega
    · rw [compare_eq_iff_eq.mpr rfl, compare_eq_iff_eq.mpr rfl]
    · have hle := nearestUnits_mono (Int.le_of_lt hgt)
      have hunits := hne (Int.ne_of_gt hgt)
      rw [compare_gt_iff_gt.mpr hgt, compare_gt_iff_gt]
      omega

theorem equal_int (ha : FitsWord a) (hb : FitsWord b) :
    (int a).equal (int b) = true ↔ a = b ∨ Merged a b := by
  have hscalar : (int a).IsScalar := by
    rw [int_of_fits ha]
    trivial
  rw [← order_eq_eq_iff hscalar, order_int ha hb]
  split
  · next h => simp [h]
  · next h => simp [h]

theorem comparable_int (ha : FitsWord a) (hb : FitsWord b) : Comparable (int a) (int b) := by
  rw [int_of_fits ha, int_of_fits hb]
  exact .numbers _ _

end Json

namespace FilterOperator

variable {a b : Int}

/-- What an operator says of whole numbers. -/
def Relates (a b : Int) : FilterOperator → Prop
  | .equals => a = b
  | .greaterThan => b < a
  | .lessThan => a < b

instance (a b : Int) (operator : FilterOperator) : Decidable (operator.Relates a b) :=
  match operator with
  | .equals => inferInstanceAs (Decidable (a = b))
  | .greaterThan => inferInstanceAs (Decidable (b < a))
  | .lessThan => inferInstanceAs (Decidable (a < b))

theorem relates_iff (operator : FilterOperator) :
    operator.Relates a b ↔ operator = named (compare a b) := by
  rcases Int.lt_trichotomy a b with hlt | rfl | hgt
  · rw [compare_lt_iff_lt.mpr hlt]
    cases operator <;> simp [Relates, named] <;> omega
  · rw [compare_eq_iff_eq.mpr rfl]
    cases operator <;> simp [Relates, named]
  · rw [compare_gt_iff_gt.mpr hgt]
    cases operator <;> simp [Relates, named] <;> omega

/-- An operator answers as the whole numbers compare, unless they share a double and pass for
equal. -/
theorem holds_int (ha : Json.FitsWord a) (hb : Json.FitsWord b) (operator : FilterOperator) :
    operator.holds (.int a) (.int b) = true ↔
      if Merged a b then operator = .equals else operator.Relates a b := by
  rw [holds_iff (Json.comparable_int ha hb), Json.order_int ha hb]
  split
  · rfl
  · exact (relates_iff operator).symm

end FilterOperator

namespace Json

variable {k n : Int} {ns : List Int} {result : Json}

/-! ## Extremes -/

/-- The result of an extreme of whole numbers of which `k` is the true one: the first number that
is `k` or shares its double. -/
structure TakenFor (k : Int) (ns : List Int) (result : Json) : Prop where
  first : ∃ m, ns.find? (fun n => n = k ∨ Merged n k) = some m ∧ result = int m
  /-- it is `k` if no number in front of `k` shares its double -/
  right_iff : result = int k ↔ ∀ n ∈ ns.takeWhile (· ≠ k), ¬ Merged n k

/-- The first of the numbers that pass for `k`. -/
theorem IsEarliest.takenFor {p : Json → Prop} (h : IsEarliest p (ns.map int) result)
    (hfits : ∀ n ∈ ns, FitsWord n) (hk : k ∈ ns)
    (hp : ∀ n ∈ ns, p (int n) ↔ n = k ∨ Merged n k) : TakenFor k ns result := by
  rcases h with ⟨hnil, -⟩ | ⟨before, after, hsplit, hresult, hbefore⟩
  · rw [List.map_eq_nil_iff.mp hnil] at hk
    cases hk
  · obtain ⟨front, rest, rfl, rfl, hrest⟩ := List.map_eq_append_iff.mp hsplit
    obtain ⟨m, back, rfl, rfl, rfl⟩ := List.map_eq_cons_iff.mp hrest
    have hm : m = k ∨ Merged m k := (hp m (by simp)).mp hresult
    have hfront : ∀ n ∈ front, ¬ (n = k ∨ Merged n k) := fun n hn hpasses =>
      hbefore (int n) (List.mem_map_of_mem hn) ((hp n (List.mem_append_left _ hn)).mpr hpasses)
    have hne : ∀ n ∈ front, decide (n ≠ k) = true := fun n hn =>
      decide_eq_true fun heq => hfront n hn (.inl heq)
    refine ⟨⟨m, ?_, rfl⟩, ?_⟩
    · rw [List.find?_append, List.find?_eq_none.mpr (by simpa using hfront), Option.none_or,
        List.find?_cons_of_pos (by simpa using hm)]
    · rw [List.takeWhile_append_of_pos hne]
      constructor
      · intro heq
        obtain rfl := int_inj (hfits m (by simp)) (hfits k hk) heq
        simp only [ne_eq, not_true_eq_false, decide_false, Bool.false_eq_true,
          not_false_eq_true, List.takeWhile_cons_of_neg, List.append_nil]
        exact fun n hn hmerged => hfront n hn (.inr hmerged)
      · intro hunmerged
        by_cases hmk : m = k
        · rw [hmk]
        · -- the number in the place of `k` stands in front of it
          refine absurd (hm.resolve_left hmk) (hunmerged m ?_)
          simp [List.takeWhile_cons_of_pos, hmk]

/-- Numbers pass for one another if they have one count of units. -/
theorem passes_iff (hn : FitsWord n) (hk : FitsWord k) :
    n = k ∨ Merged n k ↔ nearestUnits n = nearestUnits k := by
  rw [← ofInt_eq_iff hn hk]
  constructor
  · rintro (rfl | hmerged)
    · rfl
    · exact hmerged.shared
  · exact fun hshared => or_iff_not_imp_left.mpr fun hne => ⟨hne, hshared⟩

theorem precedes_int (ha : FitsWord a) (hb : FitsWord b) :
    (int a).Precedes (int b) ↔ nearestUnits a < nearestUnits b := by
  rw [Precedes, order_eq_compare_nearestUnits ha hb, compare_lt_iff_lt]

variable {values : List Json}

/-- The first of the numbers that none of the others comes before passes for the number that comes
first, if numbers of one double come together. -/
theorem IsEarliest.takenFor_foremost {before : Json → Json → Prop}
    (h : IsEarliest (fun v => ∀ w ∈ ns.map int, ¬ before w v) (ns.map int) result)
    (hfits : ∀ n ∈ ns, FitsWord n) (hk : k ∈ ns) (place : Int → Int)
    (hbefore : ∀ m ∈ ns, ∀ n ∈ ns, before (int m) (int n) ↔ place m < place n)
    (hplace : ∀ n, place n = place k ↔ nearestUnits n = nearestUnits k)
    (hforemost : ∀ n ∈ ns, place k ≤ place n) : TakenFor k ns result := by
  refine h.takenFor hfits hk fun n hn => ?_
  rw [passes_iff (hfits n hn) (hfits k hk), ← hplace]
  constructor
  · intro hall
    have hnot := hall (int k) (List.mem_map_of_mem hk)
    rw [hbefore k hk n hn] at hnot
    have hle := hforemost n hn
    omega
  · intro hsame w hw hlt
    obtain ⟨m, hm, rfl⟩ := List.mem_map.mp hw
    rw [hbefore m hm n hn] at hlt
    have hle := hforemost m hm
    omega

theorem takenFor_least (hvalues : nonNull values = ns.map int) (hfits : ∀ n ∈ ns, FitsWord n)
    (hk : k ∈ ns) (hleast : ∀ n ∈ ns, k ≤ n) :
    TakenFor k ns ((Tally.ofValues values).result .min) := by
  have h := Tally.least_ofValues values
  rw [hvalues] at h
  refine h.takenFor_foremost hfits hk nearestUnits ?_ (fun n => Iff.rfl) ?_
  · exact fun m hm n hn => precedes_int (hfits m hm) (hfits n hn)
  · exact fun n hn => nearestUnits_mono (hleast n hn)

theorem takenFor_greatest (hvalues : nonNull values = ns.map int) (hfits : ∀ n ∈ ns, FitsWord n)
    (hk : k ∈ ns) (hgreatest : ∀ n ∈ ns, n ≤ k) :
    TakenFor k ns ((Tally.ofValues values).result .max) := by
  have h := Tally.greatest_ofValues values
  rw [hvalues] at h
  refine h.takenFor_foremost hfits hk (fun n => -nearestUnits n) ?_ ?_ ?_
  · intro m hm n hn
    rw [precedes_int (hfits n hn) (hfits m hm)]
    omega
  · intro n
    omega
  · intro n hn
    have := nearestUnits_mono (hgreatest n hn)
    omega

end Json

open Json (int FitsWord nonNull TakenFor)

/-- **Comparing whole numbers.** Take whole numbers that fit a signed or an unsigned word.

* Two of them are merged if they differ and share a double. Then both lie at `2 ^ 53` or beyond,
  and they are at most `2 ^ 11` apart.
* Numbers that are merged are equal to the order, to equality and to the operators of a filter. All
  others compare as whole numbers do.
* Among whole numbers and nulls, the least and the greatest value of a group are the first number
  that is the true one or merged with it. It is the true one if and only if no number in front of
  the true one is merged with it. -/
theorem whole_numbers_compared (a b : Int) (ha : FitsWord a) (hb : FitsWord b) :
    (Merged a b →
      2 ^ (53 : Nat) ≤ a.natAbs ∧ 2 ^ (53 : Nat) ≤ b.natAbs ∧ (a - b).natAbs ≤ 2 ^ (11 : Nat)) ∧
    (int a).order (int b) = (if Merged a b then .eq else compare a b) ∧
    ((int a).equal (int b) = true ↔ a = b ∨ Merged a b) ∧
    (∀ operator : FilterOperator, operator.holds (int a) (int b) = true ↔
      if Merged a b then operator = .equals else operator.Relates a b) ∧
    ∀ values ns, nonNull values = ns.map int → (∀ n ∈ ns, FitsWord n) → ∀ k ∈ ns,
      ((∀ n ∈ ns, k ≤ n) → TakenFor k ns ((Tally.ofValues values).result .min)) ∧
        ((∀ n ∈ ns, n ≤ k) → TakenFor k ns ((Tally.ofValues values).result .max)) := by
  refine ⟨fun hmerged => ?_, Json.order_int ha hb, Json.equal_int ha hb,
    FilterOperator.holds_int ha hb, fun values ns hvalues hfits k hk => ?_⟩
  · obtain ⟨hla, hlb⟩ := hmerged.large ha hb
    exact ⟨hla, hlb, hmerged.close ha hb⟩
  · exact ⟨Json.takenFor_least hvalues hfits hk, Json.takenFor_greatest hvalues hfits hk⟩

/-- A row without a number, two numbers with one double, and a number with a double of its own. -/
theorem whole_numbers_compared_of_neighbours :
    let values := [Json.int 9007199254740993, .null, .int 9007199254740992, .int 9007199254740994]
    FitsWord 9007199254740993 ∧ FitsWord 9007199254740994 ∧
      nonNull values = [9007199254740993, 9007199254740992, 9007199254740994].map int ∧
      (int 9007199254740993).order (int 9007199254740994) = .lt ∧
      (Tally.ofValues values).result .min ≠ int 9007199254740992 ∧
      (Tally.ofValues values).result .max = int 9007199254740994 := by
  intro values
  obtain ⟨-, horder, -, -, hextremes⟩ :=
    whole_numbers_compared 9007199254740993 9007199254740994 (by decide) (by decide)
  have hfits : ∀ n ∈ [(9007199254740993 : Int), 9007199254740992, 9007199254740994],
      FitsWord n := by decide
  have hvalues : nonNull values
      = [9007199254740993, 9007199254740992, 9007199254740994].map int := by decide
  have hleast := (hextremes values _ hvalues hfits 9007199254740992 (by decide)).1 (by decide)
  have hgreatest := (hextremes values _ hvalues hfits 9007199254740994 (by decide)).2 (by decide)
  refine ⟨by decide, by decide, hvalues, ?_, ?_, ?_⟩
  · rw [horder]
    decide +kernel
  · rw [ne_eq, hleast.right_iff]
    decide +kernel
  · rw [hgreatest.right_iff]
    decide +kernel

/-- The least pair of positive whole numbers that pass for one: the order, equality and an operator
miss that the one is greater, and the greatest of the two comes out as the smaller one. -/
theorem neighbours_taken_for_one :
    FitsWord 9007199254740992 ∧ FitsWord 9007199254740993 ∧
      (int 9007199254740992).order (int 9007199254740993) = .eq ∧
      (int 9007199254740992).equal (int 9007199254740993) = true ∧
      FilterOperator.greaterThan.holds (int 9007199254740993) (int 9007199254740992) = false ∧
      (Tally.ofValues [int 9007199254740992, int 9007199254740993]).result .max
        = int 9007199254740992 := by
  decide +kernel

end Bulletin
