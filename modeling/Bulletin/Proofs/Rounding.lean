import Bulletin.Number.Decimal
import Bulletin.Json.Basic

/-!
# Rounding to a double

Rounding leaves a count of units with 53 significant bits, so that only its size can keep it from
being a double. Whole numbers of 64 bits are far from the greatest double.

* `representable_roundUnits` — a rounded count that is not too large
* `roundUnits_of_representable` — a count that needs no rounding
* `Binary64.exists_finite_ofInt` — a whole number of a word
-/

namespace Bulletin

/-- At most `2 ^ 53` steps of a power of two have 53 significant bits. -/
theorem representable_mul_two_pow {m k : Nat} (hm : m ≤ 2 ^ (53 : Nat))
    (h : m * 2 ^ k < 2 ^ countBits) :
    Representable (m * 2 ^ k) := by
  refine ⟨Nat.mod_eq_zero_of_dvd ?_, h⟩
  rcases Nat.lt_or_eq_of_le hm with hlt | rfl
  · by_cases hzero : m * 2 ^ k = 0
    · rw [hzero]
      exact Nat.dvd_zero _
    · have hlog : (m * 2 ^ k).log2 < 53 + k := by
        rw [Nat.log2_lt hzero, Nat.pow_add]
        exact Nat.mul_lt_mul_of_pos_right hlt (Nat.two_pow_pos k)
      exact Nat.dvd_mul_left_of_dvd (Nat.pow_dvd_pow 2 (by omega)) m
  · -- the one count with 54 bits is a power of two
    rw [← Nat.pow_add, Nat.log2_two_pow]
    exact Nat.pow_dvd_pow 2 (by omega)

theorem roundHalfEven_le (num den : Nat) : roundHalfEven num den ≤ num / den + 1 := by
  unfold roundHalfEven
  simp only
  split
  · omega
  · split
    · omega
    · split <;> omega

/-- The significant bits of a quotient. -/
theorem div_step_lt (q : Nat) : q / 2 ^ (q.log2 - 52) < 2 ^ (53 : Nat) := by
  rw [Nat.div_lt_iff_lt_mul (Nat.two_pow_pos _), ← Nat.pow_add]
  exact Nat.lt_of_lt_of_le Nat.lt_log2_self (Nat.pow_le_pow_right (by decide) (by omega))

theorem roundUnits_le (num den : Nat) :
    roundUnits num den ≤ num / den + 2 ^ ((num / den).log2 - 52) := by
  unfold roundUnits
  simp only
  calc roundHalfEven num (den * 2 ^ ((num / den).log2 - 52)) * 2 ^ ((num / den).log2 - 52)
      ≤ (num / den / 2 ^ ((num / den).log2 - 52) + 1) * 2 ^ ((num / den).log2 - 52) := by
        rw [Nat.div_div_eq_div_mul]
        exact Nat.mul_le_mul_right _ (roundHalfEven_le _ _)
    _ = num / den / 2 ^ ((num / den).log2 - 52) * 2 ^ ((num / den).log2 - 52)
          + 2 ^ ((num / den).log2 - 52) := by rw [Nat.add_mul, Nat.one_mul]
    _ ≤ num / den + 2 ^ ((num / den).log2 - 52) :=
        Nat.add_le_add_right (Nat.div_mul_le_self _ _) _

/-- A rounded count is a double, unless it is too large. -/
theorem representable_roundUnits {num den : Nat} (h : roundUnits num den < 2 ^ countBits) :
    Representable (roundUnits num den) := by
  refine representable_mul_two_pow (Nat.le_trans (roundHalfEven_le _ _) ?_) h
  rw [← Nat.div_div_eq_div_mul]
  exact div_step_lt _

/-- A count with so many bits rounds to at most twice the next power of two. -/
theorem roundUnits_lt {num bits : Nat} (h : num < 2 ^ bits) :
    roundUnits num 1 < 2 ^ (bits + 1) := by
  have hstep : 2 ^ ((num / 1).log2 - 52) ≤ 2 ^ bits := by
    refine Nat.pow_le_pow_right (by decide) ?_
    rw [Nat.div_one]
    by_cases hzero : num = 0
    · rw [hzero]
      exact Nat.zero_le _
    · have := (Nat.log2_lt hzero).mpr h
      omega
  calc roundUnits num 1 ≤ num / 1 + 2 ^ ((num / 1).log2 - 52) := roundUnits_le _ _
    _ < 2 ^ bits + 2 ^ bits := by
        rw [Nat.div_one] at hstep ⊢
        exact Nat.add_lt_add_of_lt_of_le h hstep
    _ = 2 ^ (bits + 1) := by rw [← Nat.two_mul, ← Nat.pow_succ']

/-- A count that is a double is kept. -/
theorem roundUnits_of_representable {units : Nat} (h : Representable units) :
    roundUnits units 1 = units := by
  have hdvd : 2 ^ (units.log2 - 52) ∣ units := Nat.dvd_of_mod_eq_zero h.1
  unfold roundUnits roundHalfEven
  simp only [Nat.div_one, Nat.one_mul, Nat.mod_eq_zero_of_dvd hdvd, Nat.mul_zero,
    if_pos (Nat.two_pow_pos _)]
  exact Nat.div_mul_cancel hdvd

namespace Binary64

/-- A whole number that is a double is next to itself. -/
theorem ofInt_of_representable {n : Int} (h : Representable (n.natAbs * unit)) :
    ∃ x, ofInt n = .finite x ∧ x.scaled = n * unit := by
  refine ⟨⟨decide (n < 0), n.natAbs * unit, h⟩, ?_, ?_⟩
  · rw [ofInt, ofRatio, roundUnits_of_representable h]
    exact dif_pos h
  · by_cases hn : n < 0
    · rw [Finite64.scaled, if_pos (decide_eq_true hn), Int.natCast_mul, ← Int.neg_mul]
      congr 1
      omega
    · rw [Finite64.scaled, if_neg (by simpa using hn), Int.natCast_mul]
      congr 1
      omega

/-- Up to `2 ^ 53` every whole number is a double. -/
theorem representable_of_natAbs_le {n : Int} (h : n.natAbs ≤ 2 ^ (53 : Nat)) :
    Representable (n.natAbs * unit) := by
  refine representable_mul_two_pow h ?_
  calc n.natAbs * 2 ^ unitBits ≤ 2 ^ (53 : Nat) * 2 ^ unitBits := Nat.mul_le_mul_right _ h
    _ = 2 ^ (53 + unitBits) := (Nat.pow_add 2 53 unitBits).symm
    _ < 2 ^ countBits := Nat.pow_lt_pow_right (by decide) (by decide)

/-- A whole number that fits a word is next to a finite double. -/
theorem exists_finite_ofInt {n : Int} (h : Json.FitsWord n) : ∃ x, ofInt n = .finite x := by
  have hword : n.natAbs < 2 ^ 65 := by
    obtain ⟨hlow, hhigh⟩ := h
    omega
  have hunits : n.natAbs * unit < 2 ^ (65 + unitBits) := by
    rw [unit, Nat.pow_add]
    exact Nat.mul_lt_mul_of_pos_right hword (Nat.two_pow_pos _)
  have hround : roundUnits (n.natAbs * unit) 1 < 2 ^ countBits :=
    Nat.lt_of_lt_of_le (roundUnits_lt hunits) (Nat.pow_le_pow_right (by decide) (by decide))
  exact ⟨_, dif_pos (representable_roundUnits hround)⟩

end Binary64

end Bulletin
