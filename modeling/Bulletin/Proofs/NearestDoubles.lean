import Bulletin.Proofs.Rounding

/-!
# The doubles next to whole numbers

Rounding keeps the order: of two whole numbers the greater one never has the smaller double. But
two of them may have one double. They then lie at `2 ^ 53` or beyond, where not every whole number
is a double, and in the range of a word they are at most `2 ^ 11` apart.

* `roundUnits_mono` — rounding keeps the order
* `Binary64.nearestUnits_mono` — and so does the double next to a whole number
* `Binary64.Merged.large`, `Binary64.Merged.close` — which numbers share a double
-/

namespace Bulletin

/-! ## Rounding keeps the order -/

/-- The quotient is kept or raised by one, as the rest is below or above half of the divisor; on a
tie the even one of the two is taken. -/
theorem roundHalfEven_cases (num den : Nat) :
    (roundHalfEven num den = num / den ∧ 2 * (num % den) ≤ den ∧
        (2 * (num % den) = den → num / den % 2 = 0)) ∨
      (roundHalfEven num den = num / den + 1 ∧ den ≤ 2 * (num % den) ∧
        (2 * (num % den) = den → num / den % 2 = 1)) := by
  unfold roundHalfEven
  simp only
  split
  · exact .inl ⟨rfl, by omega, by omega⟩
  · split
    · exact .inr ⟨rfl, by omega, by omega⟩
    · split
      · next heven => exact .inl ⟨rfl, by omega, fun _ => heven⟩
      · exact .inr ⟨rfl, by omega, by omega⟩

theorem le_roundHalfEven (num den : Nat) : num / den ≤ roundHalfEven num den := by
  rcases roundHalfEven_cases num den with ⟨h, -⟩ | ⟨h, -⟩ <;> omega

theorem roundHalfEven_mono {num num' : Nat} (h : num ≤ num') (den : Nat) :
    roundHalfEven num den ≤ roundHalfEven num' den := by
  have hle : num / den ≤ num' / den := Nat.div_le_div_right h
  rcases Nat.lt_or_eq_of_le hle with hlt | heq
  · have hlow := roundHalfEven_le num den
    have hhigh := le_roundHalfEven num' den
    omega
  · -- with one quotient the greater number leaves the greater rest
    have hrest : num % den ≤ num' % den := by
      have hn := Nat.div_add_mod num den
      have hn' := Nat.div_add_mod num' den
      rw [heq] at hn
      omega
    rcases roundHalfEven_cases num den with ⟨hr, -, heven⟩ | ⟨hr, hhalf, hodd⟩
    · have := le_roundHalfEven num' den
      omega
    · rcases roundHalfEven_cases num' den with ⟨hr', hhalf', heven'⟩ | ⟨hr', -⟩ <;> omega

/-- The nearest whole number is at most half a step away. -/
theorem roundHalfEven_near (num : Nat) {den : Nat} (hden : 0 < den) :
    2 * (roundHalfEven num den * den) ≤ 2 * num + den ∧
      2 * num ≤ 2 * (roundHalfEven num den * den) + den := by
  have hn := Nat.div_add_mod num den
  have hrest := Nat.mod_lt num hden
  rw [Nat.mul_comm] at hn
  rcases roundHalfEven_cases num den with ⟨hr, hhalf, -⟩ | ⟨hr, hhalf, -⟩
  · rw [hr]
    omega
  · have hnext : (num / den + 1) * den = num / den * den + den := Nat.succ_mul _ _
    rw [hr, hnext]
    omega

/-- A whole count rounds to a multiple of its last significant bit. -/
theorem roundUnits_one (num : Nat) :
    roundUnits num 1
      = roundHalfEven num (2 ^ (num.log2 - 52)) * 2 ^ (num.log2 - 52) := by
  simp only [roundUnits, Nat.div_one, Nat.one_mul]

theorem roundUnits_near (num : Nat) :
    2 * roundUnits num 1 ≤ 2 * num + 2 ^ (num.log2 - 52) ∧
      2 * num ≤ 2 * roundUnits num 1 + 2 ^ (num.log2 - 52) := by
  rw [roundUnits_one]
  exact roundHalfEven_near _ (Nat.two_pow_pos _)

/-- Rounding does not go beyond the next power of two. -/
theorem roundUnits_le_two_pow {num bits : Nat} (h : num < 2 ^ bits) :
    roundUnits num 1 ≤ 2 ^ bits := by
  have hstep : num.log2 - 52 ≤ bits := by
    by_cases hzero : num = 0
    · simp [hzero]
    · have := (Nat.log2_lt hzero).mpr h
      omega
  have hpow : 2 ^ bits = 2 ^ (bits - (num.log2 - 52)) * 2 ^ (num.log2 - 52) := by
    rw [← Nat.pow_add, Nat.sub_add_cancel hstep]
  have hquotient : num / 2 ^ (num.log2 - 52) < 2 ^ (bits - (num.log2 - 52)) := by
    rwa [Nat.div_lt_iff_lt_mul (Nat.two_pow_pos _), ← hpow]
  rw [roundUnits_one, hpow]
  exact Nat.mul_le_mul_right _ (Nat.le_trans (roundHalfEven_le _ _) hquotient)

/-- Rounding does not fall below the last power of two. -/
theorem two_pow_le_roundUnits {num : Nat} (h : num ≠ 0) : 2 ^ num.log2 ≤ roundUnits num 1 := by
  have hpow : 2 ^ num.log2 = 2 ^ (num.log2 - (num.log2 - 52)) * 2 ^ (num.log2 - 52) := by
    rw [← Nat.pow_add, Nat.sub_add_cancel (Nat.sub_le _ _)]
  have hquotient : 2 ^ (num.log2 - (num.log2 - 52)) ≤ num / 2 ^ (num.log2 - 52) := by
    rw [Nat.le_div_iff_mul_le (Nat.two_pow_pos _), ← hpow]
    exact Nat.log2_self_le h
  rw [roundUnits_one, hpow]
  exact Nat.mul_le_mul_right _ (Nat.le_trans hquotient (le_roundHalfEven _ _))

theorem roundUnits_mono {num num' : Nat} (h : num ≤ num') :
    roundUnits num 1 ≤ roundUnits num' 1 := by
  by_cases hzero : num = 0
  · rw [hzero]
    exact Nat.zero_le _
  · have hzero' : num' ≠ 0 := by omega
    have hlog : num.log2 ≤ num'.log2 :=
      (Nat.le_log2 hzero').mpr (Nat.le_trans (Nat.log2_self_le hzero) h)
    rcases Nat.lt_or_eq_of_le hlog with hlt | heq
    · -- a power of two lies between them
      calc roundUnits num 1 ≤ 2 ^ (num.log2 + 1) := roundUnits_le_two_pow Nat.lt_log2_self
        _ ≤ 2 ^ num'.log2 := Nat.pow_le_pow_right (by decide) hlt
        _ ≤ roundUnits num' 1 := two_pow_le_roundUnits hzero'
    · rw [roundUnits_one, roundUnits_one, heq]
      exact Nat.mul_le_mul_right _ (roundHalfEven_mono h _)

namespace Binary64

variable {a b n : Int}

/-! ## Whole numbers -/

/-- The double next to a whole number, as a signed count of units. -/
def nearestUnits (n : Int) : Int :=
  if n < 0 then -(roundUnits (n.natAbs * unit) 1 : Int) else roundUnits (n.natAbs * unit) 1

theorem unit_pos : 0 < unit := Nat.two_pow_pos unitBits

/-- The double next to a whole number of a word has a sign and so many units. -/
theorem ofInt_eq_finite (h : Json.FitsWord n) :
    ∃ x, ofInt n = .finite x ∧ x.negative = decide (n < 0) ∧
      x.units = roundUnits (n.natAbs * unit) 1 := by
  obtain ⟨x, hx⟩ := exists_finite_ofInt h
  rw [ofInt, ofRatio, ofUnits] at hx
  split at hx
  · next hrep =>
    exact ⟨⟨_, _, hrep⟩, dif_pos hrep, rfl, rfl⟩
  · cases hx

theorem scaled_ofInt (h : Json.FitsWord n) :
    ∃ x, ofInt n = .finite x ∧ x.scaled = nearestUnits n := by
  obtain ⟨x, hx, hsign, hunits⟩ := ofInt_eq_finite h
  refine ⟨x, hx, ?_⟩
  simp only [Finite64.scaled, nearestUnits, hsign, hunits, decide_eq_true_eq]

/-- A whole number other than zero is next to a double other than zero. -/
theorem roundUnits_unit_pos (h : n ≠ 0) : 0 < roundUnits (n.natAbs * unit) 1 := by
  have hzero : n.natAbs * unit ≠ 0 :=
    Nat.mul_ne_zero (Int.natAbs_ne_zero.mpr h) (Nat.ne_of_gt unit_pos)
  exact Nat.lt_of_lt_of_le (Nat.two_pow_pos _) (two_pow_le_roundUnits hzero)

theorem nearestUnits_mono (h : a ≤ b) : nearestUnits a ≤ nearestUnits b := by
  unfold nearestUnits
  by_cases ha : a < 0
  · by_cases hb : b < 0
    · -- the smaller negative number is the larger one without its sign
      have hsize : b.natAbs * unit ≤ a.natAbs * unit := Nat.mul_le_mul_right _ (by omega)
      have := roundUnits_mono hsize
      simp only [ha, hb, if_true]
      omega
    · simp only [ha, hb, if_true, if_false]
      omega
  · have hb : ¬ b < 0 := by omega
    have hsize : a.natAbs * unit ≤ b.natAbs * unit := Nat.mul_le_mul_right _ (by omega)
    have := roundUnits_mono hsize
    simp only [ha, hb, if_false]
    omega

/-- Up to `2 ^ 53` a whole number is a double itself. -/
theorem nearestUnits_of_natAbs_le (h : n.natAbs ≤ 2 ^ (53 : Nat)) :
    nearestUnits n = n * unit := by
  rw [nearestUnits, roundUnits_of_representable (representable_of_natAbs_le h), Int.natCast_mul]
  split
  · rw [← Int.neg_mul]
    congr 1
    omega
  · congr 1
    omega

/-- Two whole numbers of a word have one double if they have one count of units. -/
theorem ofInt_eq_iff (ha : Json.FitsWord a) (hb : Json.FitsWord b) :
    ofInt a = ofInt b ↔ nearestUnits a = nearestUnits b := by
  obtain ⟨x, hx, hxsign, hxunits⟩ := ofInt_eq_finite ha
  obtain ⟨y, hy, hysign, hyunits⟩ := ofInt_eq_finite hb
  have hapos := roundUnits_unit_pos (n := a)
  have hbpos := roundUnits_unit_pos (n := b)
  have hsign : nearestUnits a = nearestUnits b →
      ((a < 0 ↔ b < 0) ∧ roundUnits (a.natAbs * unit) 1 = roundUnits (b.natAbs * unit) 1) := by
    unfold nearestUnits
    intro h
    split at h <;> split at h <;> omega
  constructor
  · intro h
    rw [hx, hy, Binary64.finite.injEq] at h
    have hs : (a < 0) = (b < 0) := by simpa [hxsign, hysign] using congrArg Finite64.negative h
    have hu := congrArg Finite64.units h
    rw [hxunits, hyunits] at hu
    simp only [nearestUnits, hs, hu]
  · intro h
    obtain ⟨hs, hu⟩ := hsign h
    obtain ⟨sign, units, hrep⟩ := x
    obtain ⟨sign', units', hrep'⟩ := y
    simp only at hxsign hxunits hysign hyunits
    subst hxsign hysign hxunits hyunits
    rw [hx, hy]
    simp [hs, hu]

/-! ## Numbers that share a double -/

/-- Two different whole numbers have one double next to them. -/
structure Merged (a b : Int) : Prop where
  differ : a ≠ b
  shared : ofInt a = ofInt b

instance (a b : Int) : Decidable (Merged a b) :=
  decidable_of_iff (a ≠ b ∧ ofInt a = ofInt b) ⟨fun h => ⟨h.1, h.2⟩, fun h => ⟨h.1, h.2⟩⟩

/-- Below `2 ^ 53` a whole number has a double of its own. -/
theorem eq_of_nearestUnits_eq (ha : a.natAbs < 2 ^ (53 : Nat))
    (h : nearestUnits a = nearestUnits b) : a = b := by
  have hunit : (0 : Int) < unit := Int.natCast_pos.mpr unit_pos
  rw [nearestUnits_of_natAbs_le (Nat.le_of_lt ha)] at h
  rcases Nat.lt_or_ge (2 ^ (53 : Nat)) b.natAbs with hb | hb
  · -- the doubles of larger numbers lie beyond `2 ^ 53`, on their own side
    have hedge : nearestUnits (2 ^ (53 : Nat)) = 2 ^ (53 : Nat) * unit :=
      nearestUnits_of_natAbs_le (by decide)
    have hedge' : nearestUnits (-2 ^ (53 : Nat)) = -2 ^ (53 : Nat) * unit :=
      nearestUnits_of_natAbs_le (by decide)
    rcases Int.lt_or_le b 0 with hneg | hpos
    · have hle : nearestUnits b ≤ -2 ^ (53 : Nat) * unit := by
        rw [← hedge']
        exact nearestUnits_mono (by omega)
      rw [← h] at hle
      have := Int.le_of_mul_le_mul_right hle hunit
      omega
    · have hle : 2 ^ (53 : Nat) * (unit : Int) ≤ nearestUnits b := by
        rw [← hedge]
        exact nearestUnits_mono (by omega)
      rw [← h] at hle
      have := Int.le_of_mul_le_mul_right hle hunit
      omega
  · rw [nearestUnits_of_natAbs_le hb] at h
    exact Int.eq_of_mul_eq_mul_right (Int.ne_of_gt hunit) h

/-- Numbers that share a double are not below `2 ^ 53`. -/
theorem Merged.large (h : Merged a b) (ha : Json.FitsWord a) (hb : Json.FitsWord b) :
    2 ^ (53 : Nat) ≤ a.natAbs ∧ 2 ^ (53 : Nat) ≤ b.natAbs := by
  have hunits := (ofInt_eq_iff ha hb).mp h.shared
  constructor
  · exact Nat.le_of_not_lt fun hlt => h.differ (eq_of_nearestUnits_eq hlt hunits)
  · exact Nat.le_of_not_lt fun hlt => h.differ (eq_of_nearestUnits_eq hlt hunits.symm).symm

/-- In the range of a word the next double is at most `2 ^ 10` away. -/
theorem nearestUnits_near (h : Json.FitsWord n) :
    n * unit - 2 ^ (10 : Nat) * unit ≤ nearestUnits n ∧
      nearestUnits n ≤ n * unit + 2 ^ (10 : Nat) * unit := by
  have hsize : n.natAbs * unit < 2 ^ (64 + unitBits) := by
    rw [unit, Nat.pow_add]
    refine Nat.mul_lt_mul_of_pos_right ?_ (Nat.two_pow_pos _)
    obtain ⟨hlow, hhigh⟩ := h
    omega
  have hlog : (n.natAbs * unit).log2 - 52 ≤ 11 + unitBits := by
    by_cases hzero : n.natAbs * unit = 0
    · rw [hzero]
      exact Nat.zero_le _
    · have := (Nat.log2_lt hzero).mpr hsize
      omega
  have hstep : 2 ^ ((n.natAbs * unit).log2 - 52) ≤ 2 ^ (11 : Nat) * unit :=
    calc 2 ^ ((n.natAbs * unit).log2 - 52) ≤ 2 ^ (11 + unitBits) :=
          Nat.pow_le_pow_right (by decide) hlog
      _ = 2 ^ (11 : Nat) * unit := by rw [unit, ← Nat.pow_add]
  obtain ⟨hlow, hhigh⟩ := roundUnits_near (n.natAbs * unit)
  have hcast : (n.natAbs : Int) * unit = ((n.natAbs * unit : Nat) : Int) :=
    (Int.natCast_mul _ _).symm
  unfold nearestUnits
  split
  · have hn : n * unit = -((n.natAbs * unit : Nat) : Int) := by
      rw [← hcast, ← Int.neg_mul]
      congr 1
      omega
    rw [hn]
    omega
  · have hn : n * unit = ((n.natAbs * unit : Nat) : Int) := by
      rw [← hcast]
      congr 1
      omega
    rw [hn]
    omega

theorem Merged.close (h : Merged a b) (ha : Json.FitsWord a) (hb : Json.FitsWord b) :
    (a - b).natAbs ≤ 2 ^ (11 : Nat) := by
  have hunit : (0 : Int) < unit := Int.natCast_pos.mpr unit_pos
  have hunits := (ofInt_eq_iff ha hb).mp h.shared
  obtain ⟨halow, hahigh⟩ := nearestUnits_near ha
  obtain ⟨hblow, hbhigh⟩ := nearestUnits_near hb
  have hle : (a - b) * unit ≤ 2 ^ (11 : Nat) * unit := by
    rw [Int.sub_mul]
    omega
  have hge : (b - a) * unit ≤ 2 ^ (11 : Nat) * unit := by
    rw [Int.sub_mul]
    omega
  have hle := Int.le_of_mul_le_mul_right hle hunit
  have hge := Int.le_of_mul_le_mul_right hge hunit
  omega

end Binary64

end Bulletin
