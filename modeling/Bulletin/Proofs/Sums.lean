import Bulletin.Proofs.Tallies
import Mathlib.Algebra.Ring.Int.Defs
import Mathlib.Data.List.Infix

/-!
# Sums

A tally adds the numbers of a group twice, as whole numbers and as doubles, and notes what keeps
the whole sum from being right: a number that is no signed word, or a partial sum that does not fit
one. So a whole number that comes out is the exact sum, and otherwise the doubles count.

* `Tally.Sums.addNumber` — what one number does to the whole sum and its notes
* `Tally.sums_ofValues` — what they say at the end
* `sum_of_values` — the result
-/

namespace Bulletin

namespace Json

/-! ## The numbers of a group -/

def number? : Json → Option Number
  | .number n => some n
  | _ => none

/-- The numbers among some values, in their order. -/
def numbersAmong (values : List Json) : List Number := values.filterMap number?

/-- The numbers among some values, if each of them is a whole number that fits a signed word. -/
def signedNumbers? (values : List Json) : Option (List Int) :=
  (numbersAmong values).mapM Number.signed?

/-- The double that adding some numbers in their order gives. -/
def sumOfDoubles (numbers : List Number) : Binary64 :=
  (numbers.map Number.toBinary64).foldl Binary64.add Binary64.zero

/-- A value is the whole number `k`. -/
def IsWhole (k : Int) (v : Json) : Prop := ∃ fits, v = .number (.int k fits)

/-- Every partial sum, in the order of the numbers, fits a signed word. -/
def PartialSumsFit (ns : List Int) : Prop := ∀ before ∈ ns.inits, FitsSigned before.sum

instance (ns : List Int) : Decidable (PartialSumsFit ns) :=
  inferInstanceAs (Decidable (∀ before ∈ ns.inits, FitsSigned before.sum))

variable {values : List Json} {ns : List Int} {k : Int}

theorem FitsSigned.fitsWord (h : FitsSigned k) : FitsWord k := ⟨h.1, by have := h.2; omega⟩

theorem partialSumsFit_iff :
    PartialSumsFit ns ↔ ∀ before, before <+: ns → FitsSigned before.sum := by
  simp only [PartialSumsFit, List.mem_inits]

theorem PartialSumsFit.total (h : PartialSumsFit ns) : FitsSigned ns.sum :=
  partialSumsFit_iff.mp h ns List.prefix_rfl

theorem partialSumsFit_concat :
    PartialSumsFit (ns ++ [k]) ↔ PartialSumsFit ns ∧ FitsSigned (ns.sum + k) := by
  simp only [partialSumsFit_iff, List.prefix_concat_iff]
  constructor
  · intro h
    refine ⟨fun before hbefore => h before (.inr hbefore), ?_⟩
    have hall := h (ns ++ [k]) (.inl rfl)
    rwa [List.sum_append, List.sum_singleton] at hall
  · rintro ⟨h, hall⟩ before (rfl | hbefore)
    · rwa [List.sum_append, List.sum_singleton]
    · exact h before hbefore

theorem signedNumbers?_concat_number (n : Number) :
    signedNumbers? (values ++ [.number n])
      = (signedNumbers? values).bind fun ns => n.signed?.map fun k => ns ++ [k] := by
  rw [signedNumbers?, numbersAmong, List.filterMap_append, List.mapM_append]
  cases h : n.signed? <;> simp [signedNumbers?, numbersAmong, number?, h]

theorem numbersAmong_concat_of_no_number {v : Json} (h : v.number? = none) :
    numbersAmong (values ++ [v]) = numbersAmong values := by
  rw [numbersAmong, List.filterMap_append, List.filterMap_cons_none h, List.filterMap_nil,
    List.append_nil, numbersAmong]

theorem real_eq (x : Binary64) : real x = .null ∨ ∃ y, real x = .number (.real y) := by
  cases x with
  | finite y => exact .inr ⟨y, rfl⟩
  | infinite | nan => exact .inl rfl

theorem filterMap_numeric? (values : List Json) :
    values.filterMap numeric? = (numbersAmong values).map Number.toBinary64 := by
  rw [numbersAmong, List.map_filterMap]
  refine List.filterMap_congr fun v _ => ?_
  cases v <;> rfl

end Json

open Json

/-! ## The whole sum -/

namespace Tally

variable {tally : Tally} {ns? : Option (List Int)}

/-- What the whole sum and its notes say of the numbers so far, which are given if all of them are
signed words. -/
structure Sums (tally : Tally) (ns? : Option (List Int)) : Prop where
  allWhole : tally.allWhole = ns?.isSome
  overflowed : ∀ ns ∈ ns?, (tally.overflowed = false ↔ PartialSumsFit ns)
  wholeSum : ∀ ns ∈ ns?, PartialSumsFit ns → tally.wholeSum = ns.sum

/-- A signed word is added if the numbers so far were signed words and the sum fits. -/
theorem Sums.addWhole (h : tally.Sums ns?) (k : Int) :
    (tally.addWhole k).Sums (ns?.map (· ++ [k])) := by
  cases ns? with
  | none =>
    have hall : tally.allWhole = false := h.allWhole
    rw [Tally.addWhole, hall]
    exact ⟨hall, nofun, nofun⟩
  | some ns =>
    have hall : tally.allWhole = true := h.allWhole
    have hflag := h.overflowed ns rfl
    have hsum := h.wholeSum ns rfl
    rw [Tally.addWhole, if_pos hall]
    by_cases hfits : FitsSigned (tally.wholeSum + k)
    · simp only [if_pos hfits]
      refine ⟨hall, ?_, ?_⟩
      · rintro _ ⟨⟩
        rw [partialSumsFit_concat]
        refine ⟨fun hno => ?_, fun hfit => hflag.mpr hfit.1⟩
        have hfit := hflag.mp hno
        exact ⟨hfit, hsum hfit ▸ hfits⟩
      · rintro _ ⟨⟩ hfit
        rw [partialSumsFit_concat] at hfit
        rw [List.sum_append, List.sum_singleton, hsum hfit.1]
    · -- the sum stays behind, but the overflow is noted
      have hnot : ¬ PartialSumsFit (ns ++ [k]) := by
        rw [partialSumsFit_concat]
        rintro ⟨hfit, htotal⟩
        exact hfits ((hsum hfit).symm ▸ htotal)
      simp only [if_neg hfits]
      refine ⟨hall, ?_, ?_⟩
      · rintro _ ⟨⟩
        simp [hnot]
      · rintro _ ⟨⟩ hfit
        exact absurd hfit hnot

/-- One number is added to the whole sum, or noted as the end of it. -/
theorem Sums.addNumber (h : tally.Sums ns?) (n : Number) :
    (tally.addNumber n).Sums (ns?.bind fun ns => n.signed?.map fun k => ns ++ [k]) := by
  unfold Tally.addNumber
  cases n.signed? with
  | none =>
    have hnone : (ns?.bind fun ns => (none : Option Int).map fun k => ns ++ [k]) = none := by
      cases ns? <;> rfl
    rw [hnone]
    exact ⟨rfl, nofun, nofun⟩
  | some k =>
    have hcounted : Sums { tally with
        numbers := tally.numbers + 1
        realSum := tally.realSum.add n.toBinary64 } ns? :=
      ⟨h.allWhole, h.overflowed, h.wholeSum⟩
    have hmap : (ns?.bind fun ns => (some k).map fun k => ns ++ [k]) = ns?.map (· ++ [k]) := by
      cases ns? <;> rfl
    rw [hmap]
    exact hcounted.addWhole k

theorem Sums.push_number (h : tally.Sums ns?) (n : Number) :
    (tally.push (.number n)).Sums (ns?.bind fun ns => n.signed?.map fun k => ns ++ [k]) :=
  ⟨(h.addNumber n).allWhole, (h.addNumber n).overflowed, (h.addNumber n).wholeSum⟩

theorem Sums.push_of_no_number (h : tally.Sums ns?) {v : Json} (hv : v.number? = none) :
    (tally.push v).Sums ns? := by
  cases v with
  | number n => cases hv
  | null | bool | string | array | object => exact ⟨h.allWhole, h.overflowed, h.wholeSum⟩

theorem sums_ofValues (values : List Json) :
    (ofValues values).Sums (signedNumbers? values) := by
  induction values using List.reverseRecOn with
  | nil =>
    refine ⟨rfl, ?_, ?_⟩
    · rintro _ ⟨⟩
      exact ⟨fun _ => by decide, fun _ => rfl⟩
    · rintro _ ⟨⟩ -
      rfl
  | append_singleton values v ih =>
    rw [ofValues_concat]
    cases hv : v.number? with
    | none =>
      rw [signedNumbers?, numbersAmong_concat_of_no_number hv]
      exact ih.push_of_no_number hv
    | some n =>
      match v, hv with
      | .number n, rfl =>
        rw [signedNumbers?_concat_number]
        exact ih.push_number n

/-! ## The result -/

variable {values : List Json} {ns : List Int}

theorem sum_of_fit (hns : signedNumbers? values = some ns) (hfit : PartialSumsFit ns) :
    (ofValues values).result .sum = .int ns.sum := by
  have h := sums_ofValues values
  rw [hns] at h
  have hall : (ofValues values).allWhole = true := h.allWhole
  rw [result, hall, (h.overflowed ns rfl).mpr hfit, h.wholeSum ns rfl hfit]
  rfl

theorem sum_of_not_fit (hfit : ∀ ns, signedNumbers? values = some ns → ¬ PartialSumsFit ns) :
    (ofValues values).result .sum = .real (sumOfDoubles (numbersAmong values)) := by
  have h := sums_ofValues values
  rw [result, (ofValues_numbers values).2, filterMap_numeric?]
  refine if_neg fun hexact => ?_
  rw [Bool.and_eq_true, Bool.not_eq_true', h.allWhole, Option.isSome_iff_exists] at hexact
  obtain ⟨⟨ns, hns⟩, hno⟩ := hexact
  exact hfit ns hns ((h.overflowed ns hns).mp hno)

theorem sum_congr {values' : List Json} (h : numbersAmong values' = numbersAmong values) :
    (ofValues values').result .sum = (ofValues values).result .sum := by
  have hsigned : signedNumbers? values' = signedNumbers? values := by
    rw [signedNumbers?, signedNumbers?, h]
  by_cases hwhole : ∃ ns, signedNumbers? values = some ns ∧ PartialSumsFit ns
  · obtain ⟨ns, hns, hfit⟩ := hwhole
    rw [sum_of_fit hns hfit, sum_of_fit (hsigned.trans hns) hfit]
  · have hno : ∀ ns, signedNumbers? values = some ns → ¬ PartialSumsFit ns := fun ns hns hfit =>
      hwhole ⟨ns, hns, hfit⟩
    rw [sum_of_not_fit hno, sum_of_not_fit (hsigned ▸ hno), h]

theorem isWhole_sum_iff {k : Int} :
    IsWhole k ((ofValues values).result .sum) ↔
      ∃ ns, signedNumbers? values = some ns ∧ PartialSumsFit ns ∧ k = ns.sum := by
  constructor
  · rintro ⟨fits, hint⟩
    by_cases hwhole : ∃ ns, signedNumbers? values = some ns ∧ PartialSumsFit ns
    · obtain ⟨ns, hns, hfit⟩ := hwhole
      rw [sum_of_fit hns hfit, int, dif_pos hfit.total.fitsWord] at hint
      cases hint
      exact ⟨ns, hns, hfit, rfl⟩
    · -- a double is no whole number
      rw [sum_of_not_fit fun ns hns hfit => hwhole ⟨ns, hns, hfit⟩] at hint
      rcases real_eq (sumOfDoubles (numbersAmong values)) with h | ⟨x, h⟩
      · rw [h] at hint
        cases hint
      · rw [h] at hint
        cases hint
  · rintro ⟨ns, hns, hfit, rfl⟩
    exact ⟨hfit.total.fitsWord, by rw [sum_of_fit hns hfit, int, dif_pos hfit.total.fitsWord]⟩

end Tally

/-- **Sums.** Take the values of a group in the order of its rows.

* The sum is a whole number if and only if every number among the values is a whole number that
  fits a signed word and every partial sum fits one. It is then the exact sum of them all, `0` if
  there are none.
* Otherwise it is the double that adding the numbers in row order gives, or `null` where that is
  not finite.
* Values that are no numbers do not count. -/
theorem sum_of_values (values : List Json) :
    (∀ k, IsWhole k ((Tally.ofValues values).result .sum) ↔
      ∃ ns, signedNumbers? values = some ns ∧ PartialSumsFit ns ∧ k = ns.sum) ∧
    ((∀ ns, signedNumbers? values = some ns → ¬ PartialSumsFit ns) →
      (Tally.ofValues values).result .sum = .real (sumOfDoubles (numbersAmong values)) ∧
        ((Tally.ofValues values).result .sum = .null ∨
          ∃ x, (Tally.ofValues values).result .sum = .number (.real x))) ∧
    ∀ values', numbersAmong values' = numbersAmong values →
      (Tally.ofValues values').result .sum = (Tally.ofValues values).result .sum := by
  refine ⟨fun k => Tally.isWhole_sum_iff, fun hno => ?_, fun values' => Tally.sum_congr⟩
  rw [Tally.sum_of_not_fit hno]
  exact ⟨rfl, real_eq _⟩

/-- The greatest signed word with values that are no numbers, and one more than it. -/
theorem sum_of_values_near_the_limit :
    let values := [Json.null, .string "7", .int 9223372036854775807, .int (-1), .bool true, .int 1]
    let beyond := [Json.int 9223372036854775807, .int 1]
    IsWhole 9223372036854775807 ((Tally.ofValues values).result .sum) ∧
      (Tally.ofValues [.int 9223372036854775807, .int (-1), .int 1]).result .sum
        = (Tally.ofValues values).result .sum ∧
      (∀ ns, signedNumbers? beyond = some ns → ¬ PartialSumsFit ns) ∧
      (Tally.ofValues beyond).result .sum = .real (.ofInt 9223372036854775808) := by
  intro values beyond
  obtain ⟨hexact, -, hothers⟩ := sum_of_values values
  obtain ⟨-, hreal, -⟩ := sum_of_values beyond
  have hno : ∀ ns, signedNumbers? beyond = some ns → ¬ PartialSumsFit ns := by
    rintro _ ⟨⟩
    decide
  refine ⟨?_, hothers _ (by decide), hno, ?_⟩
  · exact (hexact _).mpr ⟨[9223372036854775807, -1, 1], rfl, by decide, rfl⟩
  · rw [(hreal hno).1]
    decide +kernel

end Bulletin
