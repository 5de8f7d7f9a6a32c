import Bulletin.Proofs.CompactText
import Bulletin.Proofs.InstantText

/-!
# Whole numbers in texts

The text of a whole number that fits a word reads as the number: no digit is lost, as all of them
fit the word in which digits are gathered, and the first of several digits is not zero. So whether
the numbers of a value read back is a question about its doubles alone.

* `Decimal.ofDigits_natText` — gathering the digits
* `Json.Number.readsBack_int` — reading the text
-/

namespace Bulletin

/-! ## Digits -/

theorem digitsValue_natText (n : Nat) : digitsValue (natText n) = n := by
  rw [digitsValue_eq, natText, Nat.ofDigitChars_ten_toDigits]

/-- Of several digits the first is not zero. -/
theorem natText_ne_zero_cons {n : Nat} {c : Char} {digits : List Char} :
    natText n ≠ '0' :: c :: digits := by
  intro h
  have hvalue : digitsValue (c :: digits) = n := by
    rw [← digitsValue_natText n, h]
    simp [digitsValue]
  have hdigits : ∀ d ∈ c :: digits, d.isDigit = true := fun d hd =>
    (Json.isDigits_natText n).2 d (h ▸ List.mem_cons_of_mem _ hd)
  have hlt : n < 10 ^ (c :: digits).length := by
    rw [← hvalue]
    exact digitsValue_lt hdigits
  have hlength : (natText n).length ≤ (c :: digits).length :=
    (Nat.length_toDigits_le_iff (by decide) (by simp)).mpr hlt
  rw [h] at hlength
  simp at hlength

namespace Decimal

/-- The value of what was gathered and of digits behind it. -/
def withDigits (start : Nat) (digits : List Char) : Nat :=
  digits.foldl (fun value c => value * 10 + (c.toNat - '0'.toNat)) start

theorem le_withDigits (start : Nat) (digits : List Char) : start ≤ withDigits start digits := by
  induction digits generalizing start with
  | nil => exact Nat.le_refl start
  | cons c rest ih =>
    have hrest : start * 10 + (c.toNat - '0'.toNat) ≤ withDigits start (c :: rest) := ih _
    omega

/-- Digits before a point are all kept if their value fits the word. -/
theorem gather_of_lt {dropped : Int} {d : Decimal} {digits : List Char}
    (h : withDigits d.coefficient digits < UInt64.size) :
    gather 0 dropped d digits = ⟨withDigits d.coefficient digits, d.exponent⟩ := by
  induction digits generalizing d with
  | nil => rfl
  | cons c rest ih =>
    have hfits : d.coefficient * 10 + (c.toNat - '0'.toNat) < UInt64.size :=
      Nat.lt_of_le_of_lt (le_withDigits _ rest) h
    rw [gather, if_pos hfits, ih h, Int.add_zero]
    rfl

theorem ofDigits_natText {n : Nat} (h : n < UInt64.size) : ofDigits (natText n) [] = ⟨n, 0⟩ := by
  have hvalue : withDigits 0 (natText n) = n := digitsValue_natText n
  rw [ofDigits, gather_of_lt (by rwa [hvalue]), gather]
  simp only [hvalue]

end Decimal

namespace Json

/-! ## Reading -/

theorem Numeral.value?_natText {n : Int} (fits : FitsWord n) :
    Numeral.value? ⟨decide (n < 0), natText n.natAbs, none, none⟩ = some (.int n fits) := by
  have hsize : n.natAbs < UInt64.size := by
    obtain ⟨hlow, hhigh⟩ := fits
    have : UInt64.size = 18446744073709551616 := rfl
    omega
  have hsign : (if decide (n < 0) = true then -(n.natAbs : Int) else n.natAbs) = n := by
    by_cases hn : n < 0
    · rw [if_pos (decide_eq_true hn)]
      omega
    · rw [if_neg (by simpa using hn)]
      omega
  -- a minus stands only before a number below zero
  have hzero : ¬ (decide (n < 0) = true ∧ n = 0) := by
    rintro ⟨hn, rfl⟩
    exact absurd hn (by decide)
  unfold value?
  simp only [Option.getD_none, Decimal.ofDigits_natText hsize, hsign]
  exact dif_pos ⟨fits, hzero, trivial, trivial, trivial⟩

theorem readWhole_natText (n : Nat) {rest : List Char} (hr : NoDigit rest) :
    readWhole (natText n ++ rest) = .ok (natText n, rest) := by
  rw [readWhole, readDigits_append (isDigits_natText n) hr, ok_bind]
  simp only
  split
  · next heq => exact absurd heq natText_ne_zero_cons
  · rfl

/-- A number is read from its parts, one behind the other. -/
theorem readNumber_of_parts {negative : Bool} {text whole afterWhole afterDecimals settled rest :
    List Char} {decimals : Option (List Char)} {exponent : Option Int} {n : Number}
    (hwhole : readWhole text = .ok (whole, afterWhole))
    (hdecimals : readDecimals afterWhole = .ok (decimals, afterDecimals))
    (hexponent : readExponent? afterDecimals = .ok (exponent, rest, settled))
    (hvalue : Numeral.value? ⟨negative, whole, decimals, exponent⟩ = some n) :
    readNumber true negative text = .ok (.number n, rest) := by
  simp only [readNumber, hwhole, hdecimals, hexponent, ok_bind, hvalue]
  rfl

theorem readNumber_natText {n : Int} (fits : FitsWord n) :
    readNumber true (decide (n < 0)) (natText n.natAbs) = .ok (.number (.int n fits), []) := by
  have hwhole := readWhole_natText n.natAbs (show NoDigit [] by rintro c ⟨⟩)
  rw [List.append_nil] at hwhole
  exact readNumber_of_parts hwhole rfl rfl (Numeral.value?_natText fits)

/-- A number without a sign reads back if its text is read as the number. -/
theorem Number.readsBack_of_readNumber {n : Number} {c : Char} {tail : List Char}
    (htext : n.text = c :: tail) (hc : c.isDigit = true)
    (h : readNumber true false (c :: tail) = .ok (.number n, [])) : n.ReadsBack := by
  have hend : Delimited [] := by rintro c ⟨⟩
  refine (@readsAs_iff_readLeaf _ _ 0 _ hend).mpr ?_
  rw [htext, List.append_nil, readLeaf_digit hc, h]

/-- **Whole numbers** read back. -/
theorem Number.readsBack_int {n : Int} (fits : FitsWord n) : (Number.int n fits).ReadsBack := by
  have hnumber := readNumber_natText fits
  by_cases hn : n < 0
  · have hend : Delimited [] := by rintro c ⟨⟩
    refine (@readsAs_iff_readLeaf _ _ 0 _ hend).mpr ?_
    rw [decide_eq_true hn] at hnumber
    rw [List.append_nil, text, intText, if_pos hn, readLeaf, hnumber]
  · obtain ⟨c, tail, hc, hdigit⟩ := (isMagnitude_natText n.natAbs).head
    rw [decide_eq_false hn, hc] at hnumber
    exact readsBack_of_readNumber (by rw [text, intText, if_neg hn, hc]) hdigit hnumber

/-- So do the words that settings are made of. -/
theorem numbersReadBack_word32 (n : UInt32) : (Json.nat n.toNat).NumbersReadBack := by
  have hlt := n.toNat_lt
  have fits : FitsWord (n.toNat : Int) := by
    unfold FitsWord
    omega
  rw [Json.nat, Json.int, dif_pos fits]
  exact Number.readsBack_int fits

end Json

end Bulletin
