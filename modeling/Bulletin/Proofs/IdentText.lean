import Bulletin.Ident
import Mathlib.Tactic.Ring

/-!
# The key of an identifier

A key reads back as the identifier that it was written for, so no two identifiers have one key.

* `Uuid.ofChars?_keyChars` — reading a key
* `Id.ofDraft?_key` — reading the JSON form
* `Id.key_injective`
-/

namespace Bulletin

/-! ## Hexadecimal digits -/

theorem Json.hexValue?_hexDigit {n : Nat} (h : n < 16) : hexValue? (hexDigit n) = some n := by
  have hall : ∀ n : Fin 16, hexValue? (hexDigit n.val) = some n.val := by decide
  exact hall ⟨n, h⟩

theorem Json.hexDigit_ne_hyphen {n : Nat} (h : n < 16) : hexDigit n ≠ '-' := by
  have hall : ∀ n : Fin 16, hexDigit n.val ≠ '-' := by decide
  exact hall ⟨n, h⟩

namespace Uuid

theorem length_hexDigits (count n : Nat) : (hexDigits count n).length = count := by
  induction count with
  | zero => rfl
  | succ count ih => rw [hexDigits, List.length_cons, ih]

theorem exists_of_mem_hexDigits {count n : Nat} {c : Char} (h : c ∈ hexDigits count n) :
    ∃ d < 16, c = Json.hexDigit d := by
  induction count with
  | zero => cases h
  | succ count ih =>
    rcases List.mem_cons.mp h with rfl | h
    · exact ⟨_, Nat.mod_lt _ (by decide), rfl⟩
    · exact ih h

theorem ne_hyphen_of_mem_hexDigits {count n : Nat} {c : Char} (h : c ∈ hexDigits count n) :
    c ≠ '-' := by
  obtain ⟨d, hd, rfl⟩ := exists_of_mem_hexDigits h
  exact Json.hexDigit_ne_hyphen hd

/-- The digits of a number have its value, as far as they go. -/
theorem value_hexDigits (count n start : Nat) :
    ∃ values, (hexDigits count n).mapM Json.hexValue? = some values ∧
      values.foldl (fun n d => n * 16 + d) start = start * 16 ^ count + n % 16 ^ count := by
  induction count generalizing start with
  | zero =>
    refine ⟨[], rfl, ?_⟩
    rw [List.foldl_nil, Nat.pow_zero, Nat.mod_one, Nat.mul_one, Nat.add_zero]
  | succ count ih =>
    -- the first digit is the one with the highest power
    have hdigit : n / 16 ^ count % 16 < 16 := Nat.mod_lt _ (by decide)
    obtain ⟨values, hm, hv⟩ := ih (start * 16 + n / 16 ^ count % 16)
    refine ⟨n / 16 ^ count % 16 :: values, ?_, ?_⟩
    · rw [hexDigits, List.mapM_cons, Json.hexValue?_hexDigit hdigit, hm]
      rfl
    · rw [List.foldl_cons, hv, Nat.mod_pow_succ, Nat.pow_succ]
      ring

theorem ofDigits?_hexDigits (u : Uuid) : ofDigits? (hexDigits 32 u.value.toNat) = some u := by
  obtain ⟨values, hm, hv⟩ := value_hexDigits 32 u.value.toNat 0
  rw [ofDigits?, if_pos (length_hexDigits 32 _), hm, Option.map_some, hv, Nat.zero_mul,
    Nat.zero_add, Nat.mod_eq_of_lt (by exact u.value.isLt), ofNat, BitVec.ofNat_toNat]
  rfl

/-! ## Hyphens -/

theorem hyphenate_groups (digits : List Char) :
    digits.take 8 ++ ((digits.drop 8).take 4 ++ ((digits.drop 12).take 4
      ++ ((digits.drop 16).take 4 ++ digits.drop 20))) = digits := by
  have hgroup : ∀ n, (digits.drop n).take 4 ++ digits.drop (n + 4) = digits.drop n := by
    intro n
    rw [← List.drop_drop]
    exact List.take_append_drop 4 _
  rw [hgroup 16, hgroup 12, hgroup 8, List.take_append_drop]

/-- Without its hyphens a key is its digits. -/
theorem filter_hyphenate {digits : List Char} (h : ∀ c ∈ digits, c ≠ '-') :
    (hyphenate digits).filter (· ≠ '-') = digits := by
  have htake : ∀ n m, ((digits.drop n).take m).filter (· ≠ '-') = (digits.drop n).take m := by
    intro n m
    refine List.filter_eq_self.mpr fun c hc => decide_eq_true (h c ?_)
    exact List.drop_subset _ _ (List.take_subset _ _ hc)
  have hfirst := htake 0 8
  have hlast : (digits.drop 20).filter (· ≠ '-') = digits.drop 20 :=
    List.filter_eq_self.mpr fun c hc => decide_eq_true (h c (List.drop_subset _ _ hc))
  rw [List.drop_zero] at hfirst
  simp only [hyphenate, List.cons_append, List.append_assoc, List.filter_append,
    List.filter_cons, ne_eq, not_true_eq_false, decide_false, Bool.false_eq_true, if_false]
  simp only [ne_eq] at hfirst hlast htake
  rw [hfirst, htake, htake, htake, hlast, hyphenate_groups]

theorem length_hyphenate {digits : List Char} (h : digits.length = 32) :
    (hyphenate digits).length = 36 := by
  simp [hyphenate, h]

theorem ofHyphenated?_keyChars (u : Uuid) : ofHyphenated? u.keyChars = some u := by
  have hdigits : u.keyChars.filter (· ≠ '-') = hexDigits 32 u.value.toNat :=
    filter_hyphenate fun _ => ne_hyphen_of_mem_hexDigits
  unfold ofHyphenated?
  rw [hdigits]
  exact (if_pos rfl).trans (ofDigits?_hexDigits u)

theorem ofChars?_keyChars (u : Uuid) : ofChars? u.keyChars = some u := by
  -- with its hyphens a key is too long for bare digits
  have hlong : ofDigits? u.keyChars = none := by
    refine if_neg ?_
    rw [keyChars, length_hyphenate (length_hexDigits 32 _)]
    decide
  unfold ofChars?
  rw [hlong, ofHyphenated?_keyChars]

theorem ofString?_key (u : Uuid) : ofString? u.key = some u := by
  rw [ofString?, key, String.toList_ofList, ofChars?_keyChars]

end Uuid

/-! ## Kinds -/

namespace Id

variable {kind : EntityKind}

theorem ofDraft?_key (id : Id kind) : ofDraft? (.string id.key) = some id := by
  rw [ofDraft?, key, Uuid.ofString?_key]
  rfl

theorem key_injective {a b : Id kind} (h : a.key = b.key) : a = b := by
  have hread : some a = some b := by
    rw [← ofDraft?_key a, h, ofDraft?_key]
  exact Option.some.inj hread

end Id

end Bulletin
