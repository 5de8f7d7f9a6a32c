import Bulletin.Text.Blank
import Mathlib.Data.List.TakeWhile

/-!
# Trimmed texts

What trimming takes away is white space at the ends, and nothing else; what it leaves neither
starts nor ends with white space. So a text that shows other characters at its ends is left as it
is, also behind or in front of further text.

* `exists_trim` — what is taken away
* `trimStart_eq_self_iff`, `trimEnd_eq_self_iff` — when nothing is
* `trimStart_append`, `trimEnd_append` — trimming within a longer text
-/

namespace Bulletin.Text

variable {text text' : List Char}

/-- The printing characters of ASCII are no white space. -/
theorem isBlank_of_printing {c : Char} (hlow : 0x21 ≤ c.toNat) (hhigh : c.toNat ≤ 0x7E) :
    isBlank c = false := by
  have houtside : ∀ r ∈ blankRanges, r.2 < 0x21 ∨ 0x7E < r.1 := by decide
  simp only [isBlank, List.any_eq_false, decide_eq_true_eq]
  intro r hr
  have := houtside r hr
  omega

theorem isBlank_of_isDigit {c : Char} (h : c.isDigit = true) : isBlank c = false := by
  have hrange : 48 ≤ c.toNat ∧ c.toNat ≤ 57 := by
    simp only [Char.isDigit, Bool.and_eq_true, decide_eq_true_eq, ge_iff_le,
      UInt32.le_iff_toNat_le] at h
    exact h
  exact isBlank_of_printing (by omega) (by omega)

/-- A text of white space. -/
def Blank (text : List Char) : Prop := ∀ c ∈ text, isBlank c = true

/-- A text does not start with white space. -/
def StartsPlain (text : List Char) : Prop := ∀ c ∈ text.head?, isBlank c = false

/-- A text does not end with white space. -/
def EndsPlain (text : List Char) : Prop := ∀ c ∈ text.getLast?, isBlank c = false

theorem startsPlain_reverse : StartsPlain text.reverse ↔ EndsPlain text := by
  rw [StartsPlain, List.head?_reverse, EndsPlain]

/-! ## At the start -/

theorem exists_trimStart (text : List Char) :
    ∃ lead, Blank lead ∧ text = lead ++ trimStart text ∧ StartsPlain (trimStart text) := by
  refine ⟨text.takeWhile isBlank, fun c hc => List.mem_takeWhile_imp hc,
    (List.takeWhile_append_dropWhile).symm, fun c hc => ?_⟩
  have h := List.head?_dropWhile_not isBlank text
  rw [show (text.dropWhile isBlank).head? = some c from hc] at h
  simpa using h

theorem trimStart_eq_self_iff : trimStart text = text ↔ StartsPlain text := by
  refine ⟨fun h => h ▸ (exists_trimStart text).choose_spec.2.2, fun h => ?_⟩
  cases text with
  | nil => rfl
  | cons c rest => exact List.dropWhile_cons_of_neg (by rw [h c rfl]; decide)

theorem trimStart_cons {c : Char} (h : isBlank c = false) (rest : List Char) :
    trimStart (c :: rest) = c :: rest :=
  List.dropWhile_cons_of_neg (by rw [h]; decide)

/-- In front of a text that starts plainly only white space is taken away. -/
theorem trimStart_blank_append (h : Blank text) : trimStart (text ++ text') = trimStart text' :=
  List.dropWhile_append_of_pos h

theorem trimStart_append (h : trimStart text ≠ []) :
    trimStart (text ++ text') = trimStart text ++ text' := by
  obtain ⟨lead, hlead, htext, hplain⟩ := exists_trimStart text
  have hwhole : text ++ text' = lead ++ (trimStart text ++ text') := by
    rw [← List.append_assoc, ← htext]
  have hhead : (trimStart text ++ text').head? = (trimStart text).head? := by
    obtain ⟨c, rest, hc⟩ := List.exists_cons_of_ne_nil h
    rw [hc]
    rfl
  rw [hwhole, trimStart_blank_append hlead]
  exact trimStart_eq_self_iff.mpr fun c hc => hplain c (hhead ▸ hc)

/-! ## At the end -/

theorem exists_trimEnd (text : List Char) :
    ∃ gap, Blank gap ∧ text = trimEnd text ++ gap ∧ EndsPlain (trimEnd text) := by
  obtain ⟨lead, hlead, htext, hplain⟩ := exists_trimStart text.reverse
  refine ⟨lead.reverse, fun c hc => hlead c (List.mem_reverse.mp hc), ?_, ?_⟩
  · rw [trimEnd, ← List.reverse_append]
    exact List.reverse_eq_iff.mp htext
  · exact startsPlain_reverse.mp (by rwa [trimEnd, List.reverse_reverse])

theorem trimEnd_eq_self_iff : trimEnd text = text ↔ EndsPlain text := by
  rw [trimEnd, List.reverse_eq_iff, ← startsPlain_reverse]
  exact trimStart_eq_self_iff

theorem trimEnd_append (h : trimEnd text' ≠ []) :
    trimEnd (text ++ text') = text ++ trimEnd text' := by
  have hne : trimStart text'.reverse ≠ [] := fun hnil => h (List.reverse_eq_nil_iff.mpr hnil)
  rw [trimEnd, List.reverse_append]
  exact (congrArg List.reverse (trimStart_append hne)).trans
    (by rw [List.reverse_append, List.reverse_reverse]; rfl)

/-! ## At both ends -/

theorem exists_trim (text : List Char) :
    ∃ lead gap, Blank lead ∧ Blank gap ∧ text = lead ++ (trim text ++ gap) := by
  obtain ⟨lead, hlead, htext, -⟩ := exists_trimStart text
  obtain ⟨gap, hgap, htrim, -⟩ := exists_trimEnd (trimStart text)
  exact ⟨lead, gap, hlead, hgap, by rw [trim, ← htrim]; exact htext⟩

theorem trim_eq_self_iff : trim text = text ↔ StartsPlain text ∧ EndsPlain text := by
  refine ⟨fun h => ?_, fun h => ?_⟩
  · obtain ⟨lead, gap, -, -, htext⟩ := exists_trim text
    have hlength := congrArg List.length htext
    rw [List.length_append, List.length_append, h] at hlength
    have hend : trimEnd (trimStart text) = text := h
    obtain ⟨lead', -, hstart, -⟩ := exists_trimStart text
    obtain ⟨gap', -, hgap, hplain⟩ := exists_trimEnd (trimStart text)
    have hlengths := congrArg List.length hstart
    have hlengths' := congrArg List.length hgap
    rw [List.length_append] at hlengths hlengths'
    rw [hend] at hlengths' hplain
    have hnil : lead' = [] := List.eq_nil_of_length_eq_zero (by omega)
    rw [hnil, List.nil_append] at hstart
    exact ⟨trimStart_eq_self_iff.mp hstart.symm, hplain⟩
  · rw [trim, trimStart_eq_self_iff.mpr h.1, trimEnd_eq_self_iff.mpr h.2]

end Bulletin.Text
