import Bulletin.Json.Parser

/-!
# The text of a number

Whatever number is written, its text is a sign, digits, decimals and an exponent, of which only the
digits must be there. A reader of such a text stops where the text stops, unless digits or a point
follow. Nothing is said here about which number it reads.

* `isMagnitude_json` — the text of a double without its sign
* `readNumber_append` — reading it
-/

namespace Bulletin

theorem ok_bind {ε α β : Type} (a : α) (f : α → Except ε β) : Except.ok a >>= f = f a := rfl

/-- A computation in two parts ends well if both do. -/
theorem bind_eq_ok {ε α β : Type} {x : Except ε α} {f : α → Except ε β} {b : β} :
    x >>= f = .ok b ↔ ∃ a, x = .ok a ∧ f a = .ok b := by
  cases x with
  | error e => exact ⟨nofun, nofun⟩
  | ok a => exact ⟨fun h => ⟨a, rfl, h⟩, by rintro ⟨_, ⟨⟩, h⟩; exact h⟩

namespace Json

/-! ## Shapes -/

/-- At least one digit, and nothing else. -/
def IsDigits (text : List Char) : Prop := text ≠ [] ∧ ∀ c ∈ text, c.isDigit = true

/-- Nothing, or a point and digits. -/
inductive IsDecimals : List Char → Prop
  | none : IsDecimals []
  | some {digits : List Char} (h : IsDigits digits) : IsDecimals ('.' :: digits)

/-- Nothing, or the letter of an exponent with a sign and digits. -/
inductive IsExponent : List Char → Prop
  | none : IsExponent []
  | some {sign : Char} {digits : List Char} (hs : sign = '-' ∨ sign = '+') (h : IsDigits digits) :
    IsExponent ('e' :: sign :: digits)

/-- Digits, decimals and an exponent. -/
inductive IsMagnitude : List Char → Prop
  | mk {whole decimals exponent : List Char} (hw : IsDigits whole) (hd : IsDecimals decimals)
    (he : IsExponent exponent) : IsMagnitude (whole ++ (decimals ++ exponent))

theorem IsDigits.append {a b : List Char} (ha : IsDigits a) (hb : ∀ c ∈ b, c.isDigit = true) :
    IsDigits (a ++ b) := by
  refine ⟨List.append_ne_nil_of_left_ne_nil ha.1 _, fun c hc => ?_⟩
  rcases List.mem_append.mp hc with hc | hc
  · exact ha.2 c hc
  · exact hb c hc

theorem isDigits_natText (n : Nat) : IsDigits (natText n) :=
  ⟨Nat.toDigits_ne_nil, fun _ hc => Nat.isDigit_of_mem_toDigits (by decide) (by decide) hc⟩

theorem isDigit_of_mem_zeros {n : Nat} {c : Char} (h : c ∈ List.replicate n '0') :
    c.isDigit = true := by
  rw [List.eq_of_mem_replicate h]
  rfl

/-! ## Writing -/

theorem isMagnitude_natText (n : Nat) : IsMagnitude (natText n) := by
  have h := IsMagnitude.mk (isDigits_natText n) .none .none
  rw [List.append_nil, List.append_nil] at h
  exact h

theorem isMagnitude_positional (d : Decimal) :
    IsMagnitude (NumeralLayout.json.positionalText d) := by
  have hdigits : IsDigits d.digits := isDigits_natText d.coefficient
  have hpoint : ∀ {whole decimals : List Char}, IsDigits whole → IsDigits decimals →
      IsMagnitude (whole ++ '.' :: decimals) := by
    intro whole decimals hw hd
    have h := IsMagnitude.mk hw (.some hd) .none
    rw [List.append_nil] at h
    exact h
  have hzero : IsDigits ['0'] := ⟨by simp, by simp⟩
  unfold NumeralLayout.positionalText
  simp only
  split
  · refine hpoint hzero ⟨List.append_ne_nil_of_right_ne_nil _ hdigits.1, fun c hc => ?_⟩
    rcases List.mem_append.mp hc with hc | hc
    · exact isDigit_of_mem_zeros hc
    · exact hdigits.2 c hc
  · next hpositive =>
    split
    · exact hpoint (hdigits.append fun _ => isDigit_of_mem_zeros) hzero
    · next hshort =>
      -- the point stands between two digits
      refine hpoint ⟨?_, fun c hc => hdigits.2 c (List.mem_of_mem_take hc)⟩
        ⟨?_, fun c hc => hdigits.2 c (List.mem_of_mem_drop hc)⟩
      · rw [Ne, List.take_eq_nil_iff]
        rintro (h | h)
        · omega
        · exact hdigits.1 h
      · rw [Ne, List.drop_eq_nil_iff]
        omega

theorem isMagnitude_scientific (d : Decimal) : IsMagnitude (NumeralLayout.scientificText d) := by
  have hdigits : IsDigits d.digits := isDigits_natText d.coefficient
  have hexponent : IsExponent ('e' :: (if d.point - 1 < 0 then '-' else '+')
      :: natText (d.point - 1).natAbs) := by
    refine .some ?_ (isDigits_natText _)
    split
    · exact .inl rfl
    · exact .inr rfl
  unfold NumeralLayout.scientificText
  match hd : d.digits, hdigits with
  | [], h => exact absurd rfl h.1
  | [c], h => exact .mk h .none hexponent
  | c :: second :: decimals, h =>
    have hc : IsDigits [c] := ⟨by simp, fun c' hc' => h.2 c' (by simp at hc'; simp [hc'])⟩
    have hrest : IsDigits (second :: decimals) :=
      ⟨by simp, fun c' hc' => h.2 c' (List.mem_cons_of_mem _ hc')⟩
    exact .mk hc (.some hrest) hexponent

theorem isMagnitude_json (x : Finite64) : IsMagnitude (NumeralLayout.json.magnitudeText x) := by
  unfold NumeralLayout.magnitudeText
  split
  · have hzero : IsDigits ['0'] := ⟨by simp, by simp⟩
    exact .mk hzero (.some hzero) .none
  · simp only
    split
    · exact isMagnitude_positional _
    · exact isMagnitude_scientific _

/-- A number is written as a magnitude, with or without a sign. -/
theorem Number.text_eq (n : Number) :
    ∃ magnitude, IsMagnitude magnitude ∧ (n.text = magnitude ∨ n.text = '-' :: magnitude) := by
  cases n with
  | int n fits =>
    refine ⟨natText n.natAbs, isMagnitude_natText _, ?_⟩
    by_cases h : n < 0
    · exact .inr (if_pos h)
    · exact .inl (if_neg h)
  | real x =>
    refine ⟨NumeralLayout.json.magnitudeText x, isMagnitude_json x, ?_⟩
    by_cases h : x.negative = true
    · exact .inr (if_pos h)
    · exact .inl (if_neg h)

/-- In the text of a double there is a point or the letter of an exponent. -/
theorem Number.exists_mark (x : Finite64) : ∃ c ∈ (Number.real x).text, c = '.' ∨ c = 'e' := by
  have hmagnitude : ∃ c ∈ NumeralLayout.json.magnitudeText x, c = '.' ∨ c = 'e' := by
    unfold NumeralLayout.magnitudeText
    split
    · exact ⟨'.', by decide, .inl rfl⟩
    · simp only
      split
      · refine ⟨'.', ?_, .inl rfl⟩
        unfold NumeralLayout.positionalText
        simp only
        split
        · exact List.mem_append_left _ (List.mem_cons_of_mem _ List.mem_cons_self)
        · split
          · exact List.mem_append_right _ (by decide)
          · exact List.mem_append_right _ List.mem_cons_self
      · exact ⟨'e', List.mem_append_right _ List.mem_cons_self, .inr rfl⟩
  obtain ⟨c, hmem, hc⟩ := hmagnitude
  refine ⟨c, ?_, hc⟩
  by_cases h : x.negative = true
  · rw [show (Number.real x).text = '-' :: NumeralLayout.json.magnitudeText x from if_pos h]
    exact List.mem_cons_of_mem _ hmem
  · rw [show (Number.real x).text = NumeralLayout.json.magnitudeText x from if_neg h]
    exact hmem

/-- The characters of which numbers are written. -/
def IsNumeral (c : Char) : Prop := c.isDigit = true ∨ c ∈ ['.', 'e', '-', '+']

instance (c : Char) : Decidable (IsNumeral c) := instDecidableOr

theorem IsMagnitude.isNumeral {text : List Char} (h : IsMagnitude text) {c : Char}
    (hc : c ∈ text) : IsNumeral c := by
  obtain @⟨whole, decimals, exponent, hw, hd, he⟩ := h
  rcases List.mem_append.mp hc with hc | hc
  · exact .inl (hw.2 c hc)
  rcases List.mem_append.mp hc with hc | hc
  · cases hd with
    | none => cases hc
    | some hdigits =>
      rcases List.mem_cons.mp hc with rfl | hc
      · exact .inr (by decide)
      · exact .inl (hdigits.2 c hc)
  · cases he with
    | none => cases hc
    | some hs hdigits =>
      rcases List.mem_cons.mp hc with rfl | hc
      · exact .inr (by decide)
      rcases List.mem_cons.mp hc with rfl | hc
      · rcases hs with rfl | rfl <;> exact .inr (by decide)
      · exact .inl (hdigits.2 c hc)

theorem Number.isNumeral {n : Number} {c : Char} (hc : c ∈ n.text) : IsNumeral c := by
  obtain ⟨magnitude, hm, ht | ht⟩ := n.text_eq
  · exact hm.isNumeral (ht ▸ hc)
  · rw [ht] at hc
    rcases List.mem_cons.mp hc with rfl | hc
    · exact .inr (by decide)
    · exact hm.isNumeral hc

/-! ## Reading -/

/-- The characters that may follow a value in a text without blanks. -/
def Delimited (text : List Char) : Prop := ∀ c ∈ text.head?, c = ',' ∨ c = ']' ∨ c = '\x7d'

/-- A text that no digit starts. -/
def NoDigit (text : List Char) : Prop := ∀ c ∈ text.head?, c.isDigit = false

theorem Delimited.noDigit {text : List Char} (h : Delimited text) : NoDigit text := by
  intro c hc
  rcases h c hc with rfl | rfl | rfl <;> rfl

theorem noDigit_exponent {exponent rest : List Char} (he : IsExponent exponent)
    (hr : Delimited rest) : NoDigit (exponent ++ rest) := by
  cases he with
  | none => exact hr.noDigit
  | some hs h =>
    rintro c ⟨⟩
    rfl

theorem noDigit_decimals {decimals rest : List Char} (hd : IsDecimals decimals)
    (hr : NoDigit rest) : NoDigit (decimals ++ rest) := by
  cases hd with
  | none => exact hr
  | some h =>
    rintro c ⟨⟩
    rfl

theorem spanDigits_append {digits rest : List Char} (hd : ∀ c ∈ digits, c.isDigit = true)
    (hr : NoDigit rest) : spanDigits (digits ++ rest) = (digits, rest) := by
  unfold spanDigits
  rw [List.takeWhile_append_of_pos hd, List.dropWhile_append_of_pos hd]
  cases rest with
  | nil => simp
  | cons c rest =>
    have hc : c.isDigit = false := hr c rfl
    simp [hc]

theorem readDigits_append {digits rest : List Char} (hd : IsDigits digits) (hr : NoDigit rest) :
    readDigits (digits ++ rest) = .ok (digits, rest) := by
  unfold readDigits
  rw [spanDigits_append hd.2 hr]
  match digits, hd with
  | [], h => exact absurd rfl h.1
  | c :: digits, _ => rfl

/-- Whether a whole part is read is settled by its digits alone. -/
theorem readWhole_append {whole : List Char} (hw : IsDigits whole) :
    (∀ rest, NoDigit rest → readWhole (whole ++ rest) = .ok (whole, rest)) ∨
      (∀ rest, NoDigit rest → ∃ stop, readWhole (whole ++ rest) = .error stop) := by
  match whole, hw with
  | [], hw => exact absurd rfl hw.1
  | [c], hw =>
    refine .inl fun rest hr => ?_
    rw [readWhole, readDigits_append hw hr, ok_bind]
    simp only
    split
    · next heq => cases heq
    · rfl
  | c :: second :: digits, hw =>
    by_cases hc : c = '0'
    · subst hc
      refine .inr fun rest hr => ⟨⟨.invalidNumber, second :: digits ++ rest, 1⟩, ?_⟩
      rw [readWhole, readDigits_append hw hr, ok_bind]
      rfl
    · refine .inl fun rest hr => ?_
      rw [readWhole, readDigits_append hw hr, ok_bind]
      simp only
      split
      · next heq =>
        cases heq
        exact absurd rfl hc
      · rfl

theorem readDecimals_append {decimals : List Char} (hd : IsDecimals decimals) :
    ∃ found, (found = none → decimals = []) ∧ ∀ rest, NoDigit rest → rest.head? ≠ some '.' →
      readDecimals (decimals ++ rest) = .ok (found, rest) := by
  cases hd with
  | none =>
    refine ⟨none, fun _ => rfl, fun rest _ hpoint => ?_⟩
    unfold readDecimals
    split
    · next heq =>
      rw [List.nil_append] at heq
      rw [heq] at hpoint
      exact absurd rfl hpoint
    · rfl
  | @some digits h =>
    refine ⟨some digits, nofun, fun rest hr _ => ?_⟩
    rw [List.cons_append, readDecimals, readDigits_append h hr]
    rfl

/-- Where the size of an exponent is settled depends on its digits alone. -/
theorem excess_append {rest : List Char} (hr : NoDigit rest) (value : Nat) (digits : List Char) :
    excess value (digits ++ rest) = (excess value digits).map (· ++ rest) := by
  induction digits generalizing value with
  | nil =>
    match rest, hr with
    | [], _ => rfl
    | c :: rest, hr =>
      have hc : c.isDigit = false := hr c rfl
      simp [excess, hc]
  | cons c digits ih =>
    rw [List.cons_append, excess, excess]
    split
    · rfl
    · split
      · rfl
      · exact ih _

theorem readExponent?_append {exponent : List Char} (he : IsExponent exponent) :
    ∃ found, (found = none → exponent = []) ∧ ∀ rest, Delimited rest →
      ∃ settled, readExponent? (exponent ++ rest) = .ok (found, rest, settled) := by
  cases he with
  | none =>
    refine ⟨none, fun _ => rfl, fun rest hr => ⟨rest, ?_⟩⟩
    match rest, hr with
    | [], _ => rfl
    | c :: rest, h => rcases h c rfl with rfl | rfl | rfl <;> rfl
  | @some sign digits hs h =>
    obtain ⟨negative, hsign⟩ : ∃ negative, ∀ rest,
        readSign (sign :: (digits ++ rest)) = (negative, digits ++ rest) := by
      rcases hs with rfl | rfl
      · exact ⟨true, fun _ => rfl⟩
      · exact ⟨false, fun _ => rfl⟩
    cases hsize : excess 0 digits with
    | none =>
      refine ⟨some (if negative then -(digitsValue digits : Int) else digitsValue digits), nofun,
        fun rest hr => ⟨rest, ?_⟩⟩
      simp only [readExponent?, List.cons_append, hsign, readDigits_append h hr.noDigit,
        excess_append hr.noDigit, hsize, Option.map_none]
      rfl
    | some settled =>
      refine ⟨some (if negative then -((exponentLimit + 1 : Nat) : Int)
        else (exponentLimit + 1 : Nat)), nofun, fun rest hr => ⟨settled ++ rest, ?_⟩⟩
      simp only [readExponent?, List.cons_append, hsign, readDigits_append h hr.noDigit,
        excess_append hr.noDigit, hsize, Option.map_some]
      rfl

/-- A numeral with a point or an exponent is no whole number. -/
theorem Numeral.parts_of_value?_int {numeral : Numeral} {k : Int} {fits : FitsWord k}
    (h : numeral.value? = some (.int k fits)) :
    numeral.decimals = none ∧ numeral.exponent = none := by
  refine Classical.byContradiction fun hparts => ?_
  unfold value? at h
  rw [dif_neg fun hwhole => hparts ⟨hwhole.2.2.1, hwhole.2.2.2.1⟩] at h
  obtain ⟨_, -, hreal⟩ := Option.map_eq_some_iff.mp h
  cases hreal

/-- What is read where a magnitude stands, if anything is, is one number wherever it stands, and
nothing after it is taken. It is a whole number only if the magnitude is made of digits. -/
theorem readNumber_append {text : List Char} (ht : IsMagnitude text) (negative : Bool) :
    ∃ found : Option Number,
      (∀ k fits, found = some (.int k fits) → ∀ c ∈ text, c.isDigit = true) ∧
      ∀ rest, Delimited rest → ∀ v rest',
        readNumber true negative (text ++ rest) = .ok (v, rest') ↔
          rest' = rest ∧ ∃ n, found = some n ∧ v = .number n := by
  -- each part is read up to the first character of the next one, which is no digit
  obtain @⟨whole, decimals, exponent, hw, hd, he⟩ := ht
  have hpoint : ∀ rest, Delimited rest → (exponent ++ rest).head? ≠ some '.' := by
    rintro rest hr hhead
    cases he with
    | none => rcases hr '.' hhead with hc | hc | hc <;> cases hc
    | some _ _ => cases hhead
  obtain ⟨fraction, hnoDecimals, hfraction⟩ := readDecimals_append hd
  obtain ⟨power, hnoExponent, hpower⟩ := readExponent?_append he
  rcases readWhole_append hw with hwhole | hwhole
  · refine ⟨Numeral.value? ⟨negative, whole, fraction, power⟩, fun k fits hint => ?_,
      fun rest hr v rest' => ?_⟩
    · obtain ⟨hdecimals, hexponent⟩ := Numeral.parts_of_value?_int hint
      rw [hnoDecimals hdecimals, hnoExponent hexponent, List.append_nil, List.append_nil]
      exact hw.2
    have hexponent := noDigit_exponent he hr
    obtain ⟨settled, hsettled⟩ := hpower rest hr
    unfold readNumber
    rw [List.append_assoc, List.append_assoc, hwhole _ (noDigit_decimals hd hexponent), ok_bind]
    simp only [hfraction _ hexponent (hpoint rest hr), ok_bind, hsettled]
    split
    · next n hn =>
      constructor
      · rintro ⟨⟩
        exact ⟨rfl, n, hn, rfl⟩
      · rintro ⟨rfl, m, hm, rfl⟩
        rw [hn] at hm
        cases hm
        rfl
    · next hn =>
      constructor
      · rintro ⟨⟩
      · rintro ⟨-, m, hm, -⟩
        rw [hn] at hm
        cases hm
  · refine ⟨none, (fun _ _ h => nomatch h), fun rest hr v rest' => ⟨fun h => ?_, by
      rintro ⟨-, _, ⟨⟩, -⟩⟩⟩
    obtain ⟨stop, hstop⟩ := hwhole _ (noDigit_decimals hd (noDigit_exponent he hr))
    unfold readNumber at h
    rw [List.append_assoc, List.append_assoc, hstop] at h
    cases h

end Json

end Bulletin
