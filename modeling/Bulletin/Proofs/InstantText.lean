import Bulletin.Instant
import Bulletin.Proofs.NumberText
import Bulletin.Proofs.Trimming

/-!
# The text of an instant

The text of an instant reads as the instant, up to one case: nanoseconds of a leap second, counted
from `10 ^ 9`, can only be written in the last second of a minute. No text gives an instant with a
leap second anywhere else, so whatever was read from a text is written as a text that reads as the
same instant.

* `Calendar.date_spec` — the date of a day is a date of the calendar, and that of no other day
* `Instant.ofString?_text` — the text of an instant
* `Instant.ofString?_text_of_ofString?` — the text of what was read
-/

namespace Bulletin

/-! ## The calendar -/

namespace Calendar

/-- Where a day lies in a period of 400 years that starts in March: so many centuries, spans of
four years, years and days. The last day of a span is the leap day, which the last span of a century
lacks, unless the century is the last one. -/
theorem exists_parts {dayOfEra : Int} (h : 0 ≤ dayOfEra ∧ dayOfEra < 146097) :
    ∃ century span year day : Int,
      (0 ≤ century ∧ century < 4) ∧ (0 ≤ span ∧ span < 25) ∧ (0 ≤ year ∧ year < 4) ∧
      (0 ≤ day ∧ day ≤ 365) ∧ (day = 365 → year = 3 ∧ (span = 24 → century = 3)) ∧
      dayOfEra = 36524 * century + 1461 * span + 365 * year + day := by
  -- the fifth century and the fifth year of a span hold one day only, which belongs to the fourth
  obtain ⟨century, hc⟩ : ∃ c, c = min (dayOfEra / 36524) 3 := ⟨_, rfl⟩
  obtain ⟨span, hs⟩ : ∃ s, s = (dayOfEra - 36524 * century) / 1461 := ⟨_, rfl⟩
  obtain ⟨year, hy⟩ : ∃ y, y = min ((dayOfEra - 36524 * century - 1461 * span) / 365) 3 := ⟨_, rfl⟩
  refine ⟨century, span, year, dayOfEra - 36524 * century - 1461 * span - 365 * year,
    ⟨by omega, by omega⟩, ⟨by omega, by omega⟩, ⟨by omega, by omega⟩, ⟨by omega, by omega⟩,
    fun hday => ⟨by omega, fun hspan => by omega⟩, by omega⟩

/-- The year in which a day lies, of the 400 years that start in March. -/
theorem yearOfEra_parts {century span year day : Int} (hc : 0 ≤ century ∧ century < 4)
    (hs : 0 ≤ span ∧ span < 25) (hy : 0 ≤ year ∧ year < 4) (hd : 0 ≤ day ∧ day ≤ 365)
    (hleap : day = 365 → year = 3 ∧ (span = 24 → century = 3)) :
    let dayOfEra := 36524 * century + 1461 * span + 365 * year + day
    (dayOfEra - dayOfEra.fdiv 1460 + dayOfEra.fdiv 36524 - dayOfEra.fdiv 146096).fdiv 365
      = 100 * century + 4 * span + year := by
  intro dayOfEra
  have hera : dayOfEra = 36524 * century + 1461 * span + 365 * year + day := rfl
  rw [Int.fdiv_eq_ediv_of_nonneg _ (by decide), Int.fdiv_eq_ediv_of_nonneg _ (by decide),
    Int.fdiv_eq_ediv_of_nonneg _ (by decide), Int.fdiv_eq_ediv_of_nonneg _ (by decide)]
  -- the quotient by 36524 is one too large on the very last day, and there it is taken back
  have hcentury : dayOfEra / 36524 - dayOfEra / 146096 = century := by
    by_cases hlast : day = 365 ∧ span = 24
    · obtain ⟨hyear, hcentury⟩ := hleap hlast.1
      have := hcentury hlast.2
      omega
    · have hinside : dayOfEra < 36524 * (century + 1) := by omega
      have hera' : dayOfEra / 146096 = 0 := by omega
      omega
  have hspans : dayOfEra / 1460
      = 25 * century + span + (24 * century + span + 365 * year + day) / 1460 := by
    omega
  have hrest : 24 * century + span + 365 * year + day < 2920 := by omega
  by_cases hday : day = 365
  · obtain ⟨hyear, -⟩ := hleap hday
    omega
  · omega

/-- The month and the day of the month of a day in a year that starts in March. Only the last day
can be one too many for its month. -/
theorem month_of_day {day fromMarch month dayOfMonth : Int} (h : 0 ≤ day ∧ day ≤ 365)
    (hfrom : (5 * day + 2).fdiv 153 = fromMarch)
    (hmonth : (if fromMarch < 10 then fromMarch + 3 else fromMarch - 9) = month)
    (hday : day - (153 * fromMarch + 2).fdiv 5 + 1 = dayOfMonth) :
    (1 ≤ month ∧ month ≤ 12) ∧ (month + 9).fmod 12 = fromMarch ∧
      (month ≤ 2 ↔ 306 ≤ day) ∧ 1 ≤ dayOfMonth ∧
      dayOfMonth ≤ (if month = 2 then (if day = 365 then 29 else 28)
        else if month = 4 ∨ month = 6 ∨ month = 9 ∨ month = 11 then 30 else 31) := by
  rw [Int.fdiv_eq_ediv_of_nonneg _ (by decide)] at hfrom hday
  rw [Int.fmod_eq_emod_of_nonneg _ (by decide)]
  have hmonth : (fromMarch < 10 ∧ month = fromMarch + 3) ∨
      (10 ≤ fromMarch ∧ month = fromMarch - 9) := by
    split at hmonth <;> omega
  refine ⟨by omega, by omega, by omega, by omega, ?_⟩
  split
  · split <;> omega
  · split <;> omega

theorem daysInMonth_le (year month : Int) : daysInMonth year month ≤ 31 := by
  unfold daysInMonth
  split
  · split <;> decide
  · split <;> decide

/-- The last day of a year that starts in March is the 366th only before the end of February of a
leap year. -/
theorem isLeapYear_of_parts {era century span : Int} (hs : 0 ≤ span ∧ span < 25)
    (hlast : span = 24 → century = 3) :
    isLeapYear (100 * century + 4 * span + 3 + era * 400 + 1) = true := by
  simp only [isLeapYear, Int.fmod_eq_emod_of_nonneg _ (show (0 : Int) ≤ 4 by decide),
    Int.fmod_eq_emod_of_nonneg _ (show (0 : Int) ≤ 100 by decide),
    Int.fmod_eq_emod_of_nonneg _ (show (0 : Int) ≤ 400 by decide), Bool.and_eq_true,
    Bool.or_eq_true,
    beq_iff_eq, bne_iff_ne]
  refine ⟨by omega, ?_⟩
  by_cases h : span = 24
  · exact .inr (by have := hlast h; omega)
  · exact .inl (by omega)

/-- **The date of a day.** It is a date of the calendar, the day is the only one with this date, and
a day in the range of the calendar has a year in its range. -/
theorem date_spec {number year month day : Int} (h : date number = (year, month, day)) :
    (1 ≤ month ∧ month ≤ 12) ∧ (1 ≤ day ∧ day ≤ daysInMonth year month) ∧
      dayNumber year month day = number ∧
      (-96465292 ≤ number ∧ number ≤ 95026236 → -262143 ≤ year ∧ year ≤ 262142) := by
  -- the parts of the day in its era
  obtain ⟨era, hera⟩ : ∃ e, e = (number + 719468).fdiv 146097 := ⟨_, rfl⟩
  have hera' := hera
  rw [Int.fdiv_eq_ediv_of_nonneg _ (by decide)] at hera'
  obtain ⟨century, span, yearOfSpan, dayOfYear, hc, hs, hy, hd, hleap, hparts⟩ :=
    @exists_parts (number + 719468 - era * 146097) ⟨by omega, by omega⟩
  have hyear := yearOfEra_parts hc hs hy hd hleap
  have hfour : (100 * century + 4 * span + yearOfSpan).fdiv 4 = 25 * century + span := by
    rw [Int.fdiv_eq_ediv_of_nonneg _ (by decide)]
    omega
  have hhundred : (100 * century + 4 * span + yearOfSpan).fdiv 100 = century := by
    rw [Int.fdiv_eq_ediv_of_nonneg _ (by decide)]
    omega
  have hday : 36524 * century + 1461 * span + 365 * yearOfSpan + dayOfYear
      - (365 * (100 * century + 4 * span + yearOfSpan) + (25 * century + span) - century)
        = dayOfYear := by
    omega
  obtain ⟨fromMarch, hfrom⟩ : ∃ m, (5 * dayOfYear + 2).fdiv 153 = m := ⟨_, rfl⟩
  simp only [date, ← hera, hparts, hyear, hfour, hhundred, hday, hfrom, Prod.mk.injEq] at h
  obtain ⟨hyears, hmonths, hdays⟩ := h
  rw [hmonths] at hyears
  obtain ⟨hmonth, hmod, hwinter, hfirst, hlast⟩ := month_of_day hd hfrom hmonths hdays
  -- the year from March on, which is the year before in January and February
  have hmarch : (if month ≤ 2 then year - 1 else year)
      = 100 * century + 4 * span + yearOfSpan + era * 400 := by
    split
    · next hle => rw [if_pos hle] at hyears; omega
    · next hle => rw [if_neg hle] at hyears; omega
  refine ⟨hmonth, ⟨hfirst, Int.le_trans hlast ?_⟩, ?_, ?_⟩
  · unfold daysInMonth
    split
    · next hfeb =>
      split
      · next hend =>
        obtain ⟨rfl, hcentury⟩ := hleap hend
        rw [if_pos (by omega)] at hyears
        have hlong : isLeapYear year = true := hyears ▸ isLeapYear_of_parts hs hcentury
        exact Int.le_of_eq (if_pos hlong).symm
      · split <;> decide
    · exact Int.le_refl _
  · simp only [dayNumber, hmarch, hmod]
    rw [Int.fdiv_eq_ediv_of_nonneg _ (show (0 : Int) ≤ 400 by decide)]
    have hera'' : (100 * century + 4 * span + yearOfSpan + era * 400) / 400 = era := by omega
    rw [hera'', show 100 * century + 4 * span + yearOfSpan + era * 400 - era * 400
      = 100 * century + 4 * span + yearOfSpan by omega, hfour, hhundred]
    omega
  · rintro ⟨hlow, hhigh⟩
    clear hleap hlast hmod hmarch hfrom hmonths hdays hday hfour hhundred
    have heras : -656 ≤ era ∧ era ≤ 655 := by omega
    split at hyears <;> omega

end Calendar

/-! ## Padded digits -/

theorem digitsValue_eq (digits : List Char) :
    digitsValue digits = Nat.ofDigitChars 10 digits 0 := by
  simp only [digitsValue, Nat.ofDigitChars_eq_foldl, Nat.mul_comm]

theorem digitsValue_paddedText (width n : Nat) : digitsValue (paddedText width n) = n := by
  rw [digitsValue_eq, paddedText, Nat.ofDigitChars_append, Nat.ofDigitChars_replicate_zero,
    Nat.mul_zero, natText, Nat.ofDigitChars_ten_toDigits]

theorem digitsValue_lt {digits : List Char} (h : ∀ c ∈ digits, c.isDigit = true) :
    digitsValue digits < 10 ^ digits.length := by
  have hfold : ∀ start : Nat,
      digits.foldl (fun value c => value * 10 + (c.toNat - '0'.toNat)) start
        < (start + 1) * 10 ^ digits.length := by
    induction digits with
    | nil =>
      intro start
      rw [List.foldl_nil, List.length_nil, Nat.pow_zero]
      omega
    | cons c digits ih =>
      intro start
      have hc : c.toNat ≤ 57 := by
        have := h c List.mem_cons_self
        simp only [Char.isDigit, Bool.and_eq_true, decide_eq_true_eq,
          UInt32.le_iff_toNat_le] at this
        exact this.2
      have hstart : start * 10 + (c.toNat - '0'.toNat) + 1 ≤ (start + 1) * 10 := by
        have : '0'.toNat = 48 := rfl
        omega
      rw [List.foldl_cons, List.length_cons, Nat.pow_succ, Nat.mul_comm (10 ^ _), ← Nat.mul_assoc]
      exact Nat.lt_of_lt_of_le (ih (fun c hc => h c (List.mem_cons_of_mem _ hc)) _)
        (Nat.mul_le_mul_right _ hstart)
  simpa [digitsValue] using hfold 0

theorem isDigits_paddedText (width n : Nat) : Json.IsDigits (paddedText width n) := by
  refine ⟨List.append_ne_nil_of_right_ne_nil _ (Json.isDigits_natText n).1, fun c hc => ?_⟩
  rcases List.mem_append.mp hc with hc | hc
  · exact Json.isDigit_of_mem_zeros hc
  · exact (Json.isDigits_natText n).2 c hc

theorem length_paddedText {width n : Nat} (hw : 0 < width) (h : n < 10 ^ width) :
    (paddedText width n).length = width := by
  have hlength : (natText n).length ≤ width :=
    (Nat.length_toDigits_le_iff (by decide) hw).mpr h
  rw [paddedText, List.length_append, List.length_replicate]
  omega

/-! ## Parts -/

namespace Instant

/-- Digits of a fixed number are read, whatever follows. -/
theorem readDigits_paddedText {width n : Nat} (hw : 0 < width) (h : n < 10 ^ width)
    (rest : List Char) :
    readDigits width (paddedText width n ++ rest) = some ((n : Int), rest) := by
  have hlength := length_paddedText hw h
  have hdigits := isDigits_paddedText width n
  have hblank : Text.trimStart (paddedText width n ++ rest) = paddedText width n ++ rest := by
    match hd : paddedText width n, hdigits with
    | [], h => exact absurd rfl h.1
    | c :: digits, h =>
      exact Text.trimStart_cons (Text.isBlank_of_isDigit (h.2 c List.mem_cons_self)) _
  have htake : (paddedText width n ++ rest).take width = paddedText width n :=
    List.take_left' hlength
  have hall : (paddedText width n).takeWhile Char.isDigit = paddedText width n := by
    have hnone : Json.NoDigit [] := by rintro c ⟨⟩
    have hspan := Json.spanDigits_append hdigits.2 hnone
    rw [List.append_nil] at hspan
    exact congrArg Prod.fst hspan
  simp only [readDigits, hblank, htake, hall]
  rw [if_neg (by simpa using hdigits.1), digitsValue_paddedText, List.drop_left]

theorem readMark_cons {mark : Char} (h : Text.isBlank mark = false) (rest : List Char) :
    readMark mark (mark :: rest) = some rest := by
  simp only [readMark, Text.trimStart_cons h, if_true]

theorem readYear_yearText (year : Int) {rest : List Char} (hr : Json.NoDigit rest) :
    readYear (yearText year ++ rest) = some (year, rest) := by
  unfold yearText
  split
  · next hshort =>
    -- four digits without a sign
    have hlt : year.toNat < 10 ^ 4 := by omega
    have hread := readDigits_paddedText (by decide) hlt rest
    have hdigits := isDigits_paddedText 4 year.toNat
    match hd : paddedText 4 year.toNat, hdigits with
    | [], h => exact absurd rfl h.1
    | c :: digits, h =>
      have hc : c.isDigit = true := h.2 c List.mem_cons_self
      rw [hd, List.cons_append] at hread
      have hsign : ∀ sign : Char, sign.isDigit = false → c ≠ sign := by
        rintro sign hs rfl
        rw [hc] at hs
        cases hs
      unfold readYear
      rw [List.cons_append, Text.trimStart_cons (Text.isBlank_of_isDigit hc)]
      split
      · next heq =>
        cases heq
        exact absurd rfl (hsign _ rfl)
      · next heq =>
        cases heq
        exact absurd rfl (hsign _ rfl)
      · rw [hread, Int.toNat_of_nonneg hshort.1]
  · next hlong =>
    have hspan := Json.spanDigits_append (isDigits_paddedText 4 year.natAbs).2 hr
    have hne : (paddedText 4 year.natAbs).isEmpty = false := by
      simpa using (isDigits_paddedText 4 year.natAbs).1
    by_cases hnegative : year < 0
    · rw [if_pos hnegative, List.cons_append, readYear, Text.trimStart_cons (by decide)]
      simp only [hspan, hne, digitsValue_paddedText]
      rw [if_neg (by decide)]
      congr 2
      omega
    · rw [if_neg hnegative, List.cons_append, readYear, Text.trimStart_cons (by decide)]
      simp only [hspan, hne, digitsValue_paddedText]
      rw [if_neg (by decide)]
      congr 2
      omega

theorem readFraction_fractionText {nano : Nat} (h : nano < 10 ^ (9 : Nat)) {rest : List Char}
    (hr : Json.NoDigit rest) (hpoint : rest.head? ≠ some '.') :
    readFraction (fractionText nano ++ rest) = some (nano, rest) := by
  -- however many decimals are written, there are at most nine
  have hdecimals : ∀ width n : Nat, 0 < width → width ≤ 9 → n < 10 ^ width →
      readFraction ('.' :: paddedText width n ++ rest) = some (n * 10 ^ (9 - width), rest) := by
    intro width n hw hnine hn
    have hlength := length_paddedText hw hn
    have hne : (paddedText width n).isEmpty = false := by
      simpa using (isDigits_paddedText width n).1
    simp only [readFraction, List.cons_append,
      Json.spanDigits_append (isDigits_paddedText width n).2 hr, hne]
    rw [if_neg (by decide), List.take_of_length_le (by omega), hlength, digitsValue_paddedText]
  unfold fractionText
  split
  · next hzero =>
    subst hzero
    unfold readFraction
    split
    · next heq =>
      rw [List.nil_append] at heq
      rw [heq] at hpoint
      exact absurd rfl hpoint
    · rfl
  · split
    · rw [hdecimals 3 _ (by decide) (by decide) (by omega)]
      congr 2
      omega
    · split
      · rw [hdecimals 6 _ (by decide) (by decide) (by omega)]
        congr 2
        omega
      · rw [hdecimals 9 _ (by decide) (by decide) h]
        congr 2
        omega

/-! ## The whole text -/

theorem ofParts?_eq_some {second : Int} {nano : Nat} {t : Instant}
    (h : ofParts? second nano = some t) : t.second = second ∧ t.nano = nano := by
  unfold ofParts? at h
  split at h
  · cases h
    exact ⟨rfl, rfl⟩
  · cases h

theorem ofParts?_parts (t : Instant) : ofParts? t.second t.nano = some t :=
  dif_pos ⟨t.inRange, t.nano_lt⟩

/-- Whether an instant has a text that says all of it: a leap second is counted in the last second
of a minute. -/
def Regular (t : Instant) : Prop := t.nano < 1000000000 ∨ t.second % 60 = 59

/-- An offset is a number of whole minutes. -/
theorem emod_offset {text rest : List Char} {offset : Int}
    (h : readOffset text = some (offset, rest)) : offset % 60 = 0 := by
  unfold readOffset at h
  simp only at h
  repeat' split at h
  all_goals cases h
  all_goals omega

/-- Decimals are less than a second. -/
theorem nano_lt_of_readFraction {text rest : List Char} {nano : Nat}
    (h : readFraction text = some (nano, rest)) : nano < 1000000000 := by
  unfold readFraction at h
  split at h
  · next decimals =>
    simp only at h
    split at h
    · cases h
    · cases h
      have hdigits : ∀ c ∈ (spanDigits decimals).1.take 9, c.isDigit = true := fun c hc =>
        List.all_eq_true.mp List.all_takeWhile c (List.mem_of_mem_take hc)
      have hlength : ((spanDigits decimals).1.take 9).length ≤ 9 := List.length_take_le 9 _
      calc digitsValue ((spanDigits decimals).1.take 9)
              * 10 ^ (9 - ((spanDigits decimals).1.take 9).length)
          < 10 ^ ((spanDigits decimals).1.take 9).length
              * 10 ^ (9 - ((spanDigits decimals).1.take 9).length) :=
            Nat.mul_lt_mul_of_pos_right (digitsValue_lt hdigits) (Nat.pow_pos (by decide))
        _ = 10 ^ 9 := by rw [← Nat.pow_add, Nat.add_sub_cancel' hlength]
  · cases h
    decide

/-- What is read from a text is regular: the seconds of the text are those of the instant, as its
offset has none. -/
theorem regular_of_ofString? {s : String} {t : Instant} (h : ofString? s = some t) :
    t.Regular := by
  obtain ⟨⟨year, _⟩, -, h⟩ := Option.bind_eq_some_iff.mp h
  obtain ⟨_, -, h⟩ := Option.bind_eq_some_iff.mp h
  obtain ⟨⟨month, _⟩, -, h⟩ := Option.bind_eq_some_iff.mp h
  obtain ⟨_, -, h⟩ := Option.bind_eq_some_iff.mp h
  obtain ⟨⟨day, _⟩, -, h⟩ := Option.bind_eq_some_iff.mp h
  -- the mark between the date and the time of day
  dsimp only at h
  split at h
  · split at h
    · obtain ⟨_, -, h⟩ := Option.bind_eq_some_iff.mp h
      obtain ⟨⟨hour, _⟩, -, h⟩ := Option.bind_eq_some_iff.mp h
      obtain ⟨_, -, h⟩ := Option.bind_eq_some_iff.mp h
      obtain ⟨⟨minute, _⟩, -, h⟩ := Option.bind_eq_some_iff.mp h
      obtain ⟨_, -, h⟩ := Option.bind_eq_some_iff.mp h
      obtain ⟨⟨second, _⟩, -, h⟩ := Option.bind_eq_some_iff.mp h
      obtain ⟨⟨nano, _⟩, hfraction, h⟩ := Option.bind_eq_some_iff.mp h
      obtain ⟨⟨offset, _⟩, hoffset, h⟩ := Option.bind_eq_some_iff.mp h
      have hminutes := emod_offset hoffset
      have hnano := nano_lt_of_readFraction hfraction
      dsimp only at h
      split at h
      · obtain ⟨hs, hn⟩ := ofParts?_eq_some h
        by_cases hleap : second = 60
        · rw [if_pos hleap] at hs
          exact .inr (by omega)
        · rw [if_neg hleap] at hn
          exact .inl (hn ▸ hnano)
      · cases h
    · cases h
  · cases h

/-- **The text of an instant.** Reading it gives the instant back, unless a leap second stands where
no text has one. -/
theorem ofString?_text {t : Instant} (h : t.Regular) : ofString? t.text = some t := by
  obtain ⟨year, month, day, hdate⟩ : ∃ y m d, Calendar.date (t.second.fdiv 86400) = (y, m, d) :=
    ⟨_, _, _, rfl⟩
  obtain ⟨ofDay, hofDay⟩ : ∃ n, t.secondOfDay.toNat = n := ⟨_, rfl⟩
  obtain ⟨second, hsecond⟩ : ∃ n, ofDay % 60 + (if 1000000000 ≤ t.nano then 1 else 0) = n :=
    ⟨_, rfl⟩
  obtain ⟨nano, hnano⟩ : ∃ n, (if 1000000000 ≤ t.nano then t.nano - 1000000000 else t.nano) = n :=
    ⟨_, rfl⟩
  obtain ⟨⟨hjanuary, hdecember⟩, ⟨hfirst, hlast⟩, hnumber, hrange⟩ := Calendar.date_spec hdate
  obtain ⟨hlow, hhigh⟩ := t.inRange
  have hlt := t.nano_lt
  have hday : t.second.fdiv 86400 = t.second / 86400 := Int.fdiv_eq_ediv_of_nonneg _ (by decide)
  rw [hday] at hnumber hrange
  obtain ⟨hearly, hlate⟩ := hrange ⟨by omega, by omega⟩
  rw [secondOfDay, Int.fmod_eq_emod_of_nonneg _ (by decide)] at hofDay
  have hmonthDays := Calendar.daysInMonth_le year month
  -- the leap second of the text is the one of the instant
  have hleap : (second = 60 ↔ 1000000000 ≤ t.nano) := by
    unfold Regular at h
    split at hsecond <;> omega
  have hnoDigit : ∀ rest, Json.NoDigit ('-' :: rest) := by
    rintro rest c ⟨⟩
    rfl
  have hyearText : ∀ rest, readYear (yearText year ++ '-' :: rest) = some (year, '-' :: rest) :=
    fun rest => readYear_yearText year (hnoDigit rest)
  have htwo : ∀ n : Nat, n < 100 → ∀ rest,
      Instant.readDigits 2 (paddedText 2 n ++ rest) = some ((n : Int), rest) :=
    fun n hn rest => readDigits_paddedText (by decide) hn rest
  have hhyphen : ∀ rest, readMark '-' ('-' :: rest) = some rest := readMark_cons (by decide)
  have hcolon : ∀ rest, readMark ':' (':' :: rest) = some rest := readMark_cons (by decide)
  have hfraction : readFraction (fractionText nano ++ ['Z']) = some (nano, ['Z']) := by
    refine readFraction_fractionText ?_ ?_ (by decide)
    · split at hnano <;> omega
    · rintro c ⟨⟩
      rfl
  simp only [ofString?, text, String.toList_ofList, localText, hdate, secondOfDay,
    Int.fmod_eq_emod_of_nonneg _ (show (0 : Int) ≤ 86400 by decide), hofDay, hsecond, hnano,
    List.append_assoc, List.cons_append]
  have hshort : second < 100 := by split at hsecond <;> omega
  have hoffset : readOffset ['Z'] = some (0, []) := by decide
  -- the parts of the text, one after the other
  refine Option.bind_eq_some_iff.mpr ⟨_, hyearText _, Option.bind_eq_some_iff.mpr
    ⟨_, hhyphen _, Option.bind_eq_some_iff.mpr ⟨_, htwo _ (by omega) _, Option.bind_eq_some_iff.mpr
    ⟨_, hhyphen _, Option.bind_eq_some_iff.mpr ⟨_, htwo _ (by omega) _, ?_⟩⟩⟩⟩⟩
  refine (if_pos (.inl rfl)).trans (Option.bind_eq_some_iff.mpr ⟨_, rfl,
    Option.bind_eq_some_iff.mpr ⟨_, htwo _ (by omega) _, Option.bind_eq_some_iff.mpr
    ⟨_, hcolon _, Option.bind_eq_some_iff.mpr ⟨_, htwo _ (by omega) _, Option.bind_eq_some_iff.mpr
    ⟨_, hcolon _, Option.bind_eq_some_iff.mpr ⟨_, htwo _ hshort _, Option.bind_eq_some_iff.mpr
    ⟨_, hfraction, Option.bind_eq_some_iff.mpr ⟨_, hoffset, ?_⟩⟩⟩⟩⟩⟩⟩⟩)
  simp only [Int.toNat_of_nonneg (show 0 ≤ month by omega),
    Int.toNat_of_nonneg (show 0 ≤ day by omega), hnumber]
  rw [if_pos ⟨rfl, hjanuary, hdecember, hfirst, hlast, by omega, by omega,
    by split at hsecond <;> omega, by decide, by decide, hearly, hlate⟩]
  -- the parts give back the second and the nanoseconds
  by_cases hsixty : second = 60
  · have hleap' := hleap.mp hsixty
    rw [if_pos hleap'] at hnano hsecond
    rw [if_pos (by omega), if_pos (by omega)]
    have hs : t.second / 86400 * 86400 + (((ofDay / 3600 : Nat) : Int) * 3600
        + ((ofDay / 60 % 60 : Nat) : Int) * 60 + 59) - 0 = t.second := by omega
    have hn : nano + 1000000000 = t.nano := by omega
    rw [hs, hn, ofParts?_parts]
  · have hleap' := mt hleap.mpr hsixty
    rw [if_neg hleap'] at hnano hsecond
    rw [if_neg (by omega), if_neg (by omega)]
    have hs : t.second / 86400 * 86400 + (((ofDay / 3600 : Nat) : Int) * 3600
        + ((ofDay / 60 % 60 : Nat) : Int) * 60 + (second : Int)) - 0 = t.second := by omega
    rw [hs, ← hnano, ofParts?_parts]

/-- **The text of what was read.** It reads as the same instant. -/
theorem ofString?_text_of_ofString? {s : String} {t : Instant} (h : ofString? s = some t) :
    ofString? t.text = some t :=
  ofString?_text (regular_of_ofString? h)

end Instant

end Bulletin
