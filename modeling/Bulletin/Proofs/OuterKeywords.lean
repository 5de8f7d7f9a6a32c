import Bulletin.Proofs.BalancedText

/-!
# Keywords of the outer query

Where a keyword stands, said of the text and not of the search: its letters in any case, as whole
words with white space between two of them, outside parentheses and strings. The search finds the
first such place, and it finds none only if there is none.

* `afterKeyword?_eq_some`, `afterKeyword?_of_spells` — a text that begins with a keyword
* `findKeyword_first` — the search
* `conditionStart?_eq_some`, `tailStart_isTail` — the two places that a condition needs
-/

namespace Bulletin.Sql

variable {keyword : String × Option String} {keywords : List (String × Option String)}
  {word before text written rest query : List Char} {least position length : Nat}

/-! ## Spellings -/

/-- Letters are white space in any case or in none. -/
theorem isBlank_folded (c : Char) : Text.isBlank (folded c) = Text.isBlank c := by
  unfold folded
  split
  · next hc =>
    subst hc
    decide
  · unfold Char.toLower
    split
    · next hc =>
      -- neither a capital letter nor the small one is white space
      have hlow : 0x41 ≤ c.toNat := UInt32.le_iff_toNat_le.mp hc.1
      have hhigh : c.toNat ≤ 0x5A := UInt32.le_iff_toNat_le.mp hc.2
      have hsmall : (c.val + ('a'.val - 'A'.val)).toNat = c.toNat + 0x20 := by
        rw [UInt32.toNat_add, Nat.mod_eq_of_lt]
        · rfl
        · show c.toNat + 0x20 < _
          omega
      have hprinting : ∀ d : Char, d.toNat = c.toNat + 0x20 → Text.isBlank d = false :=
        fun d hd => Text.isBlank_of_printing (by omega) (by omega)
      refine (hprinting _ ?_).trans (Text.isBlank_of_printing (by omega) (by omega)).symm
      exact hsmall
    · rfl

/-- A text is a keyword in any case, with white space between the words if there are two. -/
inductive Spells : String × Option String → List Char → Prop
  | word {first : String} {letters : List Char} (h : letters.map folded = first.toList) :
    Spells (first, none) letters
  | words {first second : String} {letters blanks letters' : List Char}
    (h : letters.map folded = first.toList) (hne : blanks ≠ []) (hblank : Text.Blank blanks)
    (h' : letters'.map folded = second.toList) :
    Spells (first, some second) (letters ++ (blanks ++ letters'))

/-- A word of small letters. -/
structure Lettered (word : List Char) : Prop where
  ne_nil : word ≠ []
  isLower : ∀ c ∈ word, c.isLower = true

/-- Keywords are made of one or two words of small letters. -/
structure Words (keywords : List (String × Option String)) : Prop where
  first : ∀ keyword ∈ keywords, Lettered keyword.1.toList
  second : ∀ keyword ∈ keywords, ∀ second, keyword.2 = some second → Lettered second.toList

theorem words_whereKeywords : Words whereKeywords where
  first _ hmem := by
    rw [List.mem_singleton.mp hmem]
    exact ⟨by decide, List.all_eq_true.mp (by decide)⟩
  second _ hmem _ hsecond := by
    rw [List.mem_singleton.mp hmem] at hsecond
    cases hsecond

theorem words_trailingKeywords : Words trailingKeywords where
  first keyword hmem := by
    simp only [trailingKeywords, List.mem_cons, List.not_mem_nil, or_false] at hmem
    rcases hmem with rfl | rfl | rfl | rfl | rfl <;>
      exact ⟨by decide, List.all_eq_true.mp (by decide)⟩
  second keyword hmem second hsecond := by
    simp only [trailingKeywords, List.mem_cons, List.not_mem_nil, or_false] at hmem
    rcases hmem with rfl | rfl | rfl | rfl | rfl <;> cases hsecond <;>
      exact ⟨by decide, List.all_eq_true.mp (by decide)⟩

/-- What stands for a small letter is neither white space nor a mark. -/
theorem plain_of_folded {c : Char} (h : (folded c).isLower = true) :
    Text.isBlank c = false ∧ c ≠ '\'' ∧ c ≠ '(' ∧ c ≠ ')' := by
  refine ⟨?_, ?_, ?_, ?_⟩
  · rw [← isBlank_folded]
    have hrange :
        (decide ('a'.val ≤ (folded c).val) && decide ((folded c).val ≤ 'z'.val)) = true := h
    rw [Bool.and_eq_true, decide_eq_true_eq, decide_eq_true_eq, UInt32.le_iff_toNat_le,
      UInt32.le_iff_toNat_le] at hrange
    exact Text.isBlank_of_printing (Nat.le_trans (by decide) hrange.1)
      (Nat.le_trans hrange.2 (by decide))
  all_goals
    rintro rfl
    revert h
    decide

theorem Lettered.plain (h : Lettered word) {letters : List Char}
    (hl : letters.map folded = word) :
    ∀ c ∈ letters, Text.isBlank c = false ∧ c ≠ '\'' ∧ c ≠ '(' ∧ c ≠ ')' := fun _ hc =>
  plain_of_folded (h.isLower _ (hl ▸ List.mem_map_of_mem hc))

/-- A keyword starts with the first letter of its first word. -/
theorem Spells.exists_cons (hk : Words keywords) (hmem : keyword ∈ keywords)
    (h : Spells keyword written) :
    ∃ c rest, written = c :: rest ∧ keyword.1.toList.head? = some (folded c) ∧
      Text.isBlank c = false := by
  have hfirst := hk.first keyword hmem
  have hletters : ∀ letters : List Char, letters.map folded = keyword.1.toList →
      ∃ c rest, letters = c :: rest ∧ keyword.1.toList.head? = some (folded c) ∧
        Text.isBlank c = false := by
    intro letters hl
    cases letters with
    | nil => exact absurd hl.symm hfirst.ne_nil
    | cons c rest =>
      exact ⟨c, rest, rfl, by rw [← hl]; rfl, (hfirst.plain hl c List.mem_cons_self).1⟩
  cases h with
  | word h => exact hletters written h
  | words h =>
    obtain ⟨c, rest, rfl, hc⟩ := hletters _ h
    exact ⟨c, _, rfl, hc⟩

theorem Spells.unmarked (hk : Words keywords) (hmem : keyword ∈ keywords)
    (h : Spells keyword written) : Unmarked written := by
  have hfirst := hk.first keyword hmem
  have hsecond := hk.second keyword hmem
  cases h with
  | word h => exact fun c hc => (hfirst.plain h c hc).2
  | words h _ hblank h' =>
    intro c hc
    rcases List.mem_append.mp hc with hc | hc
    · exact (hfirst.plain h c hc).2
    rcases List.mem_append.mp hc with hc | hc
    · exact unmarked_of_blank hblank c hc
    · exact ((hsecond _ rfl).plain h' c hc).2

/-! ## Texts that begin with a keyword -/

/-- A text begins with a word. -/
theorem afterWord?_eq_some_iff :
    afterWord? word text = some rest ↔
      ∃ letters, letters.map folded = word ∧ text = letters ++ rest := by
  induction word generalizing text with
  | nil => simp [afterWord?, eq_comm]
  | cons w word ih =>
    constructor
    · intro h
      cases text with
      | nil => cases h
      | cons c text =>
        rw [afterWord?] at h
        split at h
        · next hc =>
          obtain ⟨letters, rfl, rfl⟩ := ih.mp h
          exact ⟨c :: letters, by rw [List.map_cons, hc], rfl⟩
        · cases h
    · rintro ⟨letters, hletters, rfl⟩
      cases letters with
      | nil => cases hletters
      | cons c letters =>
        rw [List.map_cons, List.cons.injEq] at hletters
        rw [List.cons_append, afterWord?, if_pos hletters.1]
        exact ih.mpr ⟨letters, hletters.2, rfl⟩

/-- The text, if a word can end in front of it. -/
def ended? (text : List Char) : Option (List Char) := if endsWord text then some text else none

theorem ended?_eq_some_iff : ended? text = some rest ↔ text = rest ∧ endsWord rest = true := by
  unfold ended?
  split
  · next h => exact ⟨fun he => ⟨Option.some.inj he, Option.some.inj he ▸ h⟩, fun he => he.1 ▸ rfl⟩
  · next h => exact ⟨nofun, fun he => absurd he.2 (he.1 ▸ h)⟩

theorem afterKeyword?_word (first : String) (text : List Char) :
    afterKeyword? (first, none) text = (afterWord? first.toList text).bind ended? := rfl

theorem afterKeyword?_words (first second : String) (text : List Char) :
    afterKeyword? (first, some second) text = (afterWord? first.toList text).bind fun behind =>
      if behind.head?.any Text.isBlank then
        (afterWord? second.toList (Text.trimStart behind)).bind ended?
      else none := rfl

theorem afterKeyword?_eq_some (h : afterKeyword? keyword text = some rest) :
    endsWord rest = true ∧ ∃ written, Spells keyword written ∧ text = written ++ rest := by
  obtain ⟨first, second | second⟩ := keyword
  · rw [afterKeyword?_word, Option.bind_eq_some_iff] at h
    obtain ⟨behind, hfirst, hend⟩ := h
    obtain ⟨rfl, hend⟩ := ended?_eq_some_iff.mp hend
    obtain ⟨letters, hletters, htext⟩ := afterWord?_eq_some_iff.mp hfirst
    exact ⟨hend, letters, .word hletters, htext⟩
  · rw [afterKeyword?_words, Option.bind_eq_some_iff] at h
    obtain ⟨behind, hfirst, h⟩ := h
    obtain ⟨letters, hletters, htext⟩ := afterWord?_eq_some_iff.mp hfirst
    split at h
    · next hblank =>
      obtain ⟨behind', hsecond, hend⟩ := Option.bind_eq_some_iff.mp h
      obtain ⟨rfl, hend⟩ := ended?_eq_some_iff.mp hend
      obtain ⟨letters', hletters', htrim⟩ := afterWord?_eq_some_iff.mp hsecond
      obtain ⟨blanks, hblanks, hbehind, hstarts⟩ := Text.exists_trimStart behind
      refine ⟨hend, _, .words hletters ?_ hblanks hletters', ?_⟩
      · -- the text behind the first word starts with white space
        rintro rfl
        rw [List.nil_append] at hbehind
        rw [← hbehind] at hstarts
        cases behind with
        | nil => cases hblank
        | cons c behind =>
          rw [List.head?_cons, Option.any_some, hstarts c rfl] at hblank
          cases hblank
      · rw [htext, List.append_assoc, List.append_assoc, ← htrim, ← hbehind]
    · cases h

theorem afterKeyword?_of_spells (hk : Words keywords) (hmem : keyword ∈ keywords)
    (h : Spells keyword written) (hend : endsWord rest = true) :
    afterKeyword? keyword (written ++ rest) = some rest := by
  cases h with
  | @word first letters h =>
    rw [afterKeyword?_word, afterWord?_eq_some_iff.mpr ⟨written, h, rfl⟩]
    exact ended?_eq_some_iff.mpr ⟨rfl, hend⟩
  | @words first second letters blanks letters' h hne hblank h' =>
    have hfirst : afterWord? first.toList (letters ++ (blanks ++ letters') ++ rest)
        = some (blanks ++ (letters' ++ rest)) :=
      afterWord?_eq_some_iff.mpr ⟨letters, h, by simp⟩
    have hsecond : afterWord? second.toList (letters' ++ rest) = some rest :=
      afterWord?_eq_some_iff.mpr ⟨letters', h', rfl⟩
    have hb : (blanks ++ (letters' ++ rest)).head?.any Text.isBlank = true := by
      obtain ⟨b, blanks, rfl⟩ := List.exists_cons_of_ne_nil hne
      exact hblank b List.mem_cons_self
    have htrim : Text.trimStart (blanks ++ (letters' ++ rest)) = letters' ++ rest := by
      rw [Text.trimStart_blank_append hblank, Text.trimStart_eq_self_iff]
      have hword := hk.second _ hmem second rfl
      cases letters' with
      | nil => exact absurd h'.symm hword.ne_nil
      | cons c letters' =>
        rintro d ⟨⟩
        exact (hword.plain h' c List.mem_cons_self).1
    rw [afterKeyword?_words, hfirst, Option.bind_some, if_pos hb, htrim, hsecond]
    exact ended?_eq_some_iff.mpr ⟨rfl, hend⟩

/-! ## Places of keywords -/

/-- A keyword stands between two parts of a text, as a whole word outside parentheses and
strings. -/
structure Stands (keywords : List (String × Option String)) (before written rest : List Char) :
    Prop where
  spelled : ∃ keyword ∈ keywords, Spells keyword written
  outer : (Scan.start.after before).outer = true
  starts : before.getLast?.any Text.isWord = false
  ends : endsWord rest = true

/-- A keyword of some length stands at a position of a text. -/
def Occurs (keywords : List (String × Option String)) (query : List Char)
    (position length : Nat) : Prop :=
  ∃ before written rest, query = before ++ (written ++ rest) ∧ before.length = position ∧
    written.length = length ∧ Stands keywords before written rest

/-- The first keyword that stands at some position or behind it. -/
structure First (keywords : List (String × Option String)) (query : List Char)
    (least position length : Nat) : Prop where
  least_le : least ≤ position
  occurs : Occurs keywords query position length
  first : ∀ p n, least ≤ p → Occurs keywords query p n → position ≤ p

theorem keywordLength?_eq_some (h : keywordLength? keywords text = some length) :
    ∃ written rest, text = written ++ rest ∧ written.length = length ∧
      (∃ keyword ∈ keywords, Spells keyword written) ∧ endsWord rest = true := by
  rw [keywordLength?, Option.map_eq_some_iff] at h
  obtain ⟨rest, hfound, rfl⟩ := h
  obtain ⟨keyword, hmem, hkeyword⟩ := List.exists_of_findSome?_eq_some hfound
  obtain ⟨hend, written, hspells, rfl⟩ := afterKeyword?_eq_some hkeyword
  exact ⟨written, rest, rfl, by simp, ⟨keyword, hmem, hspells⟩, hend⟩

theorem keywordLength?_ne_none (hk : Words keywords) (hmem : keyword ∈ keywords)
    (h : Spells keyword written) (hend : endsWord rest = true) :
    keywordLength? keywords (written ++ rest) ≠ none := by
  rw [keywordLength?, Ne, Option.map_eq_none_iff, List.findSome?_eq_none_iff]
  intro hnone
  have hfound := afterKeyword?_of_spells hk hmem h hend
  rw [hnone keyword hmem] at hfound
  cases hfound

/-! ## The search -/

/-- What a search must give: the first keyword at the least position or behind it, or nothing if
there is none. -/
def Finds (keywords : List (String × Option String)) (query : List Char) (least : Nat) :
    Option (Nat × Nat) → Prop
  | some found => First keywords query least found.1 found.2
  | none => ∀ p n, least ≤ p → ¬ Occurs keywords query p n

/-- A keyword that stands at the very position is seen there. -/
theorem keywordLength?_of_occurs (hk : Words keywords)
    (h : Occurs keywords (before ++ text) before.length length) :
    (Scan.start.after before).outer = true ∧ before.getLast?.any Text.isWord = false ∧
      keywordLength? keywords text ≠ none := by
  obtain ⟨before', written, rest, htext, hbefore, -, hstands⟩ := h
  obtain ⟨rfl, rfl⟩ := List.append_inj htext hbefore.symm
  obtain ⟨keyword, hmem, hspells⟩ := hstands.spelled
  exact ⟨hstands.outer, hstands.starts, keywordLength?_ne_none hk hmem hspells hstands.ends⟩

/-- The search goes on behind `before`, where no keyword was found. -/
theorem finds_findKeyword (hk : Words keywords) (least : Nat)
    (hpassed : ∀ p n, least ≤ p → Occurs keywords (before ++ text) p n → before.length ≤ p) :
    Finds keywords (before ++ text) least
      (findKeyword keywords least before.length before.getLast? (Scan.start.after before)
        text) := by
  induction text generalizing before with
  | nil =>
    intro p n hp hoccurs
    have hlength := hpassed p n hp hoccurs
    obtain ⟨before', written, rest, htext, rfl, -, hstands⟩ := hoccurs
    obtain ⟨keyword, hmem, hspells⟩ := hstands.spelled
    obtain ⟨c, others, rfl, -⟩ := hspells.exists_cons hk hmem
    have := congrArg List.length htext
    simp only [List.append_nil, List.length_append, List.length_cons] at this
    omega
  | cons c text ih =>
    rw [findKeyword]
    split
    · next length hhere =>
      split at hhere
      · next hplace =>
        simp only [Bool.and_eq_true, Bool.not_eq_true', decide_eq_true_eq] at hplace
        obtain ⟨⟨houter, hleast⟩, hstarts⟩ := hplace
        obtain ⟨written, rest, htext, hlength, hspelled, hends⟩ := keywordLength?_eq_some hhere
        exact ⟨hleast, ⟨before, written, rest, by rw [htext], rfl, hlength,
          ⟨hspelled, houter, hstarts, hends⟩⟩, hpassed⟩
      · cases hhere
    · next hhere =>
      have hnext := @ih (before ++ [c]) (fun p n hp hoccurs => by
        rw [List.append_assoc, List.singleton_append] at hoccurs
        rw [List.length_append, List.length_singleton]
        refine Nat.lt_of_le_of_ne (hpassed p n hp hoccurs) fun hposition => ?_
        subst hposition
        obtain ⟨houter, hstarts, hkeyword⟩ := keywordLength?_of_occurs hk hoccurs
        rw [if_pos (by simp [houter, hp, hstarts])] at hhere
        exact hkeyword hhere)
      simpa using hnext

/-- The search from the start of a text. -/
theorem findKeyword_first (hk : Words keywords) (query : List Char) (least : Nat) :
    Finds keywords query least (findKeyword keywords least 0 none Scan.start query) :=
  have hpassed : ∀ p n, least ≤ p → Occurs keywords ([] ++ query) p n → 0 ≤ p :=
    fun p _ _ _ => Nat.zero_le p
  finds_findKeyword hk least hpassed

theorem findKeyword_eq_none_iff (hk : Words keywords) :
    findKeyword keywords least 0 none Scan.start query = none ↔
      ∀ p n, least ≤ p → ¬ Occurs keywords query p n := by
  have hfinds := findKeyword_first hk query least
  cases hfound : findKeyword keywords least 0 none Scan.start query with
  | none =>
    rw [hfound] at hfinds
    exact iff_of_true rfl hfinds
  | some found =>
    rw [hfound] at hfinds
    exact iff_of_false nofun fun h => h _ _ hfinds.least_le hfinds.occurs

/-- A keyword ends within its text. -/
theorem Occurs.add_le (h : Occurs keywords query position length) :
    position + length ≤ query.length := by
  obtain ⟨before, written, rest, rfl, rfl, rfl, -⟩ := h
  simp only [List.length_append]
  omega

theorem Stands.unmarked (hk : Words keywords) (h : Stands keywords before written rest) :
    Unmarked written := by
  obtain ⟨keyword, hmem, hspells⟩ := h.spelled
  exact hspells.unmarked hk hmem

theorem Stands.exists_cons (hk : Words keywords) (h : Stands keywords before written rest) :
    ∃ c others, written = c :: others ∧ (∃ keyword ∈ keywords,
      keyword.1.toList.head? = some (folded c)) ∧ Text.isBlank c = false := by
  obtain ⟨keyword, hmem, hspells⟩ := h.spelled
  obtain ⟨c, others, hwritten, hc, hplain⟩ := hspells.exists_cons hk hmem
  exact ⟨c, others, hwritten, ⟨keyword, hmem, hc⟩, hplain⟩

/-- A keyword starts in front of the end of its text. -/
theorem Occurs.lt_length (hk : Words keywords) (h : Occurs keywords query position length) :
    position < query.length := by
  obtain ⟨before, written, rest, rfl, rfl, rfl, hstands⟩ := h
  obtain ⟨c, others, rfl, -⟩ := hstands.exists_cons hk
  simp

/-! ## The two places -/

/-- The position behind the first condition keyword. -/
theorem conditionStart?_eq_some {stop : Nat} (h : conditionStart? query = some stop) :
    ∃ position length, First whereKeywords query 0 position length ∧ stop = position + length := by
  rw [conditionStart?, Option.map_eq_some_iff] at h
  obtain ⟨found, hfound, rfl⟩ := h
  have hfirst := findKeyword_first words_whereKeywords query 0
  rw [hfound] at hfirst
  exact ⟨found.1, found.2, hfirst, rfl⟩

theorem conditionStart?_eq_none_iff :
    conditionStart? query = none ↔ ∀ p n, ¬ Occurs whereKeywords query p n := by
  rw [conditionStart?, Option.map_eq_none_iff, findKeyword_eq_none_iff words_whereKeywords]
  exact ⟨fun h p n => h p n (Nat.zero_le p), fun h p n _ => h p n⟩

/-- Where the clauses behind the condition start: at the first of their keywords, or at the end
of the text if there is none. -/
inductive IsTail (query : List Char) (least : Nat) : Nat → Prop
  | clause {position length : Nat} (h : First trailingKeywords query least position length) :
    IsTail query least position
  | none (h : ∀ p n, least ≤ p → ¬ Occurs trailingKeywords query p n) :
    IsTail query least query.length

theorem tailStart_isTail (query : List Char) (least : Nat) :
    IsTail query least (tailStart query least) := by
  have hfinds := findKeyword_first words_trailingKeywords query least
  unfold tailStart
  split
  · next found hfound =>
    rw [hfound] at hfinds
    exact .clause hfinds
  · next hfound =>
    rw [hfound] at hfinds
    exact .none hfinds

theorem IsTail.le_length {least tail : Nat} (h : IsTail query least tail) :
    tail ≤ query.length := by
  cases h with
  | clause h => exact Nat.le_trans (Nat.le_add_right _ _) h.occurs.add_le
  | none => exact Nat.le_refl _

theorem IsTail.le_of_occurs {least tail : Nat} (h : IsTail query least tail)
    (hle : least ≤ position) (ho : Occurs trailingKeywords query position length) :
    tail ≤ position := by
  cases h with
  | clause h => exact h.first _ _ hle ho
  | none h => exact absurd ho (h _ _ hle)

theorem IsTail.least_le {least tail : Nat} (h : IsTail query least tail)
    (hleast : least ≤ query.length) : least ≤ tail := by
  cases h with
  | clause h => exact h.least_le
  | none => exact hleast

end Bulletin.Sql
