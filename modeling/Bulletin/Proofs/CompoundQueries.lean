import Bulletin.Proofs.PlacedConditions

/-!
# Compound queries

Two queries joined by ` UNION `. No keyword reaches over the joint, so a search in the whole finds
what a search in the first query finds, and else, further back, what one in the second query finds.
Whether the conditions get into the last query depends on which clauses the first one has.

* `findKeyword_joined` — a search in the whole
* `conditionStart?_joined`, `tailStart_joined` — the two places that a condition needs
* `not_prefix_of_condition`, `not_prefix_of_clause` — what happens to the first query
* `filters_in_last_query_iff` — when filters get into the last query only
-/

namespace Bulletin.Sql

variable {keyword : String × Option String} {keywords : List (String × Option String)}
  {word text rest next a b conditions : List Char} {least position : Nat} {before : Option Char}
  {scan : Scan} {c : Char}

/-! ## A text that goes on behind a space -/

theorem afterWord?_append (hc : folded c ∉ word) :
    afterWord? word (text ++ c :: rest) = (afterWord? word text).map (· ++ c :: rest) := by
  induction word generalizing text with
  | nil => rfl
  | cons w word ih =>
    rw [List.mem_cons, not_or] at hc
    cases text with
    | nil => exact if_neg hc.1
    | cons d text =>
      rw [List.cons_append, afterWord?, afterWord?]
      split
      · exact ih hc.2
      · rfl

theorem Lettered.space_notMem (h : Lettered word) : folded ' ' ∉ word :=
  fun hmem => absurd (h.isLower _ hmem) (by decide)

theorem isWord_space : Text.isWord ' ' = false := by decide +kernel

theorem endsWord_space (next : List Char) : endsWord (' ' :: next) = true := by
  rw [endsWord, isWord_space, Bool.not_false]

theorem ended?_append (text next : List Char) :
    ended? (text ++ ' ' :: next) = (ended? text).map (· ++ ' ' :: next) := by
  cases text with
  | nil => exact ended?_eq_some_iff.mpr ⟨rfl, endsWord_space next⟩
  | cons c text =>
    unfold ended?
    show (if endsWord (c :: text) then _ else _) = _
    split <;> rfl

/-- No word of the keywords begins with a character, and it is no white space. -/
structure Apart (keywords : List (String × Option String)) (c : Char) : Prop where
  plain : Text.isBlank c = false
  first : ∀ keyword ∈ keywords, keyword.1.toList.head? ≠ some (folded c)
  second : ∀ keyword ∈ keywords, ∀ second, keyword.2 = some second →
    second.toList.head? ≠ some (folded c)

theorem afterWord?_eq_none {c : Char} (hne : word ≠ []) (h : word.head? ≠ some (folded c)) :
    afterWord? word (c :: text) = none := by
  obtain ⟨w, word, rfl⟩ := List.exists_cons_of_ne_nil hne
  exact if_neg fun hc => h (congrArg some hc.symm)

theorem afterKeyword?_append (hk : Words keywords) (hmem : keyword ∈ keywords)
    (hc : Apart keywords c) :
    afterKeyword? keyword (text ++ ' ' :: c :: next)
      = (afterKeyword? keyword text).map (· ++ ' ' :: c :: next) := by
  have hended : ∀ found : Option (List Char), (found.map (· ++ ' ' :: c :: next)).bind ended?
      = (found.bind ended?).map (· ++ ' ' :: c :: next) := by
    rintro (_ | behind)
    · rfl
    · exact ended?_append behind (c :: next)
  obtain ⟨first, second | second⟩ := keyword
  · rw [afterKeyword?_word, afterKeyword?_word, afterWord?_append (hk.first _ hmem).space_notMem,
      hended]
  · have hsecond := hk.second _ hmem second rfl
    have hnone : afterWord? second.toList (Text.trimStart (' ' :: c :: next)) = none := by
      have htrim : Text.trimStart (c :: next) = c :: next :=
        Text.trimStart_eq_self_iff.mpr fun d hd => Option.some.inj hd ▸ hc.plain
      rw [show Text.trimStart (' ' :: c :: next) = Text.trimStart (c :: next) from rfl, htrim]
      exact afterWord?_eq_none hsecond.ne_nil (hc.second _ hmem second rfl)
    have hempty : afterWord? second.toList [] = none := by
      obtain ⟨w, others, hw⟩ := List.exists_cons_of_ne_nil hsecond.ne_nil
      rw [hw]
      rfl
    rw [afterKeyword?_words, afterKeyword?_words,
      afterWord?_append (hk.first _ hmem).space_notMem]
    cases afterWord? first.toList text with
    | none => rfl
    | some behind =>
      rw [Option.map_some, Option.bind_some, Option.bind_some]
      cases behind with
      | nil =>
        have hblank : (some ' ').any Text.isBlank = true := by decide
        rw [List.nil_append, List.head?_cons, if_pos hblank, hnone]
        rfl
      | cons e behind =>
        rw [List.cons_append, List.head?_cons, List.head?_cons]
        split
        · cases htrim : Text.trimStart (e :: behind) with
          | nil =>
            -- nothing but white space in front of the space
            have hblank : Text.Blank (e :: behind) := by
              obtain ⟨lead, hlead, htext, -⟩ := Text.exists_trimStart (e :: behind)
              rwa [htext, htrim, List.append_nil]
            rw [← List.cons_append, Text.trimStart_blank_append hblank, hnone, hempty]
            rfl
          | cons d behind' =>
            rw [← List.cons_append, Text.trimStart_append (by rw [htrim]; simp), htrim,
              afterWord?_append hsecond.space_notMem, hended]
        · rfl

theorem keywordLength?_append (hk : Words keywords) (hc : Apart keywords c) (text : List Char) :
    keywordLength? keywords (text ++ ' ' :: c :: next) = keywordLength? keywords text := by
  have hfind : ∀ tried ⊆ keywords,
      tried.findSome? (fun keyword => afterKeyword? keyword (text ++ ' ' :: c :: next))
        = (tried.findSome? fun keyword => afterKeyword? keyword text).map
            (· ++ ' ' :: c :: next) := by
    intro tried
    induction tried with
    | nil => exact fun _ => rfl
    | cons keyword tried ih =>
      intro hsub
      rw [List.findSome?_cons, List.findSome?_cons,
        afterKeyword?_append hk (hsub List.mem_cons_self) hc]
      cases afterKeyword? keyword text with
      | some behind => rfl
      | none => exact ih fun k hk => hsub (List.mem_cons_of_mem _ hk)
  rw [keywordLength?, keywordLength?, hfind keywords (List.Subset.refl _), Option.map_map]
  congr 1
  funext behind
  simp only [Function.comp_apply, List.length_append]
  omega

/-! ## A search over the joint -/

/-- A search that goes over a space looks at the text in front of it first. -/
theorem findKeyword_append (hk : Words keywords) (hc : Apart keywords c) :
    findKeyword keywords least position before scan (text ++ ' ' :: c :: next)
      = (findKeyword keywords least position before scan text).or
          (findKeyword keywords least (position + text.length) (text.getLast?.or before)
            (scan.after text) (' ' :: c :: next)) := by
  induction text generalizing position before scan with
  | nil => rfl
  | cons d text ih =>
    rw [List.cons_append, findKeyword, findKeyword, ← List.cons_append,
      keywordLength?_append hk hc]
    split
    · rfl
    · rw [ih, List.length_cons, Nat.add_assoc, Nat.add_comm 1]
      congr 2
      cases text with
      | nil => rfl
      | cons e text => simp [List.getLast?_cons]

/-- Only whether it belongs to a word matters of the character in front. -/
theorem findKeyword_before {before' : Option Char}
    (h : before.any Text.isWord = before'.any Text.isWord) :
    findKeyword keywords least position before scan text
      = findKeyword keywords least position before' scan text := by
  cases text with
  | nil => rfl
  | cons c text => rw [findKeyword, findKeyword, h]

/-- Further back the same is found, further back. -/
theorem findKeyword_shift (offset : Nat) :
    findKeyword keywords least (offset + position) before scan text
      = (findKeyword keywords (least - offset) position before scan text).map
          fun found => (offset + found.1, found.2) := by
  induction text generalizing position before scan with
  | nil => rfl
  | cons c text ih =>
    have hleast : decide (least ≤ offset + position) = decide (least - offset ≤ position) :=
      decide_eq_decide.mpr (by omega)
    rw [findKeyword, findKeyword, hleast]
    split
    · rfl
    · rw [Nat.add_assoc, ih]

/-- A search passes over a character at which no keyword starts. -/
theorem findKeyword_cons
    (h : before.any Text.isWord = true ∨ keywordLength? keywords (c :: text) = none) :
    findKeyword keywords least position before scan (c :: text)
      = findKeyword keywords least (position + 1) (some c) (scan.next c) text := by
  rw [findKeyword]
  rcases h with h | h <;> simp [h]

theorem keywordLength?_eq_none (hk : Words keywords)
    (h : ∀ keyword ∈ keywords, keyword.1.toList.head? ≠ some (folded c)) :
    keywordLength? keywords (c :: text) = none := by
  refine Option.eq_none_iff_forall_ne_some.mpr fun length hlength => ?_
  obtain ⟨written, rest, htext, -, ⟨keyword, hmem, hspells⟩, -⟩ := keywordLength?_eq_some hlength
  obtain ⟨d, others, rfl, hd, -⟩ := hspells.exists_cons hk hmem
  rw [List.cons_append, List.cons.injEq] at htext
  exact h keyword hmem (htext.1 ▸ hd)

theorem Words.not_space (hk : Words keywords) :
    ∀ keyword ∈ keywords, keyword.1.toList.head? ≠ some (folded ' ') := fun keyword hmem hhead =>
  (hk.first keyword hmem).space_notMem (List.mem_of_mem_head? hhead)

theorem apart_whereKeywords : Apart whereKeywords 'U' where
  plain := by decide
  first := by decide
  second _ hmem _ hsecond := by
    rw [List.mem_singleton.mp hmem] at hsecond
    cases hsecond

theorem apart_trailingKeywords : Apart trailingKeywords 'U' where
  plain := by decide
  first := by decide
  second keyword hmem second hsecond := by
    simp only [trailingKeywords, List.mem_cons, List.not_mem_nil, or_false] at hmem
    rcases hmem with rfl | rfl | rfl | rfl | rfl <;> cases hsecond <;> decide

/-- What stands between two queries. -/
def joint : List Char := [' ', 'U', 'N', 'I', 'O', 'N', ' ']

theorem toList_union : " UNION ".toList = joint := rfl

/-- No keyword starts in the joint. -/
theorem findKeyword_joint (hk : Words keywords) (hu : Apart keywords 'U') :
    findKeyword keywords least position before Scan.start (joint ++ b)
      = findKeyword keywords least (position + 7) (some ' ') Scan.start b := by
  have hword : ∀ d ∈ ['U', 'N', 'I', 'O'], (some d).any Text.isWord = true :=
    List.all_eq_true.mp (by decide +kernel)
  show findKeyword keywords least position before Scan.start
    (' ' :: 'U' :: 'N' :: 'I' :: 'O' :: 'N' :: ' ' :: b) = _
  rw [findKeyword_cons (.inr (keywordLength?_eq_none hk hk.not_space)),
    findKeyword_cons (.inr (keywordLength?_eq_none hk hu.first)),
    findKeyword_cons (.inl (hword 'U' (by decide))),
    findKeyword_cons (.inl (hword 'N' (by decide))),
    findKeyword_cons (.inl (hword 'I' (by decide))),
    findKeyword_cons (.inl (hword 'O' (by decide))),
    findKeyword_cons (.inl (hword 'N' (by decide)))]
  rfl

/-- A search in two joined queries finds what a search in the first finds, and else what a search
in the second finds. -/
theorem findKeyword_joined (hk : Words keywords) (hu : Apart keywords 'U') (ha : Balanced a) :
    findKeyword keywords least 0 none Scan.start (a ++ joint ++ b)
      = (findKeyword keywords least 0 none Scan.start a).or
          ((findKeyword keywords (least - (a ++ joint).length) 0 none Scan.start b).map
            fun found => ((a ++ joint).length + found.1, found.2)) := by
  have hspace : (some ' ').any Text.isWord = (none : Option Char).any Text.isWord := by
    rw [Option.any_some, isWord_space, Option.any_none]
  have hjoint : joint ++ b = ' ' :: 'U' :: (joint.drop 2 ++ b) := rfl
  have hscan : Scan.start.after a = Scan.start := ha.after 0
  have hoffset : 0 + a.length + 7 = (a ++ joint).length + 0 := by simp [joint]
  rw [List.append_assoc, hjoint, findKeyword_append hk hu, ← hjoint, hscan,
    findKeyword_joint hk hu, findKeyword_before hspace, hoffset, findKeyword_shift]

/-! ## The two places in joined queries -/

theorem conditionStart?_joined (ha : Balanced a) (hnone : conditionStart? a = none) :
    conditionStart? (a ++ joint ++ b)
      = (conditionStart? b).map ((a ++ joint).length + ·) := by
  rw [conditionStart?, Option.map_eq_none_iff] at hnone
  rw [conditionStart?, findKeyword_joined words_whereKeywords apart_whereKeywords ha, hnone,
    Option.none_or, Nat.zero_sub, conditionStart?, Option.map_map, Option.map_map]
  congr 1
  funext found
  exact Nat.add_assoc _ _ _

theorem tailStart_joined (ha : Balanced a)
    (hnone : ∀ p n, least ≤ p → ¬ Occurs trailingKeywords a p n) :
    tailStart (a ++ joint ++ b) least
      = (a ++ joint).length + tailStart b (least - (a ++ joint).length) := by
  rw [← findKeyword_eq_none_iff words_trailingKeywords] at hnone
  rw [tailStart, findKeyword_joined words_trailingKeywords apart_trailingKeywords ha, hnone,
    Option.none_or, tailStart]
  cases findKeyword trailingKeywords (least - (a ++ joint).length) 0 none Scan.start b with
  | none => exact List.length_append
  | some found => rfl

/-- A keyword of the first query stands in the whole. -/
theorem Occurs.joined {p n : Nat} (h : Occurs keywords a p n) :
    Occurs keywords (a ++ joint ++ b) p n := by
  obtain ⟨before, written, rest, rfl, rfl, rfl, hstands⟩ := h
  refine ⟨before, written, rest ++ (joint ++ b), by simp, rfl, rfl, { hstands with ends := ?_ }⟩
  cases rest with
  | nil => exact endsWord_space (joint.tail ++ b)
  | cons c rest => exact hstands.ends

/-! ## Conditions that go into the last query -/

theorem withCondition_joined_of_some (ha : Balanced a) (hnone : conditionStart? a = none)
    {stop : Nat} (hb : conditionStart? b = some stop) :
    withCondition (a ++ joint ++ b) conditions = a ++ joint ++ withCondition b conditions := by
  have hstart : conditionStart? (a ++ joint ++ b) = some ((a ++ joint).length + stop) := by
    rw [conditionStart?_joined ha hnone, hb, Option.map_some]
  have htail : tailStart (a ++ joint ++ b) ((a ++ joint).length + stop)
      = (a ++ joint).length + tailStart b stop := by
    rw [tailStart_joined ha, Nat.add_sub_cancel_left]
    intro p n hp hoccurs
    have := hoccurs.lt_length words_trailingKeywords
    rw [List.length_append] at hp
    omega
  rw [withCondition_of_some hstart, withCondition_of_some hb, htail, List.take_length_add_append,
    List.take_length_add_append, List.drop_length_add_append, List.drop_length_add_append]
  simp only [List.append_assoc]

theorem withCondition_joined_of_none (ha : Balanced a) (hnone : conditionStart? a = none)
    (hb : conditionStart? b = none) (hclauses : ∀ p n, ¬ Occurs trailingKeywords a p n)
    (hhead : Text.trimEnd (b.take (tailStart b 0)) ≠ []) :
    withCondition (a ++ joint ++ b) conditions = a ++ joint ++ withCondition b conditions := by
  have hstart : conditionStart? (a ++ joint ++ b) = none := by
    rw [conditionStart?_joined ha hnone, hb, Option.map_none]
  have htail : tailStart (a ++ joint ++ b) 0 = (a ++ joint).length + tailStart b 0 := by
    rw [tailStart_joined ha fun p n _ => hclauses p n, Nat.zero_sub]
  rw [withCondition_of_none hstart, withCondition_of_none hb, htail, List.take_length_add_append,
    List.drop_length_add_append, Text.trimEnd_append hhead]
  simp only [List.append_assoc]

/-! ## Conditions that do not -/

/-- The clauses behind a condition start with none but the letters of their keywords. -/
theorem IsTail.head?_ne {position : Nat} (h : IsTail b least position) {c : Char}
    (hc : ∀ keyword ∈ trailingKeywords, keyword.1.toList.head? ≠ some (folded c)) :
    (b.drop position).head? ≠ some c := by
  cases h with
  | clause h =>
    obtain ⟨before, written, rest, rfl, rfl, -, hstands⟩ := h.occurs
    obtain ⟨d, others, rfl, ⟨keyword, hmem, hd⟩, -⟩ := hstands.exists_cons words_trailingKeywords
    rw [List.drop_left]
    rintro ⟨⟩
    exact hc keyword hmem hd
  | none =>
    rw [List.drop_length]
    nofun

/-- The start of a text in parentheses with a space in front is not balanced. -/
theorem not_balanced_of_opened {condition : List Char} (hc : Balanced condition)
    (hopens : text <+: ' ' :: '(' :: condition) (hlength : 2 ≤ text.length) :
    ¬ Balanced text := by
  intro h
  obtain ⟨rest, hrest⟩ := hopens
  match text, hlength with
  | _ :: _ :: text, _ =>
    obtain ⟨rfl, rfl, rfl⟩ := by simpa using hrest
    have hinside : ((Scan.mk 1 false).after text).outer = false := hc.inside
    have hafter : (Scan.mk 1 false).after text = Scan.start := h.after 0
    rw [hafter] at hinside
    cases hinside

section

variable {gap condition gap' tail behind behind' : List Char}

/-- Only the space can be white space. -/
theorem length_gap_le (blank : Text.Blank gap) (h : gap ++ rest = ' ' :: '(' :: behind) :
    gap.length ≤ 1 := by
  match gap, blank with
  | [], _ | [_], _ => simp
  | _ :: d :: _, blank =>
    obtain ⟨rfl, rfl, -⟩ := by simpa using h
    exact absurd (blank '(' (by simp)) (by decide)

theorem blank_of_short (hopens : text <+: ' ' :: rest) (hlength : text.length < 2) :
    Text.Blank text := by
  match text, hlength with
  | [], _ => exact nofun
  | [d], _ =>
    obtain rfl : d = ' ' := by simpa using hopens
    intro c hc
    rw [List.mem_singleton.mp hc]
    decide

/-- The joint does not open a parenthesis. -/
theorem exists_opened (h : ' ' :: '(' :: behind = text ++ (joint ++ behind')) :
    ∃ text', text = ' ' :: '(' :: text' := by
  match text, h with
  | [], h => simp [joint] at h
  | [c], h => simp [joint] at h
  | c :: d :: text', h =>
    obtain ⟨rfl, rfl, -⟩ := by simpa using h
    exact ⟨text', rfl⟩

/-- If parentheses are put around a condition, the text behind the keyword is not left as it is:
it would have to start with the new parenthesis, and so would the condition, which then starts with
one more. -/
theorem opened_ne (hcondition : Balanced condition) (hgap : Balanced (gap ++ condition))
    (htext : Balanced text) (blank : Text.Blank gap) (blank' : Text.Blank gap')
    (hplain : Text.StartsPlain tail) (hhead : tail.head? ≠ some '(')
    (hparts : gap ++ condition ++ gap' ++ tail = text ++ (joint ++ b)) :
    ' ' :: '(' :: condition ++ behind ≠ text ++ (joint ++ behind') := by
  intro heq
  obtain ⟨text', rfl⟩ := exists_opened heq
  -- a balanced text that starts with the parenthesis goes beyond the condition in it
  have hlong : ' ' :: '(' :: condition <+: ' ' :: '(' :: text' := by
    rcases List.prefix_or_prefix_of_prefix ⟨_, heq⟩ (List.prefix_append _ _) with h | h
    · exact h
    · exact absurd htext (not_balanced_of_opened hcondition h (by simp))
  have hopens : gap ++ condition <+: ' ' :: '(' :: condition := by
    have hshort : gap.length ≤ 1 := by
      rw [List.append_assoc, List.append_assoc] at hparts
      exact length_gap_le blank hparts
    have hold : gap ++ condition <+: ' ' :: '(' :: text' ++ (joint ++ b) :=
      ⟨gap' ++ tail, by rw [← hparts, List.append_assoc (gap ++ condition)]⟩
    have hnew : ' ' :: '(' :: condition <+: ' ' :: '(' :: text' ++ (joint ++ b) :=
      hlong.trans (List.prefix_append _ _)
    refine List.prefix_of_prefix_length_le hold hnew ?_
    simp only [List.length_append, List.length_cons]
    omega
  -- so the old condition is nothing but white space, and the tail starts with the parenthesis
  have hlength : (gap ++ condition).length < 2 :=
    Nat.lt_of_not_le fun h => not_balanced_of_opened hcondition hopens h hgap
  have hblank : Text.Blank (gap ++ condition ++ gap') := fun c hc =>
    (List.mem_append.mp hc).elim (blank_of_short hopens hlength c) (blank' c)
  have htrim := congrArg Text.trimStart hparts
  rw [Text.trimStart_blank_append hblank, Text.trimStart_eq_self_iff.mpr hplain] at htrim
  exact hhead (congrArg List.head? htrim)

end

theorem Occurs.length_where {p n : Nat} (h : Occurs whereKeywords a p n) : n = 5 := by
  obtain ⟨before, written, rest, rfl, rfl, rfl, hstands⟩ := h
  obtain ⟨keyword, hmem, hspells⟩ := hstands.spelled
  rw [List.mem_singleton.mp hmem] at hspells
  cases hspells with
  | word h => exact (List.length_map folded).symm.trans (congrArg List.length h)

/-- What the whole starts with is in the first query, if it is no longer. -/
theorem prefix_of_joined (h : a ++ joint ++ b = text ++ rest) (hlength : text.length ≤ a.length) :
    text <+: a := by
  have htext : text <+: a ++ joint ++ b := ⟨rest, h.symm⟩
  have ha : a <+: a ++ joint ++ b := ⟨joint ++ b, by rw [List.append_assoc]⟩
  exact List.prefix_of_prefix_length_le htext ha hlength

/-- A condition of the first query, which gets parentheses, is not left as it is. -/
theorem not_prefix_of_condition (ha : Balanced a) (hb : Balanced b)
    (hends : Text.EndsPlain (a ++ joint ++ b)) {p n : Nat} (h : Occurs whereKeywords a p n) :
    ¬ a ++ joint <+: withCondition (a ++ joint ++ b) conditions := by
  have hwhole : Balanced (a ++ joint ++ b) := (ha.append (by decide)).append hb
  have hplaced := placed_withCondition conditions hwhole hends
  generalize withCondition (a ++ joint ++ b) conditions = output at hplaced
  rintro ⟨others, hothers⟩
  cases hplaced with
  | behindTables _ _ no_condition => exact no_condition _ _ h.joined
  | @behindCondition before word gap condition gap' tail parts blank blank' first isTail outer
      outer' =>
    have hle : before.length ≤ p := first.first p n (Nat.zero_le p) h.joined
    have hword : word.length = n := first.occurs.length_where.trans h.length_where.symm
    have hend := h.add_le
    obtain ⟨text, rfl⟩ : before ++ word <+: a := by
      refine prefix_of_joined (parts.trans (List.append_assoc (before ++ word) _ _)) ?_
      rw [List.length_append]
      omega
    have hold : Balanced (gap ++ condition ++ gap') := outer.of_append outer'
    have hgap : Balanced (gap ++ condition) :=
      Balanced.of_unmarked (show Unmarked [] from nofun) (unmarked_of_blank blank') hold
    have hcondition : Balanced condition :=
      Balanced.of_append (unmarked_of_blank blank).balanced hgap
    have htail := isTail.head?_ne (c := '(') (by decide)
    have hplain := isTail.startsPlain
    rw [parts, List.drop_left] at htail hplain
    have hparts : gap ++ condition ++ gap' ++ tail = text ++ (joint ++ b) :=
      (List.append_right_inj (before ++ word)).mp (by simpa using parts.symm)
    have hopened : ' ' :: '(' :: condition ++ (") AND ".toList ++ (conditions ++ spaced tail))
        = text ++ (joint ++ others) :=
      (List.append_right_inj (before ++ word)).mp (by simpa using hothers.symm)
    exact opened_ne hcondition hgap (outer.of_append ha) blank blank' hplain htail hparts hopened

/-- A clause of the first query that must stand behind a condition gets one in front of it. -/
theorem not_prefix_of_clause (ha : Balanced a) (hb : Balanced b)
    (hends : Text.EndsPlain (a ++ joint ++ b)) (hnone : conditionStart? (a ++ joint ++ b) = none)
    {p n : Nat} (h : Occurs trailingKeywords a p n) :
    ¬ a ++ joint <+: withCondition (a ++ joint ++ b) conditions := by
  have hwhole : Balanced (a ++ joint ++ b) := (ha.append (by decide)).append hb
  have hplaced := placed_withCondition conditions hwhole hends
  generalize withCondition (a ++ joint ++ b) conditions = output at hplaced
  rintro ⟨others, hothers⟩
  cases hplaced with
  | behindCondition _ _ _ first => exact conditionStart?_eq_none_iff.mp hnone _ _ first.occurs
  | @behindTables head gap tail parts blank _ isTail _ =>
    have hle : (head ++ gap).length ≤ p := isTail.le_of_occurs (Nat.zero_le p) h.joined
    have hlt := h.lt_length words_trailingKeywords
    obtain ⟨text, rfl⟩ : head ++ gap <+: a := prefix_of_joined parts (by omega)
    obtain ⟨c, text, rfl⟩ : ∃ c others, text = c :: others := by
      refine List.exists_cons_of_ne_nil ?_
      rintro rfl
      rw [List.append_nil] at hlt
      omega
    obtain rfl : tail = c :: text ++ (joint ++ b) :=
      (List.append_right_inj (head ++ gap)).mp (by simpa using parts.symm)
    have htail := isTail.head?_ne (c := 'W') (by decide)
    have hstarts := isTail.startsPlain
    rw [parts, List.drop_left] at htail hstarts
    have hplain : Text.StartsPlain (c :: text ++ (joint ++ others)) := hstarts
    -- the new keyword stands where the old one did
    have hbehind : " WHERE ".toList ++ (conditions ++ spaced (c :: text ++ (joint ++ b)))
        = gap ++ (c :: text ++ (joint ++ others)) :=
      (List.append_right_inj head).mp (by simpa using hothers.symm)
    have htrim := congrArg Text.trimStart hbehind
    rw [Text.trimStart_blank_append blank, Text.trimStart_eq_self_iff.mpr hplain] at htrim
    exact htail (congrArg List.head? htrim.symm)

/-- A second query that is all clauses has no tables of its own to put a condition behind. -/
theorem withCondition_joined_ne (ha : Balanced a) (hnone : conditionStart? a = none)
    (hb : conditionStart? b = none) (hclauses : ∀ p n, ¬ Occurs trailingKeywords a p n)
    (htail : tailStart b 0 = 0) :
    withCondition (a ++ joint ++ b) conditions ≠ a ++ joint ++ withCondition b conditions := by
  have hstart : conditionStart? (a ++ joint ++ b) = none := by
    rw [conditionStart?_joined ha hnone, hb, Option.map_none]
  have hwhole : tailStart (a ++ joint ++ b) 0 = (a ++ joint).length := by
    rw [tailStart_joined ha fun p n _ => hclauses p n, Nat.zero_sub, htail, Nat.add_zero]
  have hjoint : Text.trimEnd (a ++ joint) = a ++ joint.dropLast := Text.trimEnd_append (by decide)
  rw [withCondition_of_none hstart, withCondition_of_none hb, hwhole, htail, List.take_left,
    List.drop_left, hjoint]
  -- the space behind the joint is lost
  intro heq
  have hlength := congrArg List.length heq
  simp only [List.length_append, List.length_dropLast, List.take_zero, List.drop_zero,
    show (Text.trimEnd ([] : List Char)).length = 0 from rfl, show joint.length = 7 from rfl]
    at hlength
  omega

/-! ## Both together -/

/-- A text that starts with no clause keeps something in front of its first clause. -/
theorem trimEnd_take_ne_nil (hne : b ≠ []) (hplain : Text.StartsPlain b)
    (htail : tailStart b 0 ≠ 0) : Text.trimEnd (b.take (tailStart b 0)) ≠ [] := by
  obtain ⟨gap, hgap, htake, -⟩ := Text.exists_trimEnd (b.take (tailStart b 0))
  intro hnil
  obtain ⟨c, rest, rfl⟩ := List.exists_cons_of_ne_nil hne
  obtain ⟨t, ht⟩ := Nat.exists_eq_succ_of_ne_zero htail
  rw [hnil, List.nil_append, ht, List.take_succ_cons] at htake
  have hblank : Text.isBlank c = true := hgap c (htake ▸ List.mem_cons_self)
  rw [hplain c rfl] at hblank
  cases hblank

theorem tailStart_eq_zero_iff (hne : b ≠ []) :
    tailStart b 0 = 0 ↔ ∃ n, Occurs trailingKeywords b 0 n := by
  have htail := tailStart_isTail b 0
  refine ⟨fun h => ?_, fun ⟨n, h⟩ => Nat.le_zero.mp (htail.le_of_occurs (Nat.le_refl 0) h)⟩
  rw [h] at htail
  generalize hposition : 0 = position at htail
  cases htail with
  | clause h => exact ⟨_, h.occurs⟩
  | none => exact absurd (List.eq_nil_of_length_eq_zero hposition.symm) hne

/-- When the conditions get into the last query only. -/
theorem withCondition_joined_iff (ha : Balanced a) (hb : Balanced b) (hne : b ≠ [])
    (hplain : Text.StartsPlain b) (hends : Text.EndsPlain (a ++ joint ++ b)) :
    withCondition (a ++ joint ++ b) conditions = a ++ joint ++ withCondition b conditions ↔
      (∀ p n, ¬ Occurs whereKeywords a p n) ∧ ((∃ p n, Occurs whereKeywords b p n) ∨
        (∀ p n, ¬ Occurs trailingKeywords a p n) ∧ ∀ n, ¬ Occurs trailingKeywords b 0 n) := by
  constructor
  · intro heq
    have hopens : a ++ joint <+: withCondition (a ++ joint ++ b) conditions := ⟨_, heq.symm⟩
    have hnone : ∀ p n, ¬ Occurs whereKeywords a p n := fun p n h =>
      not_prefix_of_condition ha hb hends h hopens
    refine ⟨hnone, or_iff_not_imp_left.mpr fun hcondition => ?_⟩
    simp only [not_exists] at hcondition
    rw [← conditionStart?_eq_none_iff] at hnone hcondition
    have hwhole : conditionStart? (a ++ joint ++ b) = none := by
      rw [conditionStart?_joined ha hnone, hcondition, Option.map_none]
    have hclauses : ∀ p n, ¬ Occurs trailingKeywords a p n := fun p n h =>
      not_prefix_of_clause ha hb hends hwhole h hopens
    refine ⟨hclauses, fun n h => ?_⟩
    exact withCondition_joined_ne ha hnone hcondition hclauses
      ((tailStart_eq_zero_iff hne).mpr ⟨n, h⟩) heq
  · rintro ⟨hnone, hrest⟩
    rw [← conditionStart?_eq_none_iff] at hnone
    cases hstart : conditionStart? b with
    | some stop => exact withCondition_joined_of_some ha hnone hstart
    | none =>
      rcases hrest with ⟨p, n, h⟩ | ⟨hclauses, hfirst⟩
      · exact absurd h (conditionStart?_eq_none_iff.mp hstart p n)
      · refine withCondition_joined_of_none ha hnone hstart hclauses ?_
        refine trimEnd_take_ne_nil hne hplain fun htail => ?_
        obtain ⟨n, h⟩ := (tailStart_eq_zero_iff hne).mp htail
        exact hfirst n h

/-! ## Filters -/

/-- **Filters in compound queries.** Two trimmed balanced queries are joined by ` UNION `. The
filters get into the last of them, and the first is left as it is, if and only if the first has no
condition and, unless the last has one, no clause that must stand behind a condition; and then the
last must not start with such a clause. Else the condition of the first query takes them up, or
they go in front of its clause. -/
theorem filters_in_last_query_iff (a b : String) (filters : Fields Json) (ha : a ≠ "") (hb : b ≠ "")
    (hatrim : Text.trim a.toList = a.toList) (hbtrim : Text.trim b.toList = b.toList)
    (habalanced : Balanced a.toList) (hbbalanced : Balanced b.toList)
    (hend : b.toList.getLast? ≠ some ';') (hfilters : filters.entries ≠ []) :
    appendFilters (a ++ " UNION " ++ b) filters = a ++ " UNION " ++ appendFilters b filters ↔
      (∀ p n, ¬ Occurs whereKeywords a.toList p n) ∧
        ((∃ p n, Occurs whereKeywords b.toList p n) ∨
          (∀ p n, ¬ Occurs trailingKeywords a.toList p n) ∧
            ∀ n, ¬ Occurs trailingKeywords b.toList 0 n) := by
  have hane : a.toList ≠ [] := fun h => ha (String.toList_eq_nil_iff.mp h)
  have hbne : b.toList ≠ [] := fun h => hb (String.toList_eq_nil_iff.mp h)
  have hbtext := Text.trim_eq_self_iff.mp hbtrim
  have hlast : (a.toList ++ joint ++ b.toList).getLast? = b.toList.getLast? := by
    rw [List.getLast?_append, List.getLast?_eq_some_getLast hbne, Option.some_or]
  have hends : Text.EndsPlain (a.toList ++ joint ++ b.toList) := by
    rw [Text.EndsPlain, hlast]
    exact hbtext.2
  have hstarts : Text.StartsPlain (a.toList ++ joint ++ b.toList) := by
    obtain ⟨c, rest, hc⟩ := List.exists_cons_of_ne_nil hane
    have hplain := (Text.trim_eq_self_iff.mp hatrim).1
    rw [hc] at hplain ⊢
    exact hplain
  have hwhole : cleaned (a ++ " UNION " ++ b).toList = a.toList ++ joint ++ b.toList := by
    rw [String.toList_append, String.toList_append, toList_union]
    exact cleaned_eq_self (Text.trim_eq_self_iff.mpr ⟨hstarts, hends⟩) (hlast ▸ hend)
  rw [← String.toList_inj, toList_appendFilters (a ++ " UNION " ++ b) hfilters, hwhole,
    String.toList_append, String.toList_append, toList_union, toList_appendFilters b hfilters,
    cleaned_eq_self hbtrim hend]
  exact withCondition_joined_iff habalanced hbbalanced hbne hbtext.1 hends

/-- A subquery of the first query with a condition, and a condition and a clause in the last. -/
theorem filters_in_last_query_of_subquery :
    let a := "SELECT a FROM (SELECT b FROM t WHERE c) s"
    let b := "SELECT a FROM u Where d = ')' LIMIT 5"
    let filters := Fields.ofList [("region", Json.string "east")]
    a ≠ "" ∧ b ≠ "" ∧ Text.trim a.toList = a.toList ∧ Text.trim b.toList = b.toList ∧
      Balanced a.toList ∧ Balanced b.toList ∧ b.toList.getLast? ≠ some ';' ∧
      filters.entries ≠ [] ∧
      appendFilters (a ++ " UNION " ++ b) filters = a ++ " UNION " ++ appendFilters b filters := by
  intro a b filters
  have hatrim : Text.trim a.toList = a.toList := by decide +kernel
  have hbtrim : Text.trim b.toList = b.toList := by decide +kernel
  have habalanced : Balanced a.toList := by decide +kernel
  have hbbalanced : Balanced b.toList := by decide +kernel
  have hfirst : conditionStart? a.toList = none := by decide +kernel
  have hlast : conditionStart? b.toList = some 21 := by decide +kernel
  obtain ⟨position, length, hoccurs, -⟩ := conditionStart?_eq_some hlast
  refine ⟨by decide, by decide, hatrim, hbtrim, habalanced, hbbalanced, by decide, by decide, ?_⟩
  exact (filters_in_last_query_iff a b filters (by decide) (by decide) hatrim hbtrim habalanced
    hbbalanced (by decide) (by decide)).mpr
      ⟨conditionStart?_eq_none_iff.mp hfirst, .inl ⟨position, length, hoccurs.occurs⟩⟩

/-- The condition of a first query takes up the whole last query, and the filters behind it. -/
theorem filters_behind_first_condition :
    let a := "SELECT a FROM x WHERE y = 1"
    let b := "SELECT a FROM z"
    let filters := Fields.ofList [("region", Json.string "east")]
    a ≠ "" ∧ b ≠ "" ∧ Text.trim a.toList = a.toList ∧ Text.trim b.toList = b.toList ∧
      Balanced a.toList ∧ Balanced b.toList ∧ b.toList.getLast? ≠ some ';' ∧
      filters.entries ≠ [] ∧
      appendFilters (a ++ " UNION " ++ b) filters
        = "SELECT a FROM x WHERE (y = 1 UNION SELECT a FROM z) AND region = 'east'" ∧
      a ++ " UNION " ++ appendFilters b filters
        = "SELECT a FROM x WHERE y = 1 UNION SELECT a FROM z WHERE region = 'east'" ∧
      appendFilters (a ++ " UNION " ++ b) filters
        ≠ a ++ " UNION " ++ appendFilters b filters := by
  decide +kernel

end Bulletin.Sql
