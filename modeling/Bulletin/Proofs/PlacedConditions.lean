import Bulletin.Proofs.OuterKeywords

/-!
# Conditions in a query

A query is cut at the clauses that must stand behind a condition, and if it has a condition also
behind the keyword of the condition. The new conditions go in there. White space is dropped at the
cuts; everything else is kept, in its order, and stays as deep in parentheses as before, apart from
the old condition, which gets parentheses of its own.

* `exists_cleaned` — what is taken off a query first
* `placed_withCondition` — what becomes of the rest
* `filters_placed` — the two together, for the conditions of filters
-/

namespace Bulletin.Sql

variable {base conditions output query text : List Char} {least position : Nat}

/-! ## Cleaned queries -/

/-- What is taken off a query: white space in front of it, and behind it semicolons with white
space on both sides of them. -/
structure CleanedOff (query lead gap semicolons trail : List Char) : Prop where
  whole : query = lead ++ (cleaned query ++ (gap ++ semicolons ++ trail))
  blank_lead : Text.Blank lead
  blank_gap : Text.Blank gap
  eq_semicolon : ∀ c ∈ semicolons, c = ';'
  blank_trail : Text.Blank trail
  /-- no semicolon is left right in front of those that are taken off -/
  stops : gap = [] → (cleaned query).getLast? ≠ some ';'
  /-- white space behind the last semicolon is taken off in one go -/
  gap_eq_nil : semicolons = [] → gap = []

theorem exists_cleanedOff (query : List Char) :
    ∃ lead gap semicolons trail, CleanedOff query lead gap semicolons trail := by
  obtain ⟨lead, trail, hlead, htrail, hquery⟩ := Text.exists_trim query
  obtain ⟨gap, hgap, hstem, -⟩ := Text.exists_trimEnd
    ((Text.trim query).reverse.dropWhile (· == ';')).reverse
  have hsemicolons : Text.trim query = ((Text.trim query).reverse.dropWhile (· == ';')).reverse
      ++ ((Text.trim query).reverse.takeWhile (· == ';')).reverse := by
    rw [← List.reverse_append, List.takeWhile_append_dropWhile, List.reverse_reverse]
  refine ⟨lead, gap, ((Text.trim query).reverse.takeWhile (· == ';')).reverse, trail, ?_, hlead,
    hgap, fun c hc => ?_, htrail, ?_, ?_⟩
  · calc query = lead ++ (Text.trim query ++ trail) := hquery
      _ = lead ++ (cleaned query ++ (gap
            ++ ((Text.trim query).reverse.takeWhile (· == ';')).reverse ++ trail)) := by
        rw [cleaned, ← List.append_assoc (Text.trimEnd _), ← List.append_assoc (Text.trimEnd _),
          ← hstem, ← hsemicolons]
  · have hsemicolon := List.mem_takeWhile_imp (List.mem_reverse.mp hc)
    exact beq_iff_eq.mp hsemicolon
  · intro hnil hlast
    rw [hnil, List.append_nil] at hstem
    have hstop := List.head?_dropWhile_not (· == ';') (Text.trim query).reverse
    have hcleaned : Text.trimEnd ((Text.trim query).reverse.dropWhile (· == ';')).reverse
        = cleaned query := rfl
    rw [← List.getLast?_reverse, hstem, hcleaned, hlast] at hstop
    cases hstop
  · intro hnil
    rw [hnil, List.append_nil] at hsemicolons
    have hplain : Text.EndsPlain (Text.trim query) := (Text.exists_trimEnd _).choose_spec.2.2
    rw [← hsemicolons, Text.trimEnd_eq_self_iff.mpr hplain] at hstem
    exact List.append_right_eq_self.mp hstem.symm

theorem exists_cleaned (query : List Char) :
    ∃ lead gap, Text.Blank lead ∧ (∀ c ∈ gap, Text.isBlank c = true ∨ c = ';') ∧
      query = lead ++ (cleaned query ++ gap) := by
  obtain ⟨lead, gap, semicolons, trail, h⟩ := exists_cleanedOff query
  refine ⟨lead, gap ++ semicolons ++ trail, h.blank_lead, fun c hc => ?_, h.whole⟩
  rw [List.mem_append, List.mem_append] at hc
  rcases hc with (hc | hc) | hc
  · exact .inl (h.blank_gap c hc)
  · exact .inr (h.eq_semicolon c hc)
  · exact .inl (h.blank_trail c hc)

theorem endsPlain_cleaned (query : List Char) : Text.EndsPlain (cleaned query) :=
  (Text.exists_trimEnd _).choose_spec.2.2

theorem cleaned_eq_self (htrim : Text.trim text = text) (hend : text.getLast? ≠ some ';') :
    cleaned text = text := by
  have hsemicolons : text.reverse.dropWhile (· == ';') = text.reverse := by
    cases hreverse : text.reverse with
    | nil => rfl
    | cons c rest =>
      refine List.dropWhile_cons_of_neg fun hc => hend ?_
      rw [← List.head?_reverse, hreverse, List.head?_cons, beq_iff_eq.mp hc]
  rw [cleaned, htrim, hsemicolons, List.reverse_reverse]
  exact Text.trimEnd_eq_self_iff.mpr (Text.trim_eq_self_iff.mp htrim).2

theorem balanced_cleaned (h : Balanced query) : Balanced (cleaned query) := by
  obtain ⟨lead, gap, hlead, hgap, hquery⟩ := exists_cleaned query
  refine (hquery ▸ h).of_unmarked (unmarked_of_blank hlead) fun c hc => ?_
  rcases hgap c hc with hblank | rfl
  · exact unmarked_of_blank (fun d hd => List.mem_singleton.mp hd ▸ hblank) c
      (List.mem_singleton_self c)
  · decide

/-! ## The tail of a query -/

/-- The tail starts outside parentheses and strings. -/
theorem IsTail.balanced_take (h : IsTail base least position) (hb : Balanced base) :
    Balanced (base.take position) := by
  cases h with
  | clause h =>
    obtain ⟨before, written, rest, rfl, rfl, -, hstands⟩ := h.occurs
    rw [List.take_left]
    exact (hb.of_outer hstands.outer).1
  | none =>
    rw [List.take_length]
    exact hb

/-- The tail starts with a keyword, or is empty. -/
theorem IsTail.startsPlain (h : IsTail base least position) :
    Text.StartsPlain (base.drop position) := by
  cases h with
  | clause h =>
    obtain ⟨before, written, rest, rfl, rfl, -, hstands⟩ := h.occurs
    obtain ⟨c, others, rfl, -, hc⟩ := hstands.exists_cons words_trailingKeywords
    rw [List.drop_left]
    rintro d ⟨⟩
    exact hc
  | none =>
    rw [List.drop_length]
    exact nofun

theorem IsTail.trim_drop (h : IsTail base least position) (hend : Text.EndsPlain base) :
    Text.trim (base.drop position) = base.drop position := by
  refine Text.trim_eq_self_iff.mpr ⟨h.startsPlain, fun c hc => hend c ?_⟩
  rw [List.getLast?_drop] at hc
  split at hc
  · cases hc
  · exact hc

/-! ## What the text becomes -/

/-- A text with a space in front of it, or nothing. -/
def spaced : List Char → List Char
  | [] => []
  | c :: rest => ' ' :: c :: rest

theorem Balanced.spaced {text : List Char} (h : Balanced text) : Balanced (spaced text) := by
  cases text with
  | nil => exact h
  | cons c rest => exact (by decide : Balanced [' ']).append h

/-- What becomes of a query without a condition. -/
theorem withCondition_of_none (h : conditionStart? base = none) :
    withCondition base conditions
      = Text.trimEnd (base.take (tailStart base 0)) ++ " WHERE ".toList ++ conditions
        ++ spaced (Text.trim (base.drop (tailStart base 0))) := by
  simp only [withCondition, h, Option.getD_none]
  cases Text.trim (base.drop (tailStart base 0)) with
  | nil => exact (List.append_nil _).symm
  | cons c rest => rfl

/-- What becomes of a query with a condition. -/
theorem withCondition_of_some {stop : Nat} (h : conditionStart? base = some stop) :
    withCondition base conditions
      = (base.take (tailStart base stop)).take stop ++ " (".toList
        ++ Text.trim ((base.take (tailStart base stop)).drop stop) ++ ") AND ".toList ++ conditions
        ++ spaced (Text.trim (base.drop (tailStart base stop))) := by
  simp only [withCondition, h, Option.getD_some]
  cases Text.trim (base.drop (tailStart base stop)) with
  | nil => exact (List.append_nil _).symm
  | cons c rest => rfl

/-- How conditions are put into a query. All cuts are made outside parentheses and strings. -/
inductive Placed (conditions base : List Char) : List Char → Prop
  /-- a query without a condition is cut in front of its tail -/
  | behindTables {head gap tail : List Char}
    (parts : base = head ++ gap ++ tail)
    (blank : Text.Blank gap)
    (no_condition : ∀ p n, ¬ Occurs whereKeywords base p n)
    (isTail : IsTail base 0 (head ++ gap).length)
    (outer : Balanced (head ++ gap)) :
    Placed conditions base (head ++ " WHERE ".toList ++ conditions ++ spaced tail)
  /-- a query with a condition is cut behind its first `WHERE` and in front of its tail -/
  | behindCondition {before word gap condition gap' tail : List Char}
    (parts : base = before ++ word ++ (gap ++ condition ++ gap') ++ tail)
    (blank : Text.Blank gap)
    (blank' : Text.Blank gap')
    (first : First whereKeywords base 0 before.length word.length)
    (isTail : IsTail base (before ++ word).length
      (before ++ word ++ (gap ++ condition ++ gap')).length)
    (outer : Balanced (before ++ word))
    (outer' : Balanced (before ++ word ++ (gap ++ condition ++ gap'))) :
    Placed conditions base (before ++ word ++ " (".toList ++ condition ++ ") AND ".toList
      ++ conditions ++ spaced tail)

theorem placed_withCondition (conditions : List Char) (hb : Balanced base)
    (hend : Text.EndsPlain base) :
    Placed conditions base (withCondition base conditions) := by
  cases hstart : conditionStart? base with
  | none =>
    have htail := tailStart_isTail base 0
    rw [withCondition_of_none hstart, htail.trim_drop hend]
    generalize tailStart base 0 = tail at htail
    obtain ⟨gap, hgap, hhead, -⟩ := Text.exists_trimEnd (base.take tail)
    have hlength : (Text.trimEnd (base.take tail) ++ gap).length = tail := by
      rw [← hhead, List.length_take, Nat.min_eq_left htail.le_length]
    refine .behindTables ?_ hgap (conditionStart?_eq_none_iff.mp hstart) ?_ ?_
    · rw [← hhead, List.take_append_drop]
    · rwa [hlength]
    · rw [← hhead]
      exact htail.balanced_take hb
  | some stop =>
    obtain ⟨position, length, hfirst, rfl⟩ := conditionStart?_eq_some hstart
    have htail := tailStart_isTail base (position + length)
    rw [withCondition_of_some hstart, htail.trim_drop hend]
    have hle := htail.least_le hfirst.occurs.add_le
    generalize tailStart base (position + length) = tail at htail hle
    obtain ⟨before, word, rest, hparts, rfl, rfl, hstands⟩ := hfirst.occurs
    -- the head is the query up to the condition, and then the condition
    have hopening : base.take (before.length + word.length) = before ++ word := by
      rw [hparts, ← List.append_assoc, ← List.length_append, List.take_left]
    have hhead : (base.take tail).take (before.length + word.length) = before ++ word := by
      rw [List.take_take, Nat.min_eq_left hle, hopening]
    obtain ⟨gap, gap', hgap, hgap', hcondition⟩ := Text.exists_trim
      ((base.take tail).drop (before.length + word.length))
    rw [← List.append_assoc gap] at hcondition
    have hwhole : base.take tail = before ++ word ++ (gap
        ++ Text.trim ((base.take tail).drop (before.length + word.length)) ++ gap') := by
      rw [← hcondition, ← hhead, List.take_append_drop]
    have hlength : (before ++ word ++ (gap
        ++ Text.trim ((base.take tail).drop (before.length + word.length)) ++ gap')).length
          = tail := by
      rw [← hwhole, List.length_take, Nat.min_eq_left htail.le_length]
    have hbalanced : Balanced before ∧ Balanced (word ++ rest) :=
      Balanced.of_outer (hparts ▸ hb) hstands.outer
    rw [hhead]
    refine .behindCondition ?_ hgap hgap' hfirst ?_ ?_ ?_
    · rw [← hwhole, List.take_append_drop]
    · rwa [hlength, List.length_append]
    · exact hbalanced.1.append (hstands.unmarked words_whereKeywords).balanced
    · rw [← hwhole]
      exact htail.balanced_take hb

/-- The new text is balanced. -/
theorem Placed.balanced (h : Placed conditions base output) (hb : Balanced base)
    (hc : Balanced conditions) : Balanced output := by
  cases h with
  | @behindTables head gap tail parts blank _ _ outer =>
    have hhead : Balanced head :=
      Balanced.of_unmarked (show Unmarked [] from nofun) (unmarked_of_blank blank) outer
    have htail : Balanced tail := outer.of_append (parts ▸ hb)
    exact ((hhead.append (by decide)).append hc).append htail.spaced
  | @behindCondition before word gap condition gap' tail parts blank blank' _ _ outer outer' =>
    have hcondition : Balanced condition := by
      have h := outer.of_append outer'
      rw [List.append_assoc] at h
      exact h.of_unmarked (unmarked_of_blank blank) (unmarked_of_blank blank')
    have htail : Balanced tail := outer'.of_append (parts ▸ hb)
    have houtput : before ++ word ++ " (".toList ++ condition ++ ") AND ".toList ++ conditions
        ++ spaced tail = before ++ word ++ [' '] ++ ('(' :: condition ++ [')'])
          ++ " AND ".toList ++ conditions ++ spaced tail := by
      simp
    rw [houtput]
    exact ((((outer.append (by decide)).append hcondition.enclosed).append (by decide)).append
      hc).append htail.spaced

/-! ## Filters -/

theorem toList_appendFilters (query : String) {filters : Fields Json}
    (h : filters.entries ≠ []) :
    (appendFilters query filters).toList
      = withCondition (cleaned query.toList) (conjunction filters) := by
  have hempty : filters.isEmpty = false := by
    rw [Fields.isEmpty, List.isEmpty_eq_false_iff]
    exact h
  simp [appendFilters, hempty]

/-- **Filters go into the outer query.** For a balanced query and filters whose names have no
quotes and parentheses, the text with the conditions of the filters is balanced again. It is the
query without the white space around it and the semicolons at its end, cut outside parentheses and
strings: in front of the first clause that must stand behind a condition, where the conditions are
inserted once, joined by `AND`, and if there is a `WHERE` also behind that, where the old condition
gets parentheses of its own. Only white space is lost, and all cuts are within the text. -/
theorem filters_placed (query : String) (filters : Fields Json) (hquery : Balanced query.toList)
    (hfilters : filters.entries ≠ []) (hnames : ∀ name ∈ filters.keys, Unmarked name.toList) :
    Balanced (appendFilters query filters).toList ∧
      Placed (joined " AND ".toList (filters.entries.map fun entry => predicate entry.1 entry.2))
        (cleaned query.toList) (appendFilters query filters).toList ∧
      (∃ lead gap, Text.Blank lead ∧ (∀ c ∈ gap, Text.isBlank c = true ∨ c = ';') ∧
        query.toList = lead ++ (cleaned query.toList ++ gap)) ∧
      (conditionStart? (cleaned query.toList)).getD 0
        ≤ tailStart (cleaned query.toList) ((conditionStart? (cleaned query.toList)).getD 0) ∧
      tailStart (cleaned query.toList) ((conditionStart? (cleaned query.toList)).getD 0)
        ≤ (cleaned query.toList).length := by
  have hbase := balanced_cleaned hquery
  have hplaced := placed_withCondition (conjunction filters) hbase
    (endsPlain_cleaned query.toList)
  have htail := tailStart_isTail (cleaned query.toList)
    ((conditionStart? (cleaned query.toList)).getD 0)
  have hleast : (conditionStart? (cleaned query.toList)).getD 0
      ≤ (cleaned query.toList).length := by
    cases hstart : conditionStart? (cleaned query.toList) with
    | none => exact Nat.zero_le _
    | some stop =>
      obtain ⟨position, length, hfirst, rfl⟩ := conditionStart?_eq_some hstart
      exact hfirst.occurs.add_le
  rw [toList_appendFilters query hfilters]
  exact ⟨hplaced.balanced hbase (balanced_conjunction hnames), hplaced,
    exists_cleaned query.toList, htail.least_le hleast, htail.le_length⟩

example :
    appendFilters
        " SELECT a FROM (SELECT b FROM t WHERE c) s where x = 'limit (' OR y\n Order  By a ;"
        (Fields.ofList [("region", .array [.string "O'Brien)", .nat 7]), ("gone", .null)])
      = "SELECT a FROM (SELECT b FROM t WHERE c) s where (x = 'limit (' OR y) "
        ++ "AND region IN ('O''Brien)', 7) AND gone IS NULL Order  By a" := by
  decide +kernel

/-- A query with a subquery, a string with a parenthesis and a keyword in it, and a condition. -/
theorem filters_placed_of_subquery :
    let query :=
      " SELECT a FROM (SELECT b FROM t WHERE c) s where x = 'limit (' OR y\n Order  By a ;"
    let filters := Fields.ofList [("region", Json.array [.string "O'Brien)", .nat 7]),
      ("gone", Json.null)]
    Balanced query.toList ∧ filters.entries ≠ [] ∧
      (∀ name ∈ filters.keys, Unmarked name.toList) ∧
      Balanced (appendFilters query filters).toList ∧
      Placed (joined " AND ".toList (filters.entries.map fun entry => predicate entry.1 entry.2))
        (cleaned query.toList) (appendFilters query filters).toList := by
  intro query filters
  have hquery : Balanced query.toList := by decide +kernel
  have hfilters : filters.entries ≠ [] := by decide
  have hnames : ∀ name ∈ filters.keys, Unmarked name.toList := by decide
  obtain ⟨hbalanced, hplaced, -⟩ := filters_placed query filters hquery hfilters hnames
  exact ⟨hquery, hfilters, hnames, hbalanced, hplaced⟩

end Bulletin.Sql
