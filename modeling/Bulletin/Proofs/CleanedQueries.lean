import Bulletin.Proofs.PlacedConditions
import Mathlib.Data.List.Infix

/-!
# Queries cleaned once

White space, semicolons and white space again are taken off the end of a query, each of them once.
That is all there is at the end of most queries. Where white space stands between semicolons, one
semicolon is left: cleaning the query again takes off more, and conditions are put behind the
semicolon.

* `cleaned_semicolon_iff` — when a semicolon is left
* `count_withCondition` — semicolons are neither lost nor added when conditions are put in
* `cleaned_once_iff` — when cleaning once is enough
-/

namespace Bulletin.Sql

variable {query base conditions text rest : List Char} {c : Char}

/-! ## The end of a query -/

/-- At the end of a query no white space stands between semicolons. -/
def SemicolonsTogether (query : List Char) : Prop :=
  ∀ before gap rest, query = before ++ ';' :: (gap ++ ';' :: rest) → Text.Blank gap →
    (∀ c ∈ rest, Text.isBlank c = true ∨ c = ';') → gap = []

namespace CleanedOff

variable {lead gap semicolons trail : List Char}

theorem semicolon_notMem (h : Text.Blank text) : ';' ∉ text :=
  fun hmem => absurd (h _ hmem) (by decide)

/-- What is taken off the end has no white space between semicolons. -/
theorem not_sublist (h : CleanedOff query lead gap semicolons trail)
    (hblank : Text.isBlank c = true) : ¬ [';', c, ';'].Sublist (gap ++ semicolons ++ trail) := by
  intro hsub
  rw [List.append_assoc] at hsub
  -- the first semicolon is behind the gap
  have hbehind : [';', c, ';'].Sublist (semicolons ++ trail) := by
    obtain ⟨first, second, hsplit, hfirst, hsecond⟩ := List.sublist_append_iff.mp hsub
    cases first with
    | nil => exact hsplit ▸ hsecond
    | cons d first =>
      obtain rfl := List.head_eq_of_cons_eq hsplit
      exact absurd (hfirst.subset List.mem_cons_self) (semicolon_notMem h.blank_gap)
  -- so the white space is behind all semicolons, and the second one would be there too
  obtain ⟨first, second, hsplit, hfirst, hsecond⟩ := List.sublist_append_iff.mp hbehind
  have hnone : ';' ∉ second := fun hmem =>
    semicolon_notMem h.blank_trail (hsecond.subset hmem)
  match first, hsplit with
  | [], hsplit =>
    rw [List.nil_append] at hsplit
    exact hnone (hsplit ▸ List.mem_cons_self)
  | [_], hsplit =>
    have hsecond : [c, ';'] = second := List.tail_eq_of_cons_eq hsplit
    exact hnone (hsecond ▸ by simp)
  | _ :: d :: _, hsplit =>
    obtain rfl : c = d := List.head_eq_of_cons_eq (List.tail_eq_of_cons_eq hsplit)
    rw [h.eq_semicolon c (hfirst.subset (by simp))] at hblank
    exact absurd hblank (by decide)

/-- An end of a query that starts with a semicolon is taken off as a whole, if no semicolon is
left. -/
theorem suffix_of_ending (h : CleanedOff query lead gap semicolons trail)
    (hlast : (cleaned query).getLast? ≠ some ';') (hends : ';' :: text <:+ query)
    (htext : ∀ c ∈ text, Text.isBlank c = true ∨ c = ';') :
    ';' :: text <:+ gap ++ semicolons ++ trail := by
  have hoff : gap ++ semicolons ++ trail <:+ query :=
    ⟨lead ++ cleaned query, by rw [List.append_assoc]; exact h.whole.symm⟩
  rcases List.suffix_or_suffix_of_suffix hends hoff with hsuffix | ⟨left, hleft⟩
  · exact hsuffix
  · obtain ⟨before, hbefore⟩ := hends
    have hkept : before ++ left = lead ++ cleaned query := by
      refine (List.append_left_inj (gap ++ semicolons ++ trail)).mp ?_
      rw [List.append_assoc, hleft, hbefore, List.append_assoc]
      exact h.whole
    cases left with
    | nil => exact hleft ▸ List.suffix_refl _
    | cons d left =>
      obtain rfl : d = ';' := List.head_eq_of_cons_eq hleft
      cases hend : (cleaned query).getLast? with
      | none =>
        rw [List.getLast?_eq_none_iff.mp hend, List.append_nil] at hkept
        exact absurd (hkept ▸ by simp) (semicolon_notMem h.blank_lead)
      | some e =>
        -- the last character that is kept would be one of those that are taken off
        have hboth := congrArg List.getLast? hkept
        rw [List.getLast?_append, List.getLast?_append, hend, List.getLast?_cons, Option.some_or,
          Option.some_or, ← List.getLast?_cons] at hboth
        have hmem : e ∈ ';' :: text :=
          hleft ▸ List.mem_append_left _ (List.mem_of_getLast? hboth)
        have hne : e ≠ ';' := fun he => hlast (he ▸ hend)
        rcases List.mem_cons.mp hmem with he | he
        · exact absurd he hne
        · have hblank := (htext e he).resolve_right hne
          rw [endsPlain_cleaned query e hend] at hblank
          cases hblank

end CleanedOff

/-- A semicolon is left if white space stands between semicolons at the end. -/
theorem cleaned_semicolon_iff :
    (cleaned query).getLast? ≠ some ';' ↔ SemicolonsTogether query := by
  obtain ⟨lead, gap, semicolons, trail, h⟩ := exists_cleanedOff query
  constructor
  · rintro hlast before between rest rfl hblank hrest
    cases between with
    | nil => rfl
    | cons c between =>
      have hends : ∀ d ∈ c :: between ++ ';' :: rest, Text.isBlank d = true ∨ d = ';' := by
        intro d hd
        rcases List.mem_append.mp hd with hd | hd
        · exact .inl (hblank d hd)
        · rcases List.mem_cons.mp hd with rfl | hd
          · exact .inr rfl
          · exact hrest d hd
      have hoff := h.suffix_of_ending hlast (List.suffix_append _ _) hends
      have hsub : [';', c, ';'].Sublist (';' :: (c :: between ++ ';' :: rest)) := by
        refine ((List.singleton_sublist.mpr ?_).cons_cons c).cons_cons ';'
        simp
      exact absurd (hsub.trans hoff.sublist) (h.not_sublist (hblank c List.mem_cons_self))
  · intro htogether hlast
    obtain ⟨before, hbefore⟩ := List.getLast?_eq_some_iff.mp hlast
    have hgap : gap ≠ [] := fun hnil => h.stops hnil hlast
    cases semicolons with
    | nil => exact hgap (h.gap_eq_nil rfl)
    | cons d semicolons =>
      obtain rfl : d = ';' := h.eq_semicolon d List.mem_cons_self
      refine hgap (htogether (lead ++ before) gap (semicolons ++ trail) ?_ h.blank_gap ?_)
      · have hwhole := h.whole
        rw [hbefore] at hwhole
        rw [hwhole]
        simp
      · intro c hc
        rcases List.mem_append.mp hc with hc | hc
        · exact .inr (h.eq_semicolon c (List.mem_cons_of_mem _ hc))
        · exact .inl (h.blank_trail c hc)

/-- Cleaning takes a semicolon off, where there is one at the end. -/
theorem count_cleaned_lt (h : query.getLast? = some ';') :
    (cleaned query).count ';' < query.count ';' := by
  obtain ⟨lead, gap, semicolons, trail, hoff⟩ := exists_cleanedOff query
  have hlast := h
  rw [hoff.whole, List.getLast?_append, List.getLast?_append, List.getLast?_append,
    List.getLast?_append] at hlast
  have hsome : semicolons ≠ [] := by
    rintro rfl
    obtain rfl := hoff.gap_eq_nil rfl
    -- the last semicolon would be white space, or left where cleaning has stopped
    simp only [List.getLast?_nil, Option.or_none, Option.or_eq_some_iff] at hlast
    rcases hlast with (htrail | ⟨-, hcleaned⟩) | ⟨-, hlead⟩
    · exact CleanedOff.semicolon_notMem hoff.blank_trail (List.mem_of_getLast? htrail)
    · exact hoff.stops rfl hcleaned
    · exact CleanedOff.semicolon_notMem hoff.blank_lead (List.mem_of_getLast? hlead)
  have hpos : 0 < semicolons.count ';' := by
    obtain ⟨c, others, rfl⟩ := List.exists_cons_of_ne_nil hsome
    obtain rfl := hoff.eq_semicolon c List.mem_cons_self
    simp
  have hcount := congrArg (List.count ';') hoff.whole
  simp only [List.count_append] at hcount
  omega

/-! ## Semicolons in the result -/

theorem count_trimEnd (hc : Text.isBlank c = false) (text : List Char) :
    (Text.trimEnd text).count c = text.count c := by
  obtain ⟨gap, hgap, htext, -⟩ := Text.exists_trimEnd text
  have hnone : gap.count c = 0 :=
    List.count_eq_zero.mpr fun hmem => absurd (hgap c hmem) (by rw [hc]; decide)
  have hcount := congrArg (List.count c) htext
  rw [List.count_append] at hcount
  omega

theorem count_trim (hc : Text.isBlank c = false) (text : List Char) :
    (Text.trim text).count c = text.count c := by
  obtain ⟨lead, hlead, htext, -⟩ := Text.exists_trimStart text
  have hnone : lead.count c = 0 :=
    List.count_eq_zero.mpr fun hmem => absurd (hlead c hmem) (by rw [hc]; decide)
  have hcount := congrArg (List.count c) htext
  rw [List.count_append] at hcount
  rw [Text.trim, count_trimEnd hc]
  omega

theorem count_spaced (text : List Char) : (spaced text).count ';' = text.count ';' := by
  cases text with
  | nil => rfl
  | cons c rest => exact List.count_cons_of_ne (by decide)

/-- Putting conditions in neither takes a semicolon away nor adds one. -/
theorem count_withCondition (base conditions : List Char) :
    (withCondition base conditions).count ';' = base.count ';' + conditions.count ';' := by
  have hsemicolon : Text.isBlank ';' = false := by decide
  cases hstart : conditionStart? base with
  | none =>
    have hbase := congrArg (List.count ';') (List.take_append_drop (tailStart base 0) base)
    have hwords : " WHERE ".toList.count ';' = 0 := by decide
    rw [List.count_append] at hbase
    rw [withCondition_of_none hstart]
    simp only [List.count_append, count_spaced, count_trim hsemicolon, count_trimEnd hsemicolon,
      hwords]
    omega
  | some stop =>
    have hbase := congrArg (List.count ';') (List.take_append_drop (tailStart base stop) base)
    have hhead := congrArg (List.count ';')
      (List.take_append_drop stop (base.take (tailStart base stop)))
    have hopen : " (".toList.count ';' = 0 := by decide
    have hclose : ") AND ".toList.count ';' = 0 := by decide
    rw [List.count_append] at hbase hhead
    rw [withCondition_of_some hstart]
    simp only [List.count_append, count_spaced, count_trim hsemicolon, hopen, hclose]
    omega

/-! ## Cleaning again -/

theorem trimEnd_prefix_self (text : List Char) : Text.trimEnd text <+: text := by
  obtain ⟨gap, -, htext, -⟩ := Text.exists_trimEnd text
  exact ⟨gap, htext.symm⟩

theorem startsPlain_cleaned (query : List Char) : Text.StartsPlain (cleaned query) := by
  have hstem : ((Text.trim query).reverse.dropWhile (· == ';')).reverse <+: Text.trim query := by
    rw [← List.reverse_suffix, List.reverse_reverse]
    exact List.dropWhile_suffix _
  have hprefix : cleaned query <+: Text.trimStart query :=
    ((trimEnd_prefix_self _).trans hstem).trans (trimEnd_prefix_self _)
  obtain ⟨lead, -, -, hplain⟩ := Text.exists_trimStart query
  obtain ⟨behind, hbehind⟩ := hprefix
  intro c hc
  refine hplain c ?_
  rw [← hbehind, List.head?_append, show (cleaned query).head? = some c from hc]
  rfl

theorem cleaned_cleaned_iff :
    cleaned (cleaned query) = cleaned query ↔ (cleaned query).getLast? ≠ some ';' := by
  refine ⟨fun h hlast => ?_, fun h => ?_⟩
  · have hlt := count_cleaned_lt hlast
    rw [h] at hlt
    omega
  · exact cleaned_eq_self
      (Text.trim_eq_self_iff.mpr ⟨startsPlain_cleaned query, endsPlain_cleaned query⟩) h

theorem toList_appendFilters_empty (query : String) :
    (appendFilters query ∅).toList = cleaned query.toList := by
  have hempty : (∅ : Fields Json).isEmpty = true := rfl
  simp only [appendFilters, hempty, if_true, String.toList_ofList]

/-- **Cleaning a query once.** Without filters the result never ends in white space. It does not
end in a semicolon, a second cleaning does not change it, and filters are appended to it as they
are to the query itself, each of these if and only if no white space stands between semicolons at
the end of the query. -/
theorem cleaned_once_iff (query : String) :
    Text.EndsPlain (appendFilters query ∅).toList ∧
    ((appendFilters query ∅).toList.getLast? ≠ some ';' ↔ SemicolonsTogether query.toList) ∧
    (appendFilters (appendFilters query ∅) ∅ = appendFilters query ∅
      ↔ SemicolonsTogether query.toList) ∧
    ∀ filters : Fields Json, filters.entries ≠ [] →
      (appendFilters query filters = appendFilters (appendFilters query ∅) filters
        ↔ SemicolonsTogether query.toList) := by
  have hagain : cleaned (cleaned query.toList) = cleaned query.toList
      ↔ SemicolonsTogether query.toList :=
    cleaned_cleaned_iff.trans cleaned_semicolon_iff
  refine ⟨?_, ?_, ?_, fun filters hfilters => ?_⟩
  · rw [toList_appendFilters_empty]
    exact endsPlain_cleaned query.toList
  · rw [toList_appendFilters_empty]
    exact cleaned_semicolon_iff
  · rw [← hagain, ← String.toList_inj, toList_appendFilters_empty, toList_appendFilters_empty]
  · rw [← String.toList_inj, toList_appendFilters _ hfilters, toList_appendFilters _ hfilters,
      toList_appendFilters_empty, ← hagain]
    refine ⟨fun h => ?_, fun h => by rw [h]⟩
    by_contra hne
    have hlt := count_cleaned_lt (not_not.mp (cleaned_cleaned_iff.not.mp hne))
    have hcount := congrArg (List.count ';') h
    rw [count_withCondition, count_withCondition] at hcount
    omega

/-- Two semicolons between white space, behind a query. -/
theorem cleaned_once_of_adjacent :
    let query := " SELECT a FROM x\u00a0;; \n"
    let filters := Fields.ofList [("region", Json.string "east")]
    SemicolonsTogether query.toList ∧ filters.entries ≠ [] ∧
      (appendFilters query ∅).toList.getLast? ≠ some ';' ∧
      appendFilters (appendFilters query ∅) ∅ = appendFilters query ∅ ∧
      appendFilters query filters = appendFilters (appendFilters query ∅) filters := by
  intro query filters
  have htogether : SemicolonsTogether query.toList :=
    cleaned_semicolon_iff.mp (by decide +kernel)
  have hfilters : filters.entries ≠ [] := by decide
  obtain ⟨-, hlast, hagain, happended⟩ := cleaned_once_iff query
  exact ⟨htogether, hfilters, hlast.mpr htogether, hagain.mpr htogether,
    (happended filters hfilters).mpr htogether⟩

/-- White space between two semicolons leaves the first of them, and the conditions behind it. -/
theorem semicolon_left_behind :
    let query := "SELECT a FROM x; ;"
    let filters := Fields.ofList [("region", Json.string "east")]
    filters.entries ≠ [] ∧
      appendFilters query ∅ = "SELECT a FROM x;" ∧
      (appendFilters query ∅).toList.getLast? = some ';' ∧
      appendFilters (appendFilters query ∅) ∅ = "SELECT a FROM x" ∧
      appendFilters (appendFilters query ∅) ∅ ≠ appendFilters query ∅ ∧
      appendFilters query filters = "SELECT a FROM x; WHERE region = 'east'" ∧
      appendFilters (appendFilters query ∅) filters = "SELECT a FROM x WHERE region = 'east'" ∧
      appendFilters query filters ≠ appendFilters (appendFilters query ∅) filters := by
  decide +kernel

end Bulletin.Sql
