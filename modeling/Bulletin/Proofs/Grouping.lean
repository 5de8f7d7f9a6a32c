import Bulletin.Proofs.DistinctTexts
import Bulletin.Proofs.Tables
import Bulletin.Proofs.Tallies
import Mathlib.Data.List.Forall2
import Mathlib.Data.List.Nodup

/-!
# Groups and their summaries

Rows are told apart by a text, and yet the groups are those of equal values: no two keys have one
text. Each group gives a row of its own, in the order in which the groups were met.

* `groupRows_eq` — the groups by their values
* `summaryRow_summarizes` — the row of a group
* `aggregate_groups` — all rows
-/

namespace Bulletin

/-! ## Each element once -/

section

variable {α β : Type} [BEq α] [LawfulBEq α] [BEq β] [LawfulBEq β]

/-- An element at the end is kept if it is new. -/
theorem eraseDups_concat (l : List α) (a : α) :
    (l ++ [a]).eraseDups = if a ∈ l then l.eraseDups else l.eraseDups ++ [a] := by
  rw [List.eraseDups_append]
  by_cases h : a ∈ l <;> simp [List.removeAll, List.eraseDups_cons, h]

theorem nodup_eraseDups (l : List α) : l.eraseDups.Nodup := by
  induction l using List.reverseRecOn with
  | nil => exact List.nodup_nil
  | append_singleton l a ih =>
    rw [eraseDups_concat]
    split
    · exact ih
    · next h =>
      rw [← List.concat_eq_append, List.nodup_concat]
      exact ⟨fun ha => h (List.mem_eraseDups.mp ha), ih⟩

theorem eraseDups_of_nodup {l : List α} (h : l.Nodup) : l.eraseDups = l := by
  induction l using List.reverseRecOn with
  | nil => rfl
  | append_singleton l a ih =>
    rw [← List.concat_eq_append, List.nodup_concat] at h
    rw [eraseDups_concat, if_neg h.1, ih h.2]

/-- The elements stand in the order of their first places. -/
theorem pairwise_eraseDups (l : List α) :
    l.eraseDups.Pairwise fun a b => l.idxOf a < l.idxOf b := by
  induction l using List.reverseRecOn with
  | nil => exact List.Pairwise.nil
  | append_singleton l a ih =>
    have hold : l.eraseDups.Pairwise fun b c => (l ++ [a]).idxOf b < (l ++ [a]).idxOf c := by
      refine ih.imp_of_mem fun {b c} hb hc h => ?_
      rwa [List.idxOf_append_of_mem (List.mem_eraseDups.mp hb),
        List.idxOf_append_of_mem (List.mem_eraseDups.mp hc)]
    rw [eraseDups_concat]
    split
    · exact hold
    · next hnew =>
      refine List.pairwise_append.mpr ⟨hold, List.pairwise_singleton _ _, fun b hb c hc => ?_⟩
      have hb := List.mem_eraseDups.mp hb
      rw [List.mem_singleton.mp hc, List.idxOf_append_of_mem hb,
        List.idxOf_append_of_notMem hnew]
      exact Nat.lt_of_lt_of_le (List.idxOf_lt_length_of_mem hb) (Nat.le_add_right _ _)

/-- The elements of a list, each once and in the order of their first places. -/
structure OnceEach (all once : List α) : Prop where
  mem_iff : ∀ a, a ∈ once ↔ a ∈ all
  nodup : once.Nodup
  in_order : once.Pairwise fun a b => all.idxOf a < all.idxOf b

theorem onceEach_eraseDups (all : List α) : OnceEach all all.eraseDups :=
  ⟨fun _ => List.mem_eraseDups, nodup_eraseDups all, pairwise_eraseDups all⟩

/-- A function that tells the elements apart keeps their order. -/
theorem eraseDups_map {f : α → β} {l : List α} (h : ∀ a ∈ l, ∀ b ∈ l, f a = f b → a = b) :
    (l.map f).eraseDups = l.eraseDups.map f := by
  induction l using List.reverseRecOn with
  | nil => rfl
  | append_singleton l a ih =>
    have hl : ∀ b ∈ l, b ∈ l ++ [a] := fun b hb => List.mem_append_left _ hb
    have hmem : f a ∈ l.map f ↔ a ∈ l := by
      refine ⟨fun hm => ?_, List.mem_map_of_mem⟩
      obtain ⟨b, hb, hf⟩ := List.mem_map.mp hm
      exact h b (hl b hb) a (by simp) hf ▸ hb
    rw [List.map_append, List.map_singleton, eraseDups_concat, eraseDups_concat,
      ih fun b hb c hc => h b (hl b hb) c (hl c hc), if_congr hmem rfl rfl]
    split
    · rfl
    · rw [List.map_append, List.map_singleton]

end

theorem firstOccurrences_eq (keys : List String) : firstOccurrences keys = keys.eraseDups := by
  induction keys using List.reverseRecOn with
  | nil => rfl
  | append_singleton keys key ih =>
    rw [eraseDups_concat, ← ih, firstOccurrences, List.foldl_append]
    show (if key ∈ firstOccurrences keys then _ else _) = _
    exact if_congr (by rw [ih, List.mem_eraseDups]) rfl rfl

/-! ## Entering fields -/

namespace Fields

variable {α β : Type} (f : String × β → α) {entries : List (String × β)} {fields : Fields α}

theorem keys_foldl_insert :
    (entries.foldl (fun out entry => out.insert entry.1 (f entry)) fields).keys
      = (fields.keys ++ entries.map Prod.fst).eraseDups := by
  induction entries using List.reverseRecOn with
  | nil =>
    rw [List.foldl_nil, List.map_nil, List.append_nil]
    exact (eraseDups_of_nodup fields.distinct).symm
  | append_singleton entries entry ih =>
    rw [List.foldl_append, List.foldl_cons, List.foldl_nil, keys_insert, ih, List.map_append,
      List.map_singleton, ← List.append_assoc, eraseDups_concat]
    exact if_congr List.mem_eraseDups rfl rfl

/-- A name that is entered with one value only has this value. -/
theorem get?_foldl_insert {key : String} {v : α} (hmem : key ∈ entries.map Prod.fst)
    (h : ∀ entry ∈ entries, entry.1 = key → f entry = v) :
    (entries.foldl (fun out entry => out.insert entry.1 (f entry)) fields).get? key = some v := by
  induction entries using List.reverseRecOn with
  | nil => cases hmem
  | append_singleton entries entry ih =>
    rw [List.foldl_append, List.foldl_cons, List.foldl_nil, get?_insert]
    split
    · next hk => rw [h entry (by simp) hk]
    · next hk =>
      refine ih ?_ fun e he => h e (List.mem_append_left _ he)
      rw [List.map_append, List.mem_append] at hmem
      exact hmem.resolve_right fun hm => hk (List.mem_singleton.mp hm).symm

theorem get?_foldl_insert_of_notMem {key : String} (hmem : key ∉ entries.map Prod.fst) :
    (entries.foldl (fun out entry => out.insert entry.1 (f entry)) fields).get? key
      = fields.get? key := by
  induction entries using List.reverseRecOn with
  | nil => rfl
  | append_singleton entries entry ih =>
    rw [List.map_append, List.mem_append, not_or] at hmem
    rw [List.foldl_append, List.foldl_cons, List.foldl_nil, get?_insert,
      if_neg fun hk => hmem.2 (List.mem_singleton.mpr hk.symm), ih hmem.1]

end Fields

/-! ## Groups -/

/-- The numbers in the keys of rows. -/
def keyNumbers (groupBy : List String) (rows : List Record) : List Json.Number :=
  rows.flatMap fun row => Json.itemNumbers (keyTuple groupBy row)

/-- Rows in groups, each group with its key. -/
structure Grouped (groupBy : List String) (rows : List Record)
    (groups : List (List Json × List Record)) : Prop where
  /-- the keys of the groups are those of the rows -/
  mem_keys : ∀ key, key ∈ groups.map Prod.fst ↔ key ∈ rows.map (keyTuple groupBy)
  /-- each key has one group -/
  nodup_keys : (groups.map Prod.fst).Nodup
  /-- a group stands before another one if the first row with its key does -/
  in_order : (groups.map Prod.fst).Pairwise fun key key' =>
    (rows.map (keyTuple groupBy)).idxOf key < (rows.map (keyTuple groupBy)).idxOf key'
  /-- the rows with the key, in their order -/
  members : ∀ group ∈ groups, group.2 = rows.filter fun row => keyTuple groupBy row = group.1
  /-- each row is in one group -/
  unique : ∀ row ∈ rows, ∃! group, group ∈ groups ∧ row ∈ group.2
  /-- two rows share a group if they have the same values in the grouping fields -/
  shared : ∀ row ∈ rows, ∀ row' ∈ rows,
    (∃ group ∈ groups, row ∈ group.2 ∧ row' ∈ group.2) ↔
      ∀ field ∈ groupBy, row.value field = row'.value field

variable {groupBy : List String} {rows : List Record}

theorem keyTuple_eq_iff {row row' : Record} :
    keyTuple groupBy row = keyTuple groupBy row' ↔
      ∀ field ∈ groupBy, row.value field = row'.value field :=
  List.map_inj_left

/-- The groups of equal keys are groups. -/
theorem grouped_eraseDups (groupBy : List String) (rows : List Record) :
    Grouped groupBy rows ((rows.map (keyTuple groupBy)).eraseDups.map fun key =>
      (key, rows.filter fun row => keyTuple groupBy row = key)) := by
  have hkeys : ((rows.map (keyTuple groupBy)).eraseDups.map fun key =>
      (key, rows.filter fun row => keyTuple groupBy row = key)).map Prod.fst
        = (rows.map (keyTuple groupBy)).eraseDups := by
    rw [List.map_map]
    exact List.map_id _
  have hgroup : ∀ row ∈ rows, (keyTuple groupBy row,
      rows.filter fun row' => keyTuple groupBy row' = keyTuple groupBy row) ∈
        (rows.map (keyTuple groupBy)).eraseDups.map fun key =>
          (key, rows.filter fun row => keyTuple groupBy row = key) := fun row hrow =>
    List.mem_map.mpr ⟨_, List.mem_eraseDups.mpr (List.mem_map_of_mem hrow), rfl⟩
  have hmember : ∀ {group row}, (group ∈ (rows.map (keyTuple groupBy)).eraseDups.map fun key =>
      (key, rows.filter fun row => keyTuple groupBy row = key)) → row ∈ group.2 →
        keyTuple groupBy row = group.1 := by
    intro group row hgroup hrow
    obtain ⟨key, -, rfl⟩ := List.mem_map.mp hgroup
    exact of_decide_eq_true (List.mem_filter.mp hrow).2
  refine ⟨fun key => ?_, ?_, ?_, fun group hg => ?_, fun row hrow => ?_,
    fun row hrow row' hrow' => ⟨?_, fun h => ?_⟩⟩
  · rw [hkeys, List.mem_eraseDups]
  · rw [hkeys]
    exact nodup_eraseDups _
  · rw [hkeys]
    exact pairwise_eraseDups _
  · obtain ⟨key, -, rfl⟩ := List.mem_map.mp hg
    rfl
  · refine ⟨_, ⟨hgroup row hrow, List.mem_filter.mpr ⟨hrow, decide_eq_true rfl⟩⟩, ?_⟩
    rintro group ⟨hg, hr⟩
    have hkey := hmember hg hr
    obtain ⟨key, -, rfl⟩ := List.mem_map.mp hg
    exact hkey ▸ rfl
  · rintro ⟨group, hg, hr, hr'⟩
    exact keyTuple_eq_iff.mp ((hmember hg hr).trans (hmember hg hr').symm)
  · exact ⟨_, hgroup row hrow, List.mem_filter.mpr ⟨hrow, decide_eq_true rfl⟩,
      List.mem_filter.mpr ⟨hrow', decide_eq_true (keyTuple_eq_iff.mpr h).symm⟩⟩

/-- Rows with different keys have different texts. -/
theorem keyTuple_eq_of_groupKey_eq
    (h : Json.ToldApart (keyNumbers groupBy rows) (keyNumbers groupBy rows)) {row row' : Record}
    (hrow : row ∈ rows) (hrow' : row' ∈ rows)
    (heq : groupKey groupBy row = groupKey groupBy row') :
    keyTuple groupBy row = keyTuple groupBy row' := by
  have hsub : ∀ row ∈ rows, Json.itemNumbers (keyTuple groupBy row) ⊆ keyNumbers groupBy rows :=
    fun row hrow n hn => List.mem_flatMap.mpr ⟨row, hrow, hn⟩
  exact Json.array.inj (Json.compact_inj (h.mono (hsub row hrow) (hsub row' hrow')) heq)

/-- The groups are those of equal values. -/
theorem groupRows_eq
    (h : Json.ToldApart (keyNumbers groupBy rows) (keyNumbers groupBy rows)) :
    groupRows groupBy rows = (rows.map (keyTuple groupBy)).eraseDups.map fun key =>
      rows.filter fun row => keyTuple groupBy row = key := by
  have hkeys : rows.map (groupKey groupBy)
      = (rows.map (keyTuple groupBy)).map fun key => (Json.array key).compact := by
    rw [List.map_map]
    rfl
  rw [groupRows, firstOccurrences_eq, hkeys, eraseDups_map, List.map_map]
  · refine List.map_congr_left fun key hkey => ?_
    refine List.filter_congr fun row hrow => ?_
    obtain ⟨first, hfirst, rfl⟩ := List.mem_map.mp (List.mem_eraseDups.mp hkey)
    rw [beq_eq_decide]
    exact decide_eq_decide.mpr ⟨keyTuple_eq_of_groupKey_eq h hrow hfirst,
      fun heq => congrArg (fun key => (Json.array key).compact) heq⟩
  · intro key hkey key' hkey' heq
    obtain ⟨row, hrow, rfl⟩ := List.mem_map.mp hkey
    obtain ⟨row', hrow', rfl⟩ := List.mem_map.mp hkey'
    exact keyTuple_eq_of_groupKey_eq h hrow hrow' heq

/-! ## Summaries -/

/-- The row of a group. -/
structure Summarizes (groupBy : List String) (aggregations : Fields Aggregate) (key : List Json)
    (group : List Record) (out : Record) : Prop where
  /-- the grouping fields once each, then the other aggregated fields -/
  keys : out.keys = groupBy.eraseDups ++ aggregations.keys.filter (· ∉ groupBy)
  /-- a grouping field holds its part of the key, unless it is aggregated -/
  grouped : ∀ entry ∈ groupBy.zip key, entry.1 ∉ aggregations.keys →
    out.get? entry.1 = some entry.2
  /-- how many values there are -/
  count : ∀ field, (field, .count) ∈ aggregations.entries →
    out.get? field = some (Json.nat (Json.nonNull (group.map (·.value field))).length)
  /-- the earliest value that no other precedes -/
  least : ∀ field, (field, .min) ∈ aggregations.entries →
    ∃ v, out.get? field = some v ∧
      Json.IsEarliest (fun v => ∀ w ∈ Json.nonNull (group.map (·.value field)), ¬ w.Precedes v)
        (Json.nonNull (group.map (·.value field))) v
  /-- the earliest value that precedes no other -/
  greatest : ∀ field, (field, .max) ∈ aggregations.entries →
    ∃ v, out.get? field = some v ∧
      Json.IsEarliest (fun v => ∀ w ∈ Json.nonNull (group.map (·.value field)), ¬ v.Precedes w)
        (Json.nonNull (group.map (·.value field))) v
  /-- the mean of the numbers -/
  average : ∀ field, (field, .avg) ∈ aggregations.entries →
    out.get? field = some (Json.mean ((group.map (·.value field)).filterMap Json.numeric?))

theorem keys_keyFields (groupBy : List String) (row : Record) :
    (keyFields groupBy row).keys = groupBy.eraseDups := by
  rw [keyFields, Fields.ofList, Fields.keys_foldl_insert Prod.snd, List.map_map]
  exact congrArg List.eraseDups (List.map_id _)

theorem get?_keyFields {field : String} (h : field ∈ groupBy) (row : Record) :
    (keyFields groupBy row).get? field = some (row.value field) := by
  refine Fields.get?_foldl_insert Prod.snd ?_ ?_
  · rw [List.map_map]
    exact List.mem_map.mpr ⟨field, h, rfl⟩
  · rintro entry he rfl
    obtain ⟨field, -, rfl⟩ := List.mem_map.mp he
    rfl

variable {aggregations : Fields Aggregate} {first : Record} {rest : List Record}

/-- An aggregated field holds the result of its function. -/
theorem get?_summaryRow {field : String} {function : Aggregate} (group : List Record)
    (h : (field, function) ∈ aggregations.entries) :
    (summaryRow groupBy aggregations group).get? field
      = some ((Tally.ofValues (group.map (·.value field))).result function) := by
  refine Fields.get?_foldl_insert _ (List.mem_map_of_mem h) ?_
  intro entry he hk
  rw [List.inj_on_of_nodup_map aggregations.distinct he h hk]

/-- The row of a group with at least one row. -/
theorem summaryRow_summarizes :
    Summarizes groupBy aggregations (keyTuple groupBy first) (first :: rest)
      (summaryRow groupBy aggregations (first :: rest)) where
  keys := by
    have hrest : (aggregations.entries.map Prod.fst).removeAll groupBy.eraseDups
        = aggregations.keys.filter (· ∉ groupBy) :=
      List.filter_congr fun field _ => by simp
    rw [summaryRow, Fields.keys_foldl_insert fun entry : String × Aggregate =>
      (Tally.ofValues ((first :: rest).map (·.value entry.1))).result entry.2, keys_keyFields,
      List.eraseDups_append, eraseDups_of_nodup (nodup_eraseDups groupBy), hrest]
    exact congrArg _ (eraseDups_of_nodup (List.Nodup.filter _ aggregations.distinct))
  grouped := by
    have hzip : groupBy.zip (keyTuple groupBy first)
        = groupBy.map fun field => (field, first.value field) := by
      have h := List.zip_map' (f := id) (g := first.value) (l := groupBy)
      rwa [List.map_id] at h
    intro entry hentry hfield
    rw [hzip] at hentry
    obtain ⟨field, hmem, rfl⟩ := List.mem_map.mp hentry
    rw [summaryRow, Fields.get?_foldl_insert_of_notMem _ hfield, get?_keyFields hmem]
  count field h := by rw [get?_summaryRow _ h, Tally.count_ofValues]
  least field h := ⟨_, get?_summaryRow _ h, Tally.least_ofValues _⟩
  greatest field h := ⟨_, get?_summaryRow _ h, Tally.greatest_ofValues _⟩
  average field h := by rw [get?_summaryRow _ h, Tally.average_ofValues]

/-- **Grouping and aggregating.** As long as the numbers in the keys are told apart by their
texts:

* There is one group for every key that occurs, in the order in which the keys first come. Every
  row is in one group, and two rows share a group if and only if their values in the grouping
  fields are equal one by one, a missing field counting as `null`.
* Every group gives one row. It lists the grouping fields without repeats, then the other
  aggregated fields. A grouping field that is not aggregated holds its part of the key. An
  aggregated field holds the count, the extremes or the mean of the values in the rows of the
  group. -/
theorem aggregate_groups (rows : List Record) (groupBy : List String)
    (aggregations : Fields Aggregate)
    (h : Json.ToldApart (keyNumbers groupBy rows) (keyNumbers groupBy rows)) :
    ∃ groups, Grouped groupBy rows groups ∧
      List.Forall₂ (fun group out => Summarizes groupBy aggregations group.1 group.2 out) groups
        (aggregate rows groupBy aggregations) := by
  refine ⟨_, grouped_eraseDups groupBy rows, ?_⟩
  rw [aggregate, groupRows_eq h, List.map_map, List.forall₂_map_left_iff,
    List.forall₂_map_right_iff, List.forall₂_same]
  intro key hkey
  obtain ⟨row, hrow, rfl⟩ := List.mem_map.mp (List.mem_eraseDups.mp hkey)
  show Summarizes groupBy aggregations (keyTuple groupBy row)
    (rows.filter fun row' => keyTuple groupBy row' = keyTuple groupBy row)
    (summaryRow groupBy aggregations
      (rows.filter fun row' => keyTuple groupBy row' = keyTuple groupBy row))
  -- the row that has the key is in the group
  cases hgroup : rows.filter fun row' => keyTuple groupBy row' = keyTuple groupBy row with
  | nil => exact absurd (decide_eq_true rfl) (List.filter_eq_nil_iff.mp hgroup row hrow)
  | cons first rest =>
    have hfirst : first ∈ rows.filter fun row' => keyTuple groupBy row' = keyTuple groupBy row :=
      hgroup ▸ List.mem_cons_self
    rw [← of_decide_eq_true (List.mem_filter.mp hfirst).2]
    exact summaryRow_summarizes

/-- Keys with quotes, commas and numbers in them. -/
theorem aggregate_groups_of_quotes :
    let rows := [Fields.ofList [("key", Json.string "a\",\"b"), ("n", Json.nat 3)],
      Fields.ofList [("key", Json.array [.string "a", .string "b"]), ("n", Json.nat 10)],
      Fields.ofList [("n", Json.nat 4)],
      Fields.ofList [("key", Json.string "a\",\"b"), ("n", Json.nat 2)]]
    let aggregations := Fields.ofList [("n", Aggregate.min), ("rows", Aggregate.count)]
    Json.ToldApart (keyNumbers ["key", "n"] rows) (keyNumbers ["key", "n"] rows) ∧
      ∃ groups, Grouped ["key", "n"] rows groups ∧
        List.Forall₂ (fun group out => Summarizes ["key", "n"] aggregations group.1 group.2 out)
          groups (aggregate rows ["key", "n"] aggregations) := by
  intro rows aggregations
  have h : Json.ToldApart (keyNumbers ["key", "n"] rows) (keyNumbers ["key", "n"] rows) := by
    decide
  exact ⟨h, aggregate_groups rows ["key", "n"] aggregations h⟩

end Bulletin
