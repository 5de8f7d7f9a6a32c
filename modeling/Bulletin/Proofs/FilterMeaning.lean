import Bulletin.Proofs.PredicateTexts
import Bulletin.Proofs.ValueOrder
import Bulletin.Query.Execute

/-!
# Filters on datasets and filters in queries

A filter is applied to the rows of a dataset here, and is sent to a database as a predicate. A row
that meets the predicate passes here. A row that does not meet it passes here in two cases only:
nothing is found in a list with nothing in it, where a comparison with `NULL` is never true, and a
whole number beyond `2 ^ 53` is taken for another number with the same double.

* `Json.Number.numEq_iff` — what comparing doubles says of numbers
* `Json.same_iff` — what comparing values says of them
* `Query.matchesFilters_iff_passes` — which rows of a dataset pass
* `Sql.Predicate.Holds` — what a predicate means
* `Query.accepts_iff` — one filter
* `Query.matchesFilters_iff` — all filters of a row
-/

namespace Bulletin

/-! ## Exact numbers -/

namespace Json.Number

variable {n m : Number} {x y : Finite64}

/-- The exact value of a number, in units. -/
def units : Number → Int
  | .int k _ => k * Binary64.unit
  | .real x => x.scaled

/-- A number that a double holds exactly. -/
def IsDouble (n : Number) : Prop := ∃ x, n.toBinary64 = .finite x ∧ x.scaled = n.units

theorem isDouble_real (x : Finite64) : IsDouble (.real x) := ⟨x, rfl, rfl⟩

theorem isDouble_or_large (n : Number) :
    n.IsDouble ∨ ∃ k fits, n = .int k fits ∧ 2 ^ (53 : Nat) < k.natAbs := by
  cases n with
  | real x => exact .inl (isDouble_real x)
  | int k fits =>
    rcases Nat.lt_or_ge (2 ^ (53 : Nat)) k.natAbs with h | h
    · exact .inr ⟨k, fits, rfl, h⟩
    · exact .inl (Binary64.ofInt_of_representable (Binary64.representable_of_natAbs_le h))

/-- A number with the value of a double is held by one. -/
theorem isDouble_of_units_eq (h : n.units = x.scaled) : n.IsDouble := by
  cases n with
  | real y => exact isDouble_real y
  | int k fits =>
    have hunits : k.natAbs * Binary64.unit = x.units := by
      have habs := congrArg Int.natAbs h
      rw [units, Int.natAbs_mul, Int.natAbs_natCast] at habs
      rw [habs, Finite64.scaled]
      split
      · rw [Int.natAbs_neg, Int.natAbs_natCast]
      · exact Int.natAbs_natCast _
    exact Binary64.ofInt_of_representable (hunits ▸ x.representable)

theorem numEq_finite :
    (Binary64.finite x).numEq (.finite y) = true ↔ x.scaled = y.scaled := by
  simp [Binary64.numEq, Binary64.order?, Finite64.order]

theorem IsDouble.numEq_iff (hn : n.IsDouble) (hm : m.IsDouble) :
    n.toBinary64.numEq m.toBinary64 = true ↔ n.units = m.units := by
  obtain ⟨x, hx, hxn⟩ := hn
  obtain ⟨y, hy, hym⟩ := hm
  rw [hx, hy, numEq_finite, hxn, hym]

/-- Numbers with one value have one double. -/
theorem numEq_of_units_eq (h : n.units = m.units) :
    n.toBinary64.numEq m.toBinary64 = true := by
  cases n with
  | real x => exact ((isDouble_real x).numEq_iff (isDouble_of_units_eq h.symm)).mpr h
  | int k fits =>
    cases m with
    | real y => exact ((isDouble_of_units_eq h).numEq_iff (isDouble_real y)).mpr h
    | int l fits' =>
      have hpos : ((Binary64.unit : Nat) : Int) ≠ 0 :=
        Int.natCast_ne_zero.mpr (Nat.ne_of_gt (Nat.two_pow_pos _))
      obtain rfl : k = l := Int.eq_of_mul_eq_mul_right hpos h
      obtain ⟨x, hx⟩ := Number.exists_finite (.int k fits)
      rw [hx, numEq_finite]

/-- Two numbers pass for one: they differ, but the double next to the one is next to the other. -/
structure Blurred (n m : Number) : Prop where
  differ : n.units ≠ m.units
  alike : n.toBinary64.numEq m.toBinary64 = true
  /-- not both of them are doubles -/
  large : ∃ k fits, (n = .int k fits ∨ m = .int k fits) ∧ 2 ^ (53 : Nat) < k.natAbs

/-- Comparing doubles compares numbers, as far as these are doubles. -/
theorem numEq_iff :
    n.toBinary64.numEq m.toBinary64 = true ↔ n.units = m.units ∨ n.Blurred m := by
  refine ⟨fun h => or_iff_not_imp_left.mpr fun hne => ⟨hne, h, ?_⟩, ?_⟩
  · rcases n.isDouble_or_large with hn | ⟨k, fits, hk, hlarge⟩
    · rcases m.isDouble_or_large with hm | ⟨k, fits, hk, hlarge⟩
      · exact absurd ((hn.numEq_iff hm).mp h) hne
      · exact ⟨k, fits, .inr hk, hlarge⟩
    · exact ⟨k, fits, .inl hk, hlarge⟩
  · rintro (h | h)
    · exact numEq_of_units_eq h
    · exact h.alike

end Json.Number

/-! ## Equal values -/

namespace Json

/-- Two values are the same: members of an object go by their names, in any order, and a whole
number is never a double. -/
inductive Same : Json → Json → Prop
  | null : Same .null .null
  | bool (b : Bool) : Same (.bool b) (.bool b)
  | string (s : String) : Same (.string s) (.string s)
  | int (n : Int) (fits : FitsWord n) : Same (.number (.int n fits)) (.number (.int n fits))
  | real {x y : Finite64} (h : x.scaled = y.scaled) : Same (.number (.real x)) (.number (.real y))
  | array {items others : List Json} (h : List.Forall₂ Same items others) :
    Same (.array items) (.array others)
  | object {members others : List (String × Json)} (hlength : members.length = others.length)
    (hnames : ∀ member ∈ members, ∃ v, lookupValue? member.1 others = some v)
    (h : ∀ member ∈ members, ∀ v, lookupValue? member.1 others = some v → Same member.2 v) :
    Same (.object members) (.object others)

theorem Number.same_iff (n m : Number) :
    n.same m = true ↔ Same (.number n) (.number m) := by
  constructor
  · cases n <;> cases m
    case int.int =>
      intro h
      obtain rfl := eq_of_beq h
      exact .int _ _
    case real.real x y => exact fun h => .real (compare_eq_iff_eq.mp (eq_of_beq h))
    all_goals exact nofun
  · rintro (_ | _)
    case int => exact beq_self_eq_true _
    case real h => exact beq_iff_eq.mpr (compare_eq_iff_eq.mpr h)

mutual

theorem same_iff : ∀ a b : Json, a.same b = true ↔ Same a b
  | .null, b => by
    cases b with
    | null => exact iff_of_true rfl .null
    | _ => exact iff_of_false nofun nofun
  | .bool x, b => by
    cases b with
    | bool y => exact ⟨fun h => eq_of_beq h ▸ .bool x, by rintro ⟨⟩; exact beq_self_eq_true x⟩
    | _ => exact iff_of_false nofun nofun
  | .number n, b => by
    cases b with
    | number m => exact n.same_iff m
    | _ => exact iff_of_false nofun nofun
  | .string s, b => by
    cases b with
    | string t => exact ⟨fun h => eq_of_beq h ▸ .string s, by rintro ⟨⟩; exact beq_self_eq_true s⟩
    | _ => exact iff_of_false nofun nofun
  | .array items, b => by
    cases b with
    | array others =>
      refine (sameItems_iff items others).trans ⟨.array, ?_⟩
      rintro ⟨⟩
      assumption
    | _ => exact iff_of_false nofun nofun
  | .object members, b => by
    cases b with
    | object others =>
      rw [same, Bool.and_eq_true, beq_iff_eq, sameMembers_iff members others]
      constructor
      · rintro ⟨hlength, h⟩
        refine .object hlength (fun member hm => ?_) fun member hm v hv => ?_
        · obtain ⟨v, hv, -⟩ := h member hm
          exact ⟨v, hv⟩
        · obtain ⟨w, hw, hsame⟩ := h member hm
          cases hv.symm.trans hw
          exact hsame
      · intro h
        cases h with
        | object hlength hnames h =>
          refine ⟨hlength, fun member hm => ?_⟩
          obtain ⟨v, hv⟩ := hnames member hm
          exact ⟨v, hv, h member hm v hv⟩
    | _ => exact iff_of_false nofun nofun

theorem sameItems_iff : ∀ items others : List Json,
    sameItems items others = true ↔ List.Forall₂ Same items others
  | [], [] => iff_of_true rfl .nil
  | [], _ :: _ => iff_of_false nofun nofun
  | _ :: _, [] => iff_of_false nofun nofun
  | a :: items, b :: others => by
    rw [sameItems, Bool.and_eq_true, same_iff a b, sameItems_iff items others,
      List.forall₂_cons]

theorem sameMembers_iff : ∀ members others : List (String × Json),
    sameMembers members others = true ↔
      ∀ member ∈ members, ∃ v, lookupValue? member.1 others = some v ∧ Same member.2 v
  | [], _ => by simp [sameMembers]
  | (key, a) :: members, others => by
    rw [sameMembers, Bool.and_eq_true, sameMembers_iff members others, List.forall_mem_cons]
    refine and_congr_left' ?_
    cases hv : lookupValue? key others with
    | none => simp
    | some v => simp [same_iff a v]

end

end Json

/-! ## What predicates mean -/

namespace Sql

/-- Whether a value is found equal to a literal. Nothing is equal to `NULL`, numbers are compared
by their exact values, and the literal of an array or an object is a string. -/
def SqlEqual (actual : Json) : Json → Prop
  | .null => False
  | .bool b => actual = .bool b
  | .number m => ∃ n, actual = .number n ∧ n.units = m.units
  | .string s => actual = .string s
  | v => actual = .string v.compact

instance (actual v : Json) : Decidable (SqlEqual actual v) :=
  match v with
  | .null => isFalse id
  | .bool b => inferInstanceAs (Decidable (actual = .bool b))
  | .string s => inferInstanceAs (Decidable (actual = .string s))
  | .array items => inferInstanceAs (Decidable (actual = .string (Json.array items).compact))
  | .object members =>
    inferInstanceAs (Decidable (actual = .string (Json.object members).compact))
  | .number m => match actual with
    | .number n => decidable_of_iff (n.units = m.units) (by simp [SqlEqual])
    | .null | .bool _ | .string _ | .array _ | .object _ => isFalse (by simp [SqlEqual])

/-- Whether a predicate holds of the value of its field. -/
def Predicate.Holds (actual : Json) : Predicate → Prop
  | .isNull => actual = .null
  | .equals v => SqlEqual actual v
  | .isIn first others => ∃ v ∈ first :: others, SqlEqual actual v
  | .never => False

instance (actual : Json) (c : Predicate) : Decidable (c.Holds actual) :=
  match c with
  | .isNull => inferInstanceAs (Decidable (actual = .null))
  | .equals v => inferInstanceAs (Decidable (SqlEqual actual v))
  | .isIn first others => inferInstanceAs (Decidable (∃ v ∈ first :: others, SqlEqual actual v))
  | .never => isFalse id

theorem Predicate.holds_list (actual : Json) (options : List Json) :
    (Predicate.ofFilter (.array options)).Holds actual ↔ ∃ v ∈ options, SqlEqual actual v := by
  cases options with
  | nil => exact iff_of_false id (by simp)
  | cons first others => rfl

end Sql

namespace Query

open Json (Number Same ToldApart itemNumbers)
open Sql (Predicate SqlEqual predicate)

/-! ## Rows that pass -/

/-- A value is the one that is looked for. Numbers go by the doubles next to them. -/
inductive Meets (actual : Json) : Json → Prop
  | number {n m : Number} (h : actual = .number n) (hm : n.units = m.units ∨ n.Blurred m) :
    Meets actual (.number m)
  | other {v : Json} (hv : ∀ m, v ≠ .number m) (h : Same actual v) : Meets actual v

theorem equal_iff_meets (actual v : Json) : actual.equal v = true ↔ Meets actual v := by
  -- unless a number is looked for, a value must be the same
  have other (hv : ∀ m, v ≠ .number m) (hnone : v.numeric? = none) :
      actual.equal v = true ↔ Meets actual v := by
    have hequal : actual.equal v = actual.same v := by
      rw [Json.equal, hnone]
      cases actual.numeric? <;> rfl
    rw [hequal, Json.same_iff]
    refine ⟨.other hv, fun h => ?_⟩
    cases h with
    | number => exact absurd rfl (hv _)
    | other _ h => exact h
  cases v with
  | number m =>
    cases actual with
    | number n =>
      refine Number.numEq_iff.trans ⟨.number rfl, fun h => ?_⟩
      cases h with
      | number h hm =>
        cases h
        exact hm
      | other hv => exact absurd rfl (hv m)
    | _ =>
      refine iff_of_false nofun fun h => ?_
      cases h with
      | number h => cases h
      | other hv => exact hv m rfl
  | null | bool | string | array | object => exact other (fun _ => nofun) rfl

/-- A value passes a filter: it is the expected one, or one of an expected list. -/
def Suits (actual : Json) : Json → Prop
  | .array options => ∃ option ∈ options, Meets actual option
  | expected => Meets actual expected

theorem accepts_iff_suits (actual expected : Json) :
    accepts actual expected = true ↔ Suits actual expected := by
  cases expected with
  | array options =>
    refine List.any_eq_true.trans (exists_congr fun option => and_congr_right fun _ => ?_)
    exact equal_iff_meets actual option
  | null | bool | number | string | object => exact equal_iff_meets actual _

/-- A row passes all filters. A field that it lacks counts as `null`. -/
def Passes (row : Record) (filters : Fields Json) : Prop :=
  ∀ filter ∈ filters.entries, Suits (row.value filter.1) filter.2

theorem matchesFilters_iff_passes (row : Record) (filters : Fields Json) :
    matchesFilters row filters = true ↔ Passes row filters :=
  List.all_eq_true.trans (forall₂_congr fun filter _ => accepts_iff_suits _ filter.2)

instance (row : Record) (filters : Fields Json) : Decidable (Passes row filters) :=
  decidable_of_iff _ (matchesFilters_iff_passes row filters)

/-! ## One filter -/

variable {actual v w expected : Json}

/-- Equality here and in a predicate. -/
theorem equal_iff (hv : v.IsScalar) (hw : w.IsScalar) :
    v.equal w = true ↔ SqlEqual v w ∨ (v = .null ∧ w = .null) ∨
      ∃ n m, v = .number n ∧ w = .number m ∧ n.Blurred m := by
  cases v <;> cases w
  case number.number n m =>
    have hequal : (Json.number n).equal (.number m) = n.toBinary64.numEq m.toBinary64 := rfl
    simp [hequal, Number.numEq_iff, SqlEqual]
  case array.array | array.object | object.array | object.object => exact hv.elim
  all_goals simp_all [Json.equal, Json.numeric?, Json.same, SqlEqual, Json.IsScalar]

/-- A filter that is a scalar or a list of scalars. -/
def IsPlainFilter : Json → Prop
  | .array items => ∀ v ∈ items, v.IsScalar
  | v => v.IsScalar

instance (v : Json) : Decidable (IsPlainFilter v) :=
  match v with
  | .array items => inferInstanceAs (Decidable (∀ v ∈ items, v.IsScalar))
  | .object _ => isFalse id
  | .null | .bool _ | .number _ | .string _ => isTrue trivial

/-- A value passes a filter although the predicate does not hold of it. -/
inductive Lenient (actual : Json) : Json → Prop
  /-- nothing is found in a list with nothing in it -/
  | null {options : List Json} (h : actual = .null) (hmem : Json.null ∈ options) :
    Lenient actual (.array options)
  /-- a number is taken for another one -/
  | number {n m : Number} (h : actual = .number n) (hblurred : n.Blurred m) :
    Lenient actual (.number m)
  /-- a number is taken for another one in a list -/
  | item {n m : Number} {options : List Json} (h : actual = .number n)
    (hmem : Json.number m ∈ options) (hblurred : n.Blurred m) : Lenient actual (.array options)

/-- A scalar that is expected. -/
theorem equal_iff_lenient (ha : actual.IsScalar) (hw : w.IsScalar) (hnull : w ≠ .null) :
    actual.equal w = true ↔ SqlEqual actual w ∨ Lenient actual w := by
  rw [equal_iff ha hw]
  refine or_congr Iff.rfl ⟨?_, fun h => .inr ?_⟩
  · rintro (⟨-, h⟩ | ⟨n, m, h, rfl, hblurred⟩)
    · exact absurd h hnull
    · exact .number h hblurred
  · cases h with
    | number h hblurred => exact ⟨_, _, h, rfl, hblurred⟩
    | null | item => exact hw.elim

/-- A list of scalars of which one is expected. -/
theorem accepts_list_iff {options : List Json} (ha : actual.IsScalar)
    (ho : ∀ v ∈ options, v.IsScalar) :
    accepts actual (.array options) = true ↔
      (Predicate.ofFilter (.array options)).Holds actual ∨ Lenient actual (.array options) := by
  rw [Predicate.holds_list, accepts, List.any_eq_true]
  constructor
  · rintro ⟨v, hmem, hv⟩
    rcases (equal_iff ha (ho v hmem)).mp hv with h | ⟨h, rfl⟩ | ⟨n, m, h, rfl, hblurred⟩
    · exact .inl ⟨v, hmem, h⟩
    · exact .inr (.null h hmem)
    · exact .inr (.item h hmem hblurred)
  · rintro (⟨v, hmem, h⟩ | h)
    · exact ⟨v, hmem, (equal_iff ha (ho v hmem)).mpr (.inl h)⟩
    · cases h with
      | null h hmem => exact ⟨_, hmem, (equal_iff ha (ho _ hmem)).mpr (.inr (.inl ⟨h, rfl⟩))⟩
      | item h hmem hblurred =>
        exact ⟨_, hmem, (equal_iff ha (ho _ hmem)).mpr (.inr (.inr ⟨_, _, h, rfl, hblurred⟩))⟩

/-- A value passes a filter if the predicate holds of it, or by leniency. -/
theorem accepts_iff (ha : actual.IsScalar) (he : IsPlainFilter expected) :
    accepts actual expected = true ↔
      (Predicate.ofFilter expected).Holds actual ∨ Lenient actual expected := by
  cases expected with
  | array options => exact accepts_list_iff ha he
  | object members => exact he.elim
  | bool _ | number _ | string _ => exact equal_iff_lenient ha he (by simp)
  | null =>
    have hequal : actual.equal .null = true ↔ actual = .null :=
      (equal_iff ha (w := .null) he).trans (by simp [SqlEqual])
    have hlenient : ¬ Lenient actual .null := nofun
    exact hequal.trans (or_iff_left hlenient).symm

/-! ## All filters -/

theorem isScalar_value {row : Record} (h : ∀ entry ∈ row.entries, entry.2.IsScalar)
    (field : String) : (row.value field).IsScalar := by
  have hlookup : ∀ (entries : List (String × Json)), (∀ entry ∈ entries, entry.2.IsScalar) →
      ((lookupValue? field entries).getD .null).IsScalar := by
    intro entries
    induction entries with
    | nil => exact fun _ => trivial
    | cons entry rest ih =>
      intro hentries
      rw [lookupValue?]
      split
      · exact hentries entry List.mem_cons_self
      · exact ih fun e he => hentries e (List.mem_cons_of_mem _ he)
  exact hlookup row.entries h

theorem isScalar_values (h : IsPlainFilter expected) :
    ∀ v ∈ (Predicate.ofFilter expected).values, v.IsScalar := by
  cases expected with
  | null => exact nofun
  | bool _ | number _ | string _ =>
    intro v hv
    rw [List.mem_singleton.mp hv]
    exact h
  | object members => exact h.elim
  | array items => cases items with
    | nil => exact nofun
    | cons first others => exact h

/-- **Filters here and in a query.** What is written for a filter is the text of a predicate, and
no other predicate is written like it. A row of scalars passes filters on scalars and lists of
scalars here if and only if each predicate holds of it, or the row passes the filter by leniency:
the field is null and the list has a null in it, or its number is taken for another one with the
same double. -/
theorem matchesFilters_iff (row : Record) (filters : Fields Json)
    (hrow : ∀ entry ∈ row.entries, entry.2.IsScalar)
    (hfilters : ∀ entry ∈ filters.entries, IsPlainFilter entry.2) :
    (∀ entry ∈ filters.entries,
      predicate entry.1 entry.2 = (Predicate.ofFilter entry.2).text entry.1 ∧
        ∀ c : Predicate, entry.1 ≠ "1" → (∀ v ∈ c.values, v.IsScalar) →
          ToldApart (itemNumbers c.values) (itemNumbers (Predicate.ofFilter entry.2).values) →
          c.text entry.1 = predicate entry.1 entry.2 → c = Predicate.ofFilter entry.2) ∧
      (matchesFilters row filters = true ↔ ∀ entry ∈ filters.entries,
        (Predicate.ofFilter entry.2).Holds (row.value entry.1) ∨
          Lenient (row.value entry.1) entry.2) := by
  constructor
  · intro entry he
    refine ⟨Sql.predicate_eq_text entry.1 entry.2, fun c hname hc ha htext => ?_⟩
    rw [Sql.predicate_eq_text] at htext
    exact Predicate.text_inj hname hc (isScalar_values (hfilters entry he)) ha htext
  · rw [matchesFilters, List.all_eq_true]
    refine forall₂_congr fun entry he => ?_
    exact accepts_iff (isScalar_value hrow entry.1) (hfilters entry he)

/-- A number beyond `2 ^ 53` taken for another one, a list with a null, and a missing field. -/
theorem matchesFilters_of_sparse_row :
    let row : Record := Fields.ofList [("n", .int 9007199254740993), ("region", .string "east")]
    let filters := Fields.ofList [("n", Json.int 9007199254740992),
      ("region", .array [.null, .string "east"]), ("gone", .null)]
    (∀ entry ∈ row.entries, entry.2.IsScalar) ∧
      (∀ entry ∈ filters.entries, IsPlainFilter entry.2) ∧
      (Predicate.isIn .null [.string "east"]).text "region" = "region IN (NULL, 'east')".toList ∧
      Predicate.isIn .null [.string "east"] = .ofFilter (.array [.null, .string "east"]) ∧
      Lenient (row.value "n") (.int 9007199254740992) ∧
      matchesFilters row filters = true := by
  intro row filters
  have hrow : ∀ entry ∈ row.entries, entry.2.IsScalar := by decide
  have hfilters : ∀ entry ∈ filters.entries, IsPlainFilter entry.2 := by decide
  have hlenient : Lenient (row.value "n") (.int 9007199254740992) := by
    refine .number (n := .int 9007199254740993 (by decide)) (m := .int 9007199254740992 (by decide))
      rfl ⟨by decide +kernel, by decide +kernel, ?_⟩
    exact ⟨9007199254740993, by decide, .inl rfl, by decide⟩
  obtain ⟨htexts, hmatches⟩ := matchesFilters_iff row filters hrow hfilters
  have hregion : Predicate.isIn .null [.string "east"]
      = .ofFilter (.array [.null, .string "east"]) :=
    (htexts ("region", .array [.null, .string "east"]) (by decide)).2 _ (by decide) (by decide)
      (by decide) rfl
  refine ⟨hrow, hfilters, by decide, hregion, hlenient, hmatches.mpr ?_⟩
  intro entry hentry
  have hentries : entry = ("n", .int 9007199254740992) ∨
      entry = ("region", .array [.null, .string "east"]) ∨ entry = ("gone", .null) := by
    simpa [filters, Fields.ofList, Fields.insert, putEntry, Fields.empty] using hentry
  rcases hentries with rfl | rfl | rfl
  · exact .inr hlenient
  · exact .inl (by decide)
  · exact .inl (by decide)

/-- A null is found in a list with a null, where the predicate is never true. -/
theorem null_found_in_list :
    let row : Record := Fields.ofList [("f", .null)]
    let filters := Fields.ofList [("f", Json.array [.null])]
    (∀ entry ∈ row.entries, entry.2.IsScalar) ∧
      (∀ entry ∈ filters.entries, IsPlainFilter entry.2) ∧
      predicate "f" (.array [.null]) = "f IN (NULL)".toList ∧
      matchesFilters row filters = true ∧
      ¬ ∀ entry ∈ filters.entries,
        (Predicate.ofFilter entry.2).Holds (row.value entry.1) := by
  decide

end Query

end Bulletin
