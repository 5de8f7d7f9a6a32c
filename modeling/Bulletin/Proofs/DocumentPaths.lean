import Bulletin.Query.Http
import Mathlib.Data.List.Basic

/-!
# Paths into a document

Where a path leads is said here of the document as it stands: a segment names a member of an object
or the place of an item of an array, and nothing else, and a path goes from one part to the next.
The walk takes each part out of what it stands in, which puts the other parts in another order. It
goes on in the part alone, so it ends where the path leads.

* `perm_of_takeOut?` — what taking out leaves
* `selectSegment_eq_some_iff` — one segment
* `selectSegments_append`, `selectSegments_eq_some_iff` — several
* `paths_into_documents` — dotted paths
-/

namespace Bulletin

/-- Splitting a text is splitting the list of its characters. -/
theorem Text.splitOn_eq (separator : Char) (text : List Char) :
    Text.splitOn separator text = text.splitOn separator := by
  induction text with
  | nil => simp [Text.splitOn]
  | cons c rest ih =>
    rw [List.splitOn_cons_eq_if_modifyHead, Text.splitOn, ih]
    by_cases h : c = separator
    · simp [h]
    · have hne := List.splitOn_ne_nil separator rest
      obtain ⟨part, parts, hparts⟩ := List.exists_cons_of_ne_nil hne
      simp [h, hparts]

namespace Http

/-! ## Taking out -/

section

variable {α β : Type} {place : Nat} {list rest : List α} {a : α}

theorem map_takeOut? (f : α → β) :
    (takeOut? place list).map (fun taken => f taken.1) = list[place]?.map f := by
  rw [takeOut?, Option.map_map]
  rfl

theorem getElem?_eq_some_iff_append : list[place]? = some a ↔
    ∃ before after, list = before ++ a :: after ∧ before.length = place := by
  constructor
  · intro h
    obtain ⟨hlt, rfl⟩ := List.getElem?_eq_some_iff.mp h
    refine ⟨list.take place, list.drop (place + 1), ?_, List.length_take_of_le (Nat.le_of_lt hlt)⟩
    rw [← List.drop_eq_getElem_cons hlt, List.take_append_drop]
  · rintro ⟨before, after, rfl, rfl⟩
    simp

theorem getElem?_of_takeOut? (h : takeOut? place list = some (a, rest)) :
    list[place]? = some a := by
  obtain ⟨taken, htaken, heq⟩ := Option.map_eq_some_iff.mp h
  cases heq
  exact htaken

/-- Nothing else gets lost when an element is taken out. -/
theorem perm_of_takeOut? (h : takeOut? place list = some (a, rest)) : list.Perm (a :: rest) := by
  obtain ⟨taken, htaken, heq⟩ := Option.map_eq_some_iff.mp h
  cases heq
  obtain ⟨before, after, rfl, rfl⟩ := getElem?_eq_some_iff_append.mp htaken
  rw [List.set_append_right _ _ (Nat.le_refl _), Nat.sub_self, List.set_cons_zero]
  rcases List.eq_nil_or_concat after with rfl | ⟨others, last, rfl⟩
  · -- the last element was taken itself
    simp
  · have hlast : (before ++ a :: (others ++ [last])).getLastD a = last := by
      simp [List.getLastD_eq_getLast?, List.getLast?_cons]
    have hleft : (before ++ last :: (others ++ [last])).dropLast = before ++ last :: others := by
      rw [← List.cons_append, ← List.append_assoc, List.dropLast_concat]
    rw [List.concat_eq_append, hlast, hleft]
    refine List.perm_middle.trans (List.Perm.cons a ?_)
    rw [← List.append_assoc]
    exact (List.perm_append_singleton last (before ++ others)).trans List.perm_middle.symm

end

/-! ## One segment -/

/-- A text of digits, with a plus sign or without, and its value. -/
inductive IsIndex : List Char → Nat → Prop
  | unsigned {digits : List Char} (hne : digits ≠ []) (h : ∀ c ∈ digits, c.isDigit = true) :
    IsIndex digits (digitsValue digits)
  | signed {digits : List Char} (hne : digits ≠ []) (h : ∀ c ∈ digits, c.isDigit = true) :
    IsIndex ('+' :: digits) (digitsValue digits)

/-- The parts of a document and the segments that name them: of an object the first member with a
name, of an array the item with as many items before it as the segment says. -/
inductive HasPart : Json → List Char → Json → Prop
  | member {name : String} {v : Json} {before after : List (String × Json)}
    (h : name ∉ before.map Prod.fst) :
    HasPart (.object (before ++ (name, v) :: after)) name.toList v
  | item {segment : List Char} {v : Json} {before after : List Json}
    (h : IsIndex segment before.length) : HasPart (.array (before ++ v :: after)) segment v

variable {document inner found : Json} {segment : List Char} {n : Nat}

theorem index?_signed (digits : List Char) : index? ('+' :: digits)
    = if digits ≠ [] ∧ digits.all Char.isDigit then some (digitsValue digits) else none := rfl

theorem index?_unsigned (h : segment.head? ≠ some '+') : index? segment
    = if segment ≠ [] ∧ segment.all Char.isDigit then some (digitsValue segment) else none := by
  cases segment with
  | nil => rfl
  | cons c rest =>
    have hc : c ≠ '+' := fun heq => h (congrArg some heq)
    simp only [index?]
    split
    · next heq => exact absurd (List.cons.inj heq).1 hc
    · rfl

theorem index?_eq_some_iff : index? segment = some n ↔ IsIndex segment n := by
  constructor
  · intro h
    by_cases hplus : segment.head? = some '+'
    · obtain ⟨digits, rfl⟩ := List.head?_eq_some_iff.mp hplus
      rw [index?_signed] at h
      obtain ⟨⟨hne, hall⟩, h⟩ := Option.ite_none_right_eq_some.mp h
      cases h
      exact .signed hne (List.all_eq_true.mp hall)
    · rw [index?_unsigned hplus] at h
      obtain ⟨⟨hne, hall⟩, h⟩ := Option.ite_none_right_eq_some.mp h
      cases h
      exact .unsigned hne (List.all_eq_true.mp hall)
  · intro h
    cases h with
    | signed hne h => exact if_pos ⟨hne, List.all_eq_true.mpr h⟩
    | unsigned hne h =>
      have hplus : segment.head? ≠ some '+' := fun hhead =>
        absurd (h '+' (List.mem_of_head? hhead)) (by decide)
      rw [index?_unsigned hplus]
      exact if_pos ⟨hne, List.all_eq_true.mpr h⟩

theorem selectSegment_object (members : List (String × Json)) (segment : List Char) :
    selectSegment (.object members) segment
      = (members.find? (·.1 = String.ofList segment)).map Prod.snd := by
  rw [List.find?_eq_getElem?_findIdx]
  exact map_takeOut? Prod.snd

theorem selectSegment_array (items : List Json) (segment : List Char) :
    selectSegment (.array items) segment = (index? segment).bind fun place => items[place]? :=
  congrArg (index? segment).bind (funext fun _ => (map_takeOut? id).trans Option.map_id_apply)

theorem selectSegment_eq_some_iff :
    selectSegment document segment = some found ↔ HasPart document segment found := by
  constructor
  · intro h
    cases document with
    | object members =>
      rw [selectSegment_object] at h
      obtain ⟨⟨name, v⟩, hfind, rfl⟩ := Option.map_eq_some_iff.mp h
      obtain ⟨hname, before, after, rfl, hbefore⟩ := List.find?_eq_some_iff_append.mp hfind
      obtain rfl : name = String.ofList segment := of_decide_eq_true hname
      have hfirst : String.ofList segment ∉ before.map Prod.fst := by
        intro hmem
        obtain ⟨member, hmember, heq⟩ := List.mem_map.mp hmem
        simpa [heq] using hbefore member hmember
      have hpart : HasPart (.object (before ++ (String.ofList segment, v) :: after))
          (String.ofList segment).toList v := .member hfirst
      rwa [String.toList_ofList] at hpart
    | array items =>
      rw [selectSegment_array] at h
      obtain ⟨place, hplace, h⟩ := Option.bind_eq_some_iff.mp h
      obtain ⟨before, after, rfl, rfl⟩ := getElem?_eq_some_iff_append.mp h
      exact .item (index?_eq_some_iff.mp hplace)
    | _ => cases h
  · intro h
    cases h with
    | @member name _ before after h =>
      have hfind : (before ++ (name, found) :: after).find? (·.1 = name) = some (name, found) := by
        refine List.find?_eq_some_iff_append.mpr
          ⟨decide_eq_true rfl, before, after, rfl, fun member hmem => ?_⟩
        simp only [Bool.not_eq_true', decide_eq_false_iff_not]
        rintro rfl
        exact h (List.mem_map_of_mem hmem)
      rw [selectSegment_object, String.ofList_toList, hfind, Option.map_some]
    | @item _ _ before after h =>
      rw [selectSegment_array, index?_eq_some_iff.mpr h, Option.bind_some]
      exact getElem?_eq_some_iff_append.mpr ⟨before, after, rfl, rfl⟩

/-! ## Several segments -/

/-- Segments lead from a document to a part of a part of it, as deep as there are segments. -/
inductive Leads : Json → List (List Char) → Json → Prop
  | here (document : Json) : Leads document [] document
  | on {document inner found : Json} {segment : List Char} {rest : List (List Char)}
    (hpart : HasPart document segment inner) (hrest : Leads inner rest found) :
    Leads document (segment :: rest) found

theorem selectSegments_append (document : Json) (first second : List (List Char)) :
    selectSegments document (first ++ second)
      = (selectSegments document first).bind fun inner => selectSegments inner second := by
  induction first generalizing document with
  | nil => rfl
  | cons segment first ih =>
    rw [List.cons_append, selectSegments, selectSegments, Option.bind_assoc]
    exact congrArg _ (funext ih)

theorem selectSegments_eq_some_iff {segments : List (List Char)} :
    selectSegments document segments = some found ↔ Leads document segments found := by
  induction segments generalizing document with
  | nil =>
    constructor
    · rintro ⟨⟩
      exact .here _
    · rintro ⟨⟩
      rfl
  | cons segment rest ih =>
    rw [selectSegments, Option.bind_eq_some_iff]
    constructor
    · rintro ⟨inner, hpart, hrest⟩
      exact .on (selectSegment_eq_some_iff.mp hpart) (ih.mp hrest)
    · rintro (_ | ⟨hpart, hrest⟩)
      exact ⟨_, selectSegment_eq_some_iff.mpr hpart, ih.mpr hrest⟩

/-! ## Dotted paths -/

theorem selectPath_of_ne_empty {path : String} (h : path ≠ "") :
    selectPath document (some path) = selectSegments document (path.toList.splitOn '.') := by
  rw [← Text.splitOn_eq]
  exact if_neg h

/-- **Dotted paths.** A path of two parts leads where the second leads from where the first leads,
and nowhere if one of them leads nowhere. A path of one segment leads to the part of the document
that it names, and any path leads from part to part of the document as it stands. Taking a part out
leaves all the others, though in another order, and none of them counts for where the path leads. -/
theorem paths_into_documents (document : Json) :
    (∀ p q : String, p ≠ "" → q ≠ "" → selectPath document (some (p ++ "." ++ q))
      = (selectPath document (some p)).bind fun inner => selectPath inner (some q)) ∧
    (∀ (segment : String) (found : Json), segment ≠ "" → '.' ∉ segment.toList →
      (selectPath document (some segment) = some found ↔
        HasPart document segment.toList found)) ∧
    (∀ (path : String) (found : Json), path ≠ "" →
      (selectPath document (some path) = some found ↔
        Leads document (path.toList.splitOn '.') found)) ∧
    ∀ (α : Type) (parts rest : List α) (place : Nat) (taken : α),
      takeOut? place parts = some (taken, rest) →
      parts[place]? = some taken ∧ parts.Perm (taken :: rest) := by
  refine ⟨fun p q hp hq => ?_, fun segment found hne hdot => ?_, fun path found hne => ?_,
    fun α parts rest place taken h => ⟨getElem?_of_takeOut? h, perm_of_takeOut? h⟩⟩
  · have hwhole : p ++ "." ++ q ≠ "" := by
      simp [hp]
    have hsplit : (p ++ "." ++ q).toList.splitOn '.'
        = p.toList.splitOn '.' ++ q.toList.splitOn '.' := by
      rw [String.toList_append, String.toList_append, List.append_assoc]
      exact List.splitOnP_append_cons _ _ (by decide)
    rw [selectPath_of_ne_empty hwhole, selectPath_of_ne_empty hp, hsplit, selectSegments_append]
    exact congrArg _ (funext fun inner => (selectPath_of_ne_empty hq).symm)
  · have hone : ∀ segment, selectSegments document [segment] = selectSegment document segment :=
      fun segment => Option.bind_fun_some _
    rw [selectPath_of_ne_empty hne, List.splitOn_eq_singleton hdot, hone,
      selectSegment_eq_some_iff]
  · rw [selectPath_of_ne_empty hne, selectSegments_eq_some_iff]

/-- The middle item of three, in a member that is not the only one. -/
theorem paths_into_documents_of_items :
    let document := Json.object [("meta", .null),
      ("data", .object [("items", .array [.nat 7, .nat 8, .nat 9])]), ("", .nat 1)]
    ("data" ≠ "" ∧ "items.+1" ≠ "" ∧ selectPath document (some ("data" ++ "." ++ "items.+1"))
      = (selectPath document (some "data")).bind fun inner => selectPath inner (some "items.+1")) ∧
    ("meta" ≠ "" ∧ '.' ∉ "meta".toList ∧ HasPart document "meta".toList .null) ∧
    ("data.items.1" ≠ "" ∧ Leads document ("data.items.1".toList.splitOn '.') (.nat 8)) ∧
    takeOut? 0 [Json.nat 7, .nat 8, .nat 9] = some (.nat 7, [.nat 9, .nat 8]) ∧
      [Json.nat 7, .nat 8, .nat 9].Perm [.nat 7, .nat 9, .nat 8] := by
  intro document
  obtain ⟨hwhole, hone, hany, htake⟩ := paths_into_documents document
  have hdata : "data" ≠ "" := by decide
  have hitems : "items.+1" ≠ "" := by decide
  have hmeta : "meta" ≠ "" := by decide
  have hdot : '.' ∉ "meta".toList := by decide
  have hpath : "data.items.1" ≠ "" := by decide
  exact ⟨⟨hdata, hitems, hwhole _ _ hdata hitems⟩,
    ⟨hmeta, hdot, (hone _ _ hmeta hdot).mp rfl⟩,
    ⟨hpath, (hany _ _ hpath).mp rfl⟩, rfl, (htake _ _ _ 0 _ rfl).2⟩

end Http

end Bulletin
