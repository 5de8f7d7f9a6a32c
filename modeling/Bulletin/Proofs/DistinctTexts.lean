import Bulletin.Proofs.CompactText
import Bulletin.Record

/-!
# Values told apart by their texts

The compact text of a value says where it ends. The first character tells its kind, a string ends
with the first quote that is not escaped, and a number ends before the first comma or bracket. So
what is written of two values side by side can be taken apart in one way only, and values with one
text are equal, as far as their numbers are told apart by their own texts.

* `Json.chars_inj` — texts within another one
* `Json.compact_inj` — whole texts
-/

namespace Bulletin

namespace Json

/-! ## The numbers of a value -/

mutual

/-- The numbers in a value, in the order in which they are written. -/
def numbers : Json → List Number
  | .number n => [n]
  | .array items => itemNumbers items
  | .object members => memberNumbers members
  | .null | .bool _ | .string _ => []

def itemNumbers : List Json → List Number
  | [] => []
  | v :: rest => v.numbers ++ itemNumbers rest

def memberNumbers : List (String × Json) → List Number
  | [] => []
  | (_, v) :: rest => v.numbers ++ memberNumbers rest

end

/-- No number of the one list has the text of another number of the other list. -/
def ToldApart (ns ms : List Number) : Prop := ∀ n ∈ ns, ∀ m ∈ ms, n.text = m.text → n = m

instance (ns ms : List Number) : Decidable (ToldApart ns ms) :=
  inferInstanceAs (Decidable (∀ n ∈ ns, ∀ m ∈ ms, n.text = m.text → n = m))

theorem ToldApart.mono {ns ms ns' ms' : List Number} (h : ToldApart ns ms) (hn : ns' ⊆ ns)
    (hm : ms' ⊆ ms) : ToldApart ns' ms' :=
  fun n hn' m hm' => h n (hn hn') m (hm hm')

theorem ToldApart.left {ns ms ns' ms' : List Number} (h : ToldApart (ns ++ ns') (ms ++ ms')) :
    ToldApart ns ms :=
  h.mono (List.subset_append_left _ _) (List.subset_append_left _ _)

theorem ToldApart.right {ns ms ns' ms' : List Number} (h : ToldApart (ns ++ ns') (ms ++ ms')) :
    ToldApart ns' ms' :=
  h.mono (List.subset_append_right _ _) (List.subset_append_right _ _)

/-! ## Kinds -/

/-- The kind of the value that starts with a character. -/
def startingRank (c : Char) : Nat :=
  if c = 'n' then 0
  else if c = 't' ∨ c = 'f' then 1
  else if c = '"' then 3
  else if c = '[' then 4
  else if c = '\x7b' then 5
  else 2

theorem startingRank_of_digit {c : Char} (h : c.isDigit = true) : startingRank c = 2 := by
  have hne : ∀ d : Char, d.isDigit = false → c ≠ d := by
    rintro d hd rfl
    rw [h] at hd
    cases hd
  unfold startingRank
  rw [if_neg (hne _ rfl), if_neg (not_or_intro (hne _ rfl) (hne _ rfl)), if_neg (hne _ rfl),
    if_neg (hne _ rfl), if_neg (hne _ rfl)]

/-- The first character of a text tells the kind of the value. -/
theorem chars_starts (v : Json) : ∃ c rest, v.chars = c :: rest ∧ startingRank c = v.rank := by
  match v with
  | .null | .bool true | .bool false | .string s | .array items | .object members =>
    exact ⟨_, _, rfl, rfl⟩
  | .number n =>
    obtain ⟨magnitude, hm, ht | ht⟩ := n.text_eq
    · obtain ⟨c, rest, hc, hdigit⟩ := hm.head
      exact ⟨c, rest, ht.trans hc, startingRank_of_digit hdigit⟩
    · exact ⟨'-', magnitude, ht, rfl⟩

theorem rank_eq_of_append_eq {v w : Json} {rest rest' : List Char}
    (h : v.chars ++ rest = w.chars ++ rest') : v.rank = w.rank := by
  obtain ⟨c, tail, hc, hv⟩ := v.chars_starts
  obtain ⟨d, tail', hd, hw⟩ := w.chars_starts
  rw [hc, hd, List.cons_append, List.cons_append] at h
  rw [← hv, ← hw, List.head_eq_of_cons_eq h]

/-! ## Strings and numbers -/

/-- The text of a string ends at its closing quote. -/
theorem quotedChars_inj {s t : String} {rest rest' : List Char}
    (h : quotedChars s ++ rest = quotedChars t ++ rest') : s = t ∧ rest = rest' := by
  rw [quotedChars_append, quotedChars_append] at h
  -- with turns enough for both, one text is read once as the one and once as the other
  have hs := @readString_quotedChars s rest ((quotedChars s).length + (quotedChars t).length + 1)
    (by omega)
  have ht := @readString_quotedChars t rest' ((quotedChars s).length + (quotedChars t).length + 1)
    (by omega)
  rw [List.tail_eq_of_cons_eq h, ht] at hs
  cases hs
  exact ⟨rfl, rfl⟩

/-- A character that may stand behind a value. -/
def Delimits (c : Char) : Prop := c = ',' ∨ c = ']' ∨ c = '\x7d'

theorem IsNumeral.not_delimits {c : Char} (h : IsNumeral c) : ¬ Delimits c := by
  rintro (rfl | rfl | rfl) <;> exact absurd h (by decide)

theorem Delimited.not_numeral {text : List Char} (h : Delimited text) :
    ∀ c ∈ text.head?, ¬ IsNumeral c := fun c hc hn => hn.not_delimits (h c hc)

/-- Texts of one kind of characters end where the first of another kind stands. -/
theorem append_inj_of_kind {P : Char → Prop} {s t rest rest' : List Char} (hs : ∀ c ∈ s, P c)
    (ht : ∀ c ∈ t, P c) (hr : ∀ c ∈ rest.head?, ¬ P c) (hr' : ∀ c ∈ rest'.head?, ¬ P c)
    (h : s ++ rest = t ++ rest') : s = t ∧ rest = rest' := by
  induction s generalizing t with
  | nil =>
    cases t with
    | nil => exact ⟨rfl, h⟩
    | cons c t =>
      rw [List.nil_append] at h
      rw [h] at hr
      exact absurd (ht c List.mem_cons_self) (hr c rfl)
  | cons c s ih =>
    cases t with
    | nil =>
      rw [List.nil_append] at h
      rw [← h] at hr'
      exact absurd (hs c List.mem_cons_self) (hr' c rfl)
    | cons d t =>
      rw [List.cons_append, List.cons_append, List.cons.injEq] at h
      obtain ⟨rfl, h⟩ := h
      obtain ⟨rfl, hrest⟩ := ih (fun c hc => hs c (List.mem_cons_of_mem _ hc))
        (fun c hc => ht c (List.mem_cons_of_mem _ hc)) h
      exact ⟨rfl, hrest⟩

theorem Number.text_inj {n m : Number} {rest rest' : List Char}
    (hr : ∀ c ∈ rest.head?, ¬ IsNumeral c) (hr' : ∀ c ∈ rest'.head?, ¬ IsNumeral c)
    (h : n.text ++ rest = m.text ++ rest') : n.text = m.text ∧ rest = rest' :=
  append_inj_of_kind (fun _ => Number.isNumeral) (fun _ => Number.isNumeral) hr hr' h

/-! ## Items and members -/

/-- What stands behind an item of an array: a comma and the items that follow, or the bracket. -/
def behindItem : List Json → List Char → List Char
  | [], rest => ']' :: rest
  | v :: items, rest => ',' :: (itemChars (v :: items) ++ ']' :: rest)

theorem itemChars_append (v : Json) (items : List Json) (rest : List Char) :
    itemChars (v :: items) ++ ']' :: rest = v.chars ++ behindItem items rest := by
  cases items with
  | nil => rfl
  | cons w items => rw [itemChars_cons, List.append_assoc, List.cons_append, behindItem]

theorem delimited_behindItem (items : List Json) (rest : List Char) :
    Delimited (behindItem items rest) := by
  cases items <;> rintro c ⟨⟩ <;> simp

theorem behindItem_inj {items items' : List Json} {rest rest' : List Char}
    (h : behindItem items rest = behindItem items' rest') :
    itemChars items ++ ']' :: rest = itemChars items' ++ ']' :: rest' := by
  match items, items' with
  | [], [] => exact h
  | [], _ :: _ => cases h
  | _ :: _, [] => cases h
  | _ :: _, _ :: _ => exact List.tail_eq_of_cons_eq h

theorem itemChars_ne_bracket (v : Json) (items : List Json) (rest rest' : List Char) :
    itemChars (v :: items) ++ rest ≠ ']' :: rest' := by
  obtain ⟨c, tail, hc, ho⟩ := itemChars_head v items
  rw [hc, List.cons_append]
  exact fun h => ho.ne (by decide) (List.head_eq_of_cons_eq h)

/-- What stands behind a member of an object. -/
def behindMember : List (String × Json) → List Char → List Char
  | [], rest => '\x7d' :: rest
  | m :: members, rest => ',' :: (memberChars (m :: members) ++ '\x7d' :: rest)

theorem memberChars_append (k : String) (v : Json) (members : List (String × Json))
    (rest : List Char) :
    memberChars ((k, v) :: members) ++ '\x7d' :: rest
      = quotedChars k ++ ':' :: (v.chars ++ behindMember members rest) := by
  cases members with
  | nil => rw [memberChars, List.append_assoc, List.cons_append, behindMember]
  | cons m members =>
    rw [memberChars_cons, List.append_assoc, List.append_assoc, List.cons_append,
      List.cons_append, behindMember]

theorem delimited_behindMember (members : List (String × Json)) (rest : List Char) :
    Delimited (behindMember members rest) := by
  cases members <;> rintro c ⟨⟩ <;> simp

theorem behindMember_inj {members members' : List (String × Json)} {rest rest' : List Char}
    (h : behindMember members rest = behindMember members' rest') :
    memberChars members ++ '\x7d' :: rest = memberChars members' ++ '\x7d' :: rest' := by
  match members, members' with
  | [], [] => exact h
  | [], _ :: _ => cases h
  | _ :: _, [] => cases h
  | _ :: _, _ :: _ => exact List.tail_eq_of_cons_eq h

theorem memberChars_ne_brace (m : String × Json) (members : List (String × Json))
    (rest rest' : List Char) : memberChars (m :: members) ++ rest ≠ '\x7d' :: rest' := by
  obtain ⟨tail, hc⟩ := memberChars_head m members
  rw [hc, List.cons_append]
  exact fun h => absurd (List.head_eq_of_cons_eq h) (by decide)

/-! ## Values -/

theorem array_chars_append (items : List Json) (rest : List Char) :
    (Json.array items).chars ++ rest = '[' :: (itemChars items ++ ']' :: rest) := by
  rw [chars, List.cons_append, List.cons_append, List.append_assoc, List.singleton_append]

theorem object_chars_append (members : List (String × Json)) (rest : List Char) :
    (Json.object members).chars ++ rest = '\x7b' :: (memberChars members ++ '\x7d' :: rest) := by
  rw [chars, List.cons_append, List.cons_append, List.append_assoc, List.singleton_append]

mutual

/-- Two values of which the same is written, each within a text, are equal, and the texts go on
alike. -/
theorem chars_inj : (v w : Json) → {rest rest' : List Char} → ToldApart v.numbers w.numbers →
    Delimited rest → Delimited rest' → v.chars ++ rest = w.chars ++ rest' → v = w ∧ rest = rest'
  | .null, w, _, _, _, _, _, h => by
    have hrank := rank_eq_of_append_eq h
    cases w with
    | null => exact ⟨rfl, List.append_cancel_left h⟩
    | _ => cases hrank
  | .bool b, w, _, _, _, _, _, h => by
    have hrank := rank_eq_of_append_eq h
    cases w with
    | bool b' => cases b <;> cases b' <;> cases h <;> exact ⟨rfl, rfl⟩
    | _ => cases hrank
  | .number n, w, _, _, ha, hr, hr', h => by
    have hrank := rank_eq_of_append_eq h
    cases w with
    | number m =>
      obtain ⟨htext, hrest⟩ := Number.text_inj hr.not_numeral hr'.not_numeral h
      exact ⟨congrArg _ (ha n (by simp [numbers]) m (by simp [numbers]) htext), hrest⟩
    | _ => cases hrank
  | .string s, w, _, _, _, _, _, h => by
    have hrank := rank_eq_of_append_eq h
    cases w with
    | string t =>
      obtain ⟨hs, hrest⟩ := quotedChars_inj h
      exact ⟨congrArg _ hs, hrest⟩
    | _ => cases hrank
  | .array items, w, _, _, ha, _, _, h => by
    have hrank := rank_eq_of_append_eq h
    cases w with
    | array items' =>
      rw [array_chars_append, array_chars_append] at h
      obtain ⟨hitems, hrest⟩ := itemChars_inj items items' ha (List.tail_eq_of_cons_eq h)
      exact ⟨congrArg _ hitems, hrest⟩
    | _ => cases hrank
  | .object members, w, _, _, ha, _, _, h => by
    have hrank := rank_eq_of_append_eq h
    cases w with
    | object members' =>
      rw [object_chars_append, object_chars_append] at h
      obtain ⟨hmembers, hrest⟩ := memberChars_inj members members' ha (List.tail_eq_of_cons_eq h)
      exact ⟨congrArg _ hmembers, hrest⟩
    | _ => cases hrank

theorem itemChars_inj : (items items' : List Json) → {rest rest' : List Char} →
    ToldApart (itemNumbers items) (itemNumbers items') →
    itemChars items ++ ']' :: rest = itemChars items' ++ ']' :: rest' →
    items = items' ∧ rest = rest'
  | [], [], _, _, _, h => ⟨rfl, List.tail_eq_of_cons_eq h⟩
  | [], w :: items', _, _, _, h => absurd h.symm (itemChars_ne_bracket w items' _ _)
  | v :: items, [], _, _, _, h => absurd h (itemChars_ne_bracket v items _ _)
  | v :: items, w :: items', _, _, ha, h => by
    rw [itemChars_append, itemChars_append] at h
    obtain ⟨rfl, hbehind⟩ := chars_inj v w ha.left (delimited_behindItem _ _)
      (delimited_behindItem _ _) h
    obtain ⟨rfl, hrest⟩ := itemChars_inj items items' ha.right (behindItem_inj hbehind)
    exact ⟨rfl, hrest⟩

theorem memberChars_inj : (members members' : List (String × Json)) → {rest rest' : List Char} →
    ToldApart (memberNumbers members) (memberNumbers members') →
    memberChars members ++ '\x7d' :: rest = memberChars members' ++ '\x7d' :: rest' →
    members = members' ∧ rest = rest'
  | [], [], _, _, _, h => ⟨rfl, List.tail_eq_of_cons_eq h⟩
  | [], m :: members', _, _, _, h => absurd h.symm (memberChars_ne_brace m members' _ _)
  | m :: members, [], _, _, _, h => absurd h (memberChars_ne_brace m members _ _)
  | (k, v) :: members, (l, w) :: members', _, _, ha, h => by
    rw [memberChars_append, memberChars_append] at h
    obtain ⟨rfl, hvalue⟩ := quotedChars_inj h
    obtain ⟨rfl, hbehind⟩ := chars_inj v w ha.left (delimited_behindMember _ _)
      (delimited_behindMember _ _) (List.tail_eq_of_cons_eq hvalue)
    obtain ⟨rfl, hrest⟩ := memberChars_inj members members' ha.right (behindMember_inj hbehind)
    exact ⟨rfl, hrest⟩

end

/-! ## Whole texts -/

/-- **One text, one value.** The compact text tells two values apart as far as the texts of their
numbers do. -/
theorem compact_inj {v w : Json} (ha : ToldApart v.numbers w.numbers)
    (h : v.compact = w.compact) : v = w := by
  have hchars : v.chars ++ [] = w.chars ++ [] := by
    rw [List.append_nil, List.append_nil]
    exact String.ofList_injective h
  exact (chars_inj v w ha (by rintro c ⟨⟩) (by rintro c ⟨⟩) hchars).1

end Json

end Bulletin
