import Bulletin.Proofs.ReadBack

/-!
# Texts that are read

A value is *legible* if it is nested no deeper than readers go and the text of each of its numbers
reads as the number. The second is no matter of course: a reader of decimals may end at a double
next to the one that was written. The compact text of a legible value is read, and as the value.

* `Json.readValue_compact` — a text within another one
* `Json.Legible.ofText_compact` — a whole text
-/

namespace Bulletin

namespace Json

/-! ## Legible values -/

/-- The text of a number reads as the number. -/
def Number.ReadsBack (n : Number) : Prop :=
  Draft.ofText (Json.number n).compact = .ok (.number n)

mutual

/-- The text of every number of a value reads as the number. -/
def NumbersReadBack : Json → Prop
  | .number n => n.ReadsBack
  | .array items => ItemNumbersReadBack items
  | .object members => MemberNumbersReadBack members
  | .null | .bool _ | .string _ => True

def ItemNumbersReadBack : List Json → Prop
  | [] => True
  | v :: rest => v.NumbersReadBack ∧ ItemNumbersReadBack rest

def MemberNumbersReadBack : List (String × Json) → Prop
  | [] => True
  | (_, v) :: rest => v.NumbersReadBack ∧ MemberNumbersReadBack rest

end

/-- A value whose text can be read, number by number. -/
structure Legible (v : Json) : Prop where
  depth_le : v.depth ≤ depthLimit
  numbers : v.NumbersReadBack

/-! ## Leaves and names -/

theorem readWord_self (v : Draft) (word rest : List Char) :
    readWord v word (word ++ rest) = .ok (v, rest) := by
  induction word with
  | nil => rfl
  | cons w word ih => rw [List.cons_append, readWord, if_pos rfl, ih]

theorem length_le_length_flatMap (text : List Char) :
    text.length ≤ (text.flatMap escapeChar).length := by
  have hone : ∀ c, 1 ≤ (escapeChar c).length := by
    intro c
    unfold escapeChar
    split
    case h_8 => split <;> simp
    all_goals decide
  induction text with
  | nil => exact Nat.le_refl 0
  | cons c text ih =>
    have := hone c
    rw [List.flatMap_cons, List.length_append, List.length_cons]
    omega

/-- The text of a string after its opening quote, as long as there are turns left. -/
theorem readString_escaped {text rest passed : List Char} {limit : Nat} (h : text.length < limit) :
    readString true limit (some passed) (text.flatMap escapeChar ++ '"' :: rest)
      = .ok (some (String.ofList (passed.reverse ++ text)), rest) := by
  induction text generalizing limit passed with
  | nil =>
    obtain ⟨limit, rfl⟩ : ∃ n, limit = n + 1 := ⟨limit - 1, by rw [List.length_nil] at h; omega⟩
    rw [List.append_nil]
    rfl
  | cons c text ih =>
    rw [List.length_cons] at h
    obtain ⟨limit, rfl⟩ : ∃ n, limit = n + 1 := ⟨limit - 1, by omega⟩
    rw [List.flatMap_cons, List.append_assoc, readString_escapeChar, ih (by omega),
      List.reverse_cons, List.append_assoc, List.singleton_append]

theorem readString_quotedChars {s : String} {rest : List Char} {limit : Nat}
    (h : (quotedChars s).length < limit) :
    readString true limit (some []) (s.toList.flatMap escapeChar ++ '"' :: rest)
      = .ok (some s, rest) := by
  have hlength := length_le_length_flatMap s.toList
  simp only [quotedChars, List.length_cons, List.length_append, List.cons_append] at h
  rw [readString_escaped (by omega), List.reverse_nil, List.nil_append, String.ofList_toList]

theorem readLeaf_quotedChars {s : String} {rest : List Char} {limit : Nat}
    (h : (quotedChars s).length < limit) :
    readLeaf true limit (quotedChars s ++ rest) = .ok (.string s, rest) := by
  rw [quotedChars_append, readLeaf, readString_quotedChars h]
  rfl

theorem readName_quotedChars {k : String} {limit : Nat} (h : (quotedChars k).length < limit)
    (rest : List Char) :
    readName true limit (quotedChars k ++ ':' :: rest) = .ok (some k, rest) := by
  rw [quotedChars_append, readName, readString_quotedChars h]
  rfl

/-! ## Values -/

mutual

/-- The text of a value within another one, as long as there is depth and there are turns left. -/
theorem readValue_compact : (v : Json) → {limit depth : Nat} → {rest : List Char} →
    v.NumbersReadBack → v.depth ≤ depth → v.chars.length < limit → Delimited rest →
    readValue true limit depth (v.chars ++ rest) = .ok (.ofJson v, rest)
  | .null, _, _, rest, _, _, _, _ => by
    rw [chars, List.cons_append, readValue_leaf (by decide) (by decide) (by decide)]
    exact readWord_self .null ['u', 'l', 'l'] rest
  | .bool true, _, _, rest, _, _, _, _ => by
    rw [chars, List.cons_append, readValue_leaf (by decide) (by decide) (by decide)]
    exact readWord_self (.bool true) ['r', 'u', 'e'] rest
  | .bool false, _, _, rest, _, _, _, _ => by
    rw [chars, List.cons_append, readValue_leaf (by decide) (by decide) (by decide)]
    exact readWord_self (.bool false) ['a', 'l', 's', 'e'] rest
  | .number n, _, _, _, hn, _, _, hr => by
    obtain ⟨c, tail, hc, ho, hlist, hobject⟩ := n.text_head
    rw [chars, hc, List.cons_append, readValue_leaf ho.not_space hlist hobject,
      ← List.cons_append, ← hc]
    exact (Number.readsAs_iff_readLeaf hr).mp hn
  | .string s, _, _, _, _, _, hl, _ => by
    rw [chars, quotedChars_append, readValue_leaf (by decide) (by decide) (by decide),
      ← quotedChars_append]
    exact readLeaf_quotedChars hl
  | .array [], _, 0, _, _, hd, _, _ => absurd hd (by decide)
  | .array [], _, _ + 1, _, _, _, _, _ => rfl
  | .array (v :: items), limit, 0, _, _, hd, _, _ => absurd hd (by rw [Json.depth]; omega)
  | .array (v :: items), limit, depth + 1, rest, hn, hd, hl, _ => by
    obtain ⟨c, tail, hc, ho⟩ := itemChars_head v items
    have htext : (Json.array (v :: items)).chars ++ rest
        = '[' :: (itemChars (v :: items) ++ ']' :: rest) := by
      rw [chars, List.cons_append, List.cons_append, List.append_assoc, List.singleton_append]
    have hlength : (itemChars (v :: items)).length < limit := by
      rw [chars, List.length_append, List.length_cons] at hl
      omega
    rw [htext, hc, List.cons_append, readValue_items ho, ← List.cons_append, ← hc]
    exact readItems_compact (v :: items) (by simp) hn (by rw [Json.depth] at hd; omega) hlength
      hlength
  | .object [], _, 0, _, _, hd, _, _ => absurd hd (by decide)
  | .object [], _, _ + 1, _, _, _, _, _ => rfl
  | .object (m :: members), limit, 0, _, _, hd, _, _ => absurd hd (by rw [Json.depth]; omega)
  | .object (m :: members), limit, depth + 1, rest, hn, hd, hl, _ => by
    obtain ⟨tail, hc⟩ := memberChars_head m members
    have htext : (Json.object (m :: members)).chars ++ rest
        = '\x7b' :: (memberChars (m :: members) ++ '\x7d' :: rest) := by
      rw [chars, List.cons_append, List.cons_append, List.append_assoc, List.singleton_append]
    have hlength : (memberChars (m :: members)).length < limit := by
      rw [chars, List.length_append, List.length_cons] at hl
      omega
    rw [htext, hc, List.cons_append, readValue_members (.inl (by decide)), ← List.cons_append, ← hc]
    exact readMembers_compact (m :: members) (by simp) hn (by rw [Json.depth] at hd; omega) hlength
      hlength

theorem readItems_compact : (items : List Json) → items ≠ [] → {limit limit' depth : Nat} →
    {passed : List Draft} → {rest : List Char} → ItemNumbersReadBack items →
    itemsDepth items ≤ depth → (itemChars items).length < limit →
    (itemChars items).length < limit' →
    readItems (readValue true limit depth) limit' passed (itemChars items ++ ']' :: rest)
      = .ok (.array (passed.reverse ++ Draft.ofItems items), rest)
  | [], hne, _, _, _, _, _, _, _, _, _ => absurd rfl hne
  | _ :: _, _, _, 0, _, _, _, _, _, _, hl => absurd hl (Nat.not_lt_zero _)
  | [v], _, _, _ + 1, _, _, rest, hn, hd, hl, _ => by
    rw [itemChars] at hl ⊢
    have hread := readValue_compact v hn.1 ((Nat.le_max_left _ _).trans hd) hl
      (delimited_cons (show ']' = ',' ∨ ']' = ']' ∨ ']' = '\x7d' by simp) rest)
    rw [readItems_last hread, List.reverse_cons]
    rfl
  | v :: next :: items, _, limit, limit' + 1, depth, passed, rest, hn, hd, hl, hl' => by
    obtain ⟨c, tail, hc, ho⟩ := itemChars_head next items
    rw [itemChars_cons, List.length_append, List.length_cons] at hl hl'
    have hread := readValue_compact v hn.1 ((Nat.le_max_left _ _).trans hd)
      (show v.chars.length < limit by omega)
      (delimited_cons (show ',' = ',' ∨ ',' = ']' ∨ ',' = '\x7d' by simp)
        (itemChars (next :: items) ++ ']' :: rest))
    rw [itemChars_cons, List.append_assoc, List.cons_append]
    rw [hc, List.cons_append] at hread ⊢
    rw [readItems_next hread ho, ← List.cons_append, ← hc,
      readItems_compact (next :: items) (by simp) hn.2 ((Nat.le_max_right _ _).trans hd) (by omega)
        (by omega), List.reverse_cons, List.append_assoc, List.singleton_append]
    rfl

theorem readMembers_compact : (members : List (String × Json)) → members ≠ [] →
    {limit limit' depth : Nat} → {passed : List (String × Draft)} → {rest : List Char} →
    MemberNumbersReadBack members → membersDepth members ≤ depth →
    (memberChars members).length < limit → (memberChars members).length < limit' →
    readMembers true limit (readValue true limit depth) limit' (some passed)
      (memberChars members ++ '\x7d' :: rest)
      = .ok (.object (passed.reverse ++ Draft.ofMembers members), rest)
  | [], hne, _, _, _, _, _, _, _, _, _ => absurd rfl hne
  | _ :: _, _, _, 0, _, _, _, _, _, _, hl => absurd hl (Nat.not_lt_zero _)
  | [(k, v)], _, limit, _ + 1, _, _, rest, hn, hd, hl, _ => by
    rw [memberChars, List.length_append, List.length_cons] at hl
    have hname := readName_quotedChars (show (quotedChars k).length < limit by omega)
    have hread := readValue_compact v hn.1 ((Nat.le_max_left _ _).trans hd)
      (show v.chars.length < limit by omega)
      (delimited_cons (show '\x7d' = ',' ∨ '\x7d' = ']' ∨ '\x7d' = '\x7d' by simp) rest)
    rw [memberChars, List.append_assoc, List.cons_append, readMembers_last (hname _) hread,
      List.reverse_cons]
    rfl
  | (k, v) :: next :: members, _, limit, limit' + 1, depth, passed, rest, hn, hd, hl, hl' => by
    obtain ⟨tail, hc⟩ := memberChars_head next members
    have ho : Opens '"' := .inl (by decide)
    simp only [memberChars_cons, List.length_append, List.length_cons] at hl hl'
    have hname := readName_quotedChars (show (quotedChars k).length < limit by omega)
    have hread := readValue_compact v hn.1 ((Nat.le_max_left _ _).trans hd)
      (show v.chars.length < limit by omega)
      (delimited_cons (show ',' = ',' ∨ ',' = ']' ∨ ',' = '\x7d' by simp)
        (memberChars (next :: members) ++ '\x7d' :: rest))
    rw [memberChars_cons, List.append_assoc, List.append_assoc, List.cons_append,
      List.cons_append]
    rw [hc, List.cons_append] at hread ⊢
    rw [readMembers_next (hname _) hread ho, ← List.cons_append, ← hc,
      readMembers_compact (next :: members) (by simp) hn.2 ((Nat.le_max_right _ _).trans hd)
        (by omega) (by omega), List.reverse_cons, List.append_assoc, List.singleton_append]
    rfl

end

/-! ## Whole texts -/

/-- **The text of a legible value.** It is read, and as the value. -/
theorem Legible.ofText_compact {v : Json} (h : v.Legible) :
    Draft.ofText v.compact = .ok (.ofJson v) := by
  have hend : Delimited [] := by rintro c ⟨⟩
  have hread := readValue_compact v h.numbers h.depth_le (Nat.lt_succ_self _) hend
  rw [List.append_nil] at hread
  rw [Draft.ofText, compact, String.toList_ofList, readText, hread]
  rfl

end Json

end Bulletin
