import Bulletin.Json.Decode
import Bulletin.Proofs.IdentText
import Bulletin.Proofs.NumberText

/-!
# Reading back what was written

A value is written as compact text, and the text may be read again. It need not be: too deep a value
has a text that no reader takes. But if a reader takes it, then the value is not too deep, what is
read stands for it with other numbers at most, each of them the one that the text of the number
reads as, and the reading stops where the text does.

* `readString_quoted` — the text of a string reads as the string
* `readValue_chars` — a text within another one
* `Draft.read_of_ofText` — a whole text
-/

namespace Bulletin

namespace Json

/-! ## Values and drafts -/

/-- The text of a number reads as a number. -/
def Number.ReadsAs (n m : Number) : Prop := Draft.ofText (Json.number n).compact = .ok (.number m)

mutual

/-- A draft that stands for a value: its numbers are those that the texts of the numbers read as,
and all else is the same. -/
def StandsFor : Json → Draft → Prop
  | .null, d => d = .null
  | .bool b, d => d = .bool b
  | .number n, d => ∃ m, d = .number m ∧ n.ReadsAs m
  | .string s, d => d = .string s
  | .array items, d => ∃ ds, d = .array ds ∧ ItemsStandFor items ds
  | .object members, d => ∃ ds, d = .object ds ∧ MembersStandFor members ds

def ItemsStandFor : List Json → List Draft → Prop
  | [], ds => ds = []
  | v :: rest, ds => ∃ d tail, ds = d :: tail ∧ StandsFor v d ∧ ItemsStandFor rest tail

def MembersStandFor : List (String × Json) → List (String × Draft) → Prop
  | [], ds => ds = []
  | (k, v) :: rest, ds => ∃ d tail, ds = (k, d) :: tail ∧ StandsFor v d ∧ MembersStandFor rest tail

end

mutual

/-- How many arrays and objects stand around the innermost part. -/
def depth : Json → Nat
  | .array items => itemsDepth items + 1
  | .object members => membersDepth members + 1
  | .null | .bool _ | .number _ | .string _ => 0

def itemsDepth : List Json → Nat
  | [] => 0
  | v :: rest => max v.depth (itemsDepth rest)

def membersDepth : List (String × Json) → Nat
  | [] => 0
  | (_, v) :: rest => max v.depth (membersDepth rest)

end

/-! ## Strings -/

/-- An escape of four digits that is written for a control character. -/
theorem readUnitEscape_control {c : Char} (h : c.toNat < 0x20) (rest : List Char) :
    readUnitEscape ('0' :: '0' :: hexDigit (c.toNat / 16) :: hexDigit (c.toNat % 16) :: rest)
      = .ok (.char c, rest) := by
  have hunit : hexUnit? ('0' :: '0' :: hexDigit (c.toNat / 16) :: hexDigit (c.toNat % 16) :: rest)
      = some (c.toNat, rest) := by
    simp only [hexUnit?, hexValue?_hexDigit (show c.toNat / 16 < 16 by omega),
      hexValue?_hexDigit (show c.toNat % 16 < 16 by omega), show hexValue? '0' = some 0 from rfl,
      Option.bind_eq_bind, Option.bind_some, Option.pure_def]
    rw [show ((0 * 16 + 0) * 16 + c.toNat / 16) * 16 + c.toNat % 16 = c.toNat by omega]
  have htrailing : isTrailing c.toNat = false := by
    simp only [isTrailing, Bool.and_eq_false_iff, decide_eq_false_iff_not]
    omega
  have hleading : isLeading c.toNat = false := by
    simp only [isLeading, Bool.and_eq_false_iff, decide_eq_false_iff_not]
    omega
  unfold readUnitEscape
  simp only [readUnit, hunit]
  refine bind_eq_ok.mpr ⟨_, rfl, ?_⟩
  simp only [htrailing, hleading, Bool.false_eq_true, if_false, Char.ofNat_toNat]
  rfl

/-- One character of a string is read from what is written for it. -/
theorem readString_escapeChar {limit : Nat} {passed : List Char} {c : Char} {text : List Char} :
    readString true (limit + 1) (some passed) (escapeChar c ++ text)
      = readString true limit (some (c :: passed)) text := by
  unfold escapeChar
  split
  -- a character without a letter of its own is written as it is, or by its number
  case h_8 hquote hback _ _ _ _ _ =>
    split
    · next hcontrol =>
      show readString true (limit + 1) (some passed)
        ('\\' :: 'u' :: '0' :: '0' :: hexDigit (c.toNat / 16) :: hexDigit (c.toNat % 16) :: text)
          = _
      rw [readString]
      simp only [readEscape, readUnitEscape_control hcontrol, Option.map_some]
    · next hcontrol =>
      show readString true (limit + 1) (some passed) (c :: text) = _
      rw [readString]
      · simp only [if_neg hcontrol, Option.map_some]
      · exact hquote
      · exact hback
  all_goals rfl

theorem readString_flatMap {text rest rest' : List Char} {limit : Nat} {passed : List Char}
    {found : Option String}
    (h : readString true limit (some passed) (text.flatMap escapeChar ++ '"' :: rest)
      = .ok (found, rest')) :
    rest' = rest ∧ found = some (String.ofList (passed.reverse ++ text)) := by
  induction text generalizing limit passed with
  | nil =>
    cases limit with
    | zero => cases h
    | succ limit =>
      cases h
      rw [List.append_nil]
      exact ⟨rfl, rfl⟩
  | cons c text ih =>
    cases limit with
    | zero => cases h
    | succ limit =>
      rw [List.flatMap_cons, List.append_assoc, readString_escapeChar] at h
      obtain ⟨hrest, hfound⟩ := ih h
      refine ⟨hrest, hfound.trans ?_⟩
      rw [List.reverse_cons, List.append_assoc, List.singleton_append]

/-- The text of a string after its opening quote reads as the string. -/
theorem readString_quoted {s : String} {rest rest' : List Char} {limit : Nat}
    {found : Option String}
    (h : readString true limit (some []) (s.toList.flatMap escapeChar ++ '"' :: rest)
      = .ok (found, rest')) : rest' = rest ∧ found = some s := by
  obtain ⟨hrest, hfound⟩ := readString_flatMap h
  refine ⟨hrest, hfound.trans ?_⟩
  rw [List.reverse_nil, List.nil_append, String.ofList_toList]

/-! ## First characters -/

/-- The characters with which a value may start. -/
def Opens (c : Char) : Prop := c ∈ ['n', 't', 'f', '"', '[', '\x7b', '-'] ∨ c.isDigit = true

theorem Opens.ne {c d : Char} (h : Opens c)
    (hd : d ∉ ['n', 't', 'f', '"', '[', '\x7b', '-'] ∧ d.isDigit = false) : c ≠ d := by
  rintro rfl
  rcases h with h | h
  · exact hd.1 h
  · rw [hd.2] at h
    cases h

theorem Opens.not_space {c : Char} (h : Opens c) : isSpace c = false := by
  simp only [isSpace, Bool.or_eq_false_iff, beq_eq_false_iff_ne]
  exact ⟨⟨⟨h.ne (by decide), h.ne (by decide)⟩, h.ne (by decide)⟩, h.ne (by decide)⟩

theorem IsMagnitude.head {text : List Char} (h : IsMagnitude text) :
    ∃ c rest, text = c :: rest ∧ c.isDigit = true := by
  cases h with
  | @mk whole _ _ hw _ _ =>
  match whole, hw with
  | [], hw => exact absurd rfl hw.1
  | c :: whole, hw => exact ⟨c, _, rfl, hw.2 c List.mem_cons_self⟩

theorem Number.text_head (n : Number) :
    ∃ c rest, n.text = c :: rest ∧ Opens c ∧ c ≠ '[' ∧ c ≠ '\x7b' := by
  obtain ⟨magnitude, hm, ht | ht⟩ := n.text_eq
  · obtain ⟨c, rest, hc, hdigit⟩ := hm.head
    refine ⟨c, rest, ht.trans hc, .inr hdigit, ?_, ?_⟩
    all_goals
      rintro rfl
      cases hdigit
  · exact ⟨'-', magnitude, ht, .inl (by decide), by decide, by decide⟩

theorem chars_head (v : Json) : ∃ c rest, v.chars = c :: rest ∧ Opens c := by
  match v with
  | .null => exact ⟨_, _, rfl, .inl (by decide)⟩
  | .bool true => exact ⟨_, _, rfl, .inl (by decide)⟩
  | .bool false => exact ⟨_, _, rfl, .inl (by decide)⟩
  | .string s => exact ⟨_, _, rfl, .inl (by decide)⟩
  | .array items => exact ⟨_, _, rfl, .inl (by decide)⟩
  | .object members => exact ⟨_, _, rfl, .inl (by decide)⟩
  | .number n =>
    obtain ⟨c, rest, hc, ho, -, -⟩ := n.text_head
    exact ⟨c, rest, hc, ho⟩

theorem skipSpace_cons {c : Char} (h : isSpace c = false) (rest : List Char) :
    skipSpace (c :: rest) = c :: rest :=
  List.dropWhile_cons_of_neg (by rw [h]; decide)

theorem Delimited.skipSpace {text : List Char} (h : Delimited text) :
    Json.skipSpace text = text := by
  match text, h with
  | [], _ => rfl
  | c :: rest, h => rcases h c rfl with rfl | rfl | rfl <;> rfl

/-! ## Leaves and names -/

theorem readWord_append {v d : Draft} {word rest rest' : List Char}
    (h : readWord v word (word ++ rest) = .ok (d, rest')) : rest' = rest ∧ d = v := by
  induction word with
  | nil =>
    cases h
    exact ⟨rfl, rfl⟩
  | cons w word ih =>
    rw [List.cons_append, readWord, if_pos rfl] at h
    exact ih h

theorem quotedChars_append (s : String) (rest : List Char) :
    quotedChars s ++ rest = '"' :: (s.toList.flatMap escapeChar ++ '"' :: rest) := by
  simp only [quotedChars, List.cons_append, List.append_assoc, List.nil_append]

theorem readLeaf_string {s : String} {limit : Nat} {rest rest' : List Char} {d : Draft}
    (h : readLeaf true limit (quotedChars s ++ rest) = .ok (d, rest')) :
    rest' = rest ∧ d = .string s := by
  rw [quotedChars_append, readLeaf] at h
  obtain ⟨⟨found, after⟩, hs, h⟩ := bind_eq_ok.mp h
  obtain ⟨rfl, rfl⟩ := readString_quoted hs
  cases h
  exact ⟨rfl, rfl⟩

theorem readLeaf_digit {c : Char} (h : c.isDigit = true) (limit : Nat) (rest : List Char) :
    readLeaf true limit (c :: rest) = readNumber true false (c :: rest) := by
  have hne : ∀ d : Char, d.isDigit = false → c ≠ d := by
    rintro d hd rfl
    rw [h] at hd
    cases hd
  rw [readLeaf, if_pos h]
  all_goals exact hne _ rfl

/-- The text of a number is read in one way in all places, and the text of a double is not read as
a whole number. -/
theorem readLeaf_number_iff (n : Number) : ∃ found : Option Number,
    (∀ x k fits, n = .real x → found ≠ some (.int k fits)) ∧
    ∀ limit rest, Delimited rest → ∀ d rest',
      readLeaf true limit (n.text ++ rest) = .ok (d, rest') ↔
        rest' = rest ∧ ∃ m, found = some m ∧ d = .number m := by
  obtain ⟨magnitude, hm, ht⟩ := n.text_eq
  have hreal {found : Option Number}
      (hint : ∀ k fits, found = some (.int k fits) → ∀ c ∈ magnitude, c.isDigit = true) :
      ∀ x k fits, n = .real x → found ≠ some (.int k fits) := by
    rintro x k fits rfl hfound
    obtain ⟨c, hmem, hc⟩ := Number.exists_mark x
    have hdigit : c ∈ magnitude → c.isDigit = true := hint k fits hfound c
    rcases ht with ht | ht
    · rw [ht] at hmem
      rcases hc with rfl | rfl <;> exact nomatch hdigit hmem
    · rw [ht, List.mem_cons] at hmem
      rcases hc with rfl | rfl <;> exact nomatch hdigit (hmem.resolve_left (by decide))
  rcases ht with ht | ht
  · obtain ⟨c, tail, hc, hdigit⟩ := hm.head
    obtain ⟨found, hint, hfound⟩ := readNumber_append hm false
    refine ⟨found, hreal hint, fun limit rest hr d rest' => ?_⟩
    rw [ht, ← hfound rest hr d rest', hc, List.cons_append, readLeaf_digit hdigit]
  · obtain ⟨found, hint, hfound⟩ := readNumber_append hm true
    refine ⟨found, hreal hint, fun limit rest hr d rest' => ?_⟩
    rw [ht, ← hfound rest hr d rest', List.cons_append, readLeaf]

theorem readName_quoted {k : String} {limit : Nat} {rest rest' : List Char} {name : Option String}
    (h : readName true limit (quotedChars k ++ ':' :: rest) = .ok (name, rest')) :
    rest' = rest ∧ name = some k := by
  rw [quotedChars_append, readName] at h
  obtain ⟨⟨found, after⟩, hs, h⟩ := bind_eq_ok.mp h
  obtain ⟨rfl, rfl⟩ := readString_quoted hs
  cases h
  exact ⟨rfl, rfl⟩

/-! ## Turns of the loops -/

section

variable {readOne : List Char → Except Stop (Draft × List Char)} {limit nameLimit : Nat}
  {text rest : List Char} {v : Draft} {c : Char}

theorem readItems_first {passed : List Draft} {found : Draft × List Char}
    (h : readItems readOne limit passed text = .ok found) :
    ∃ v after, readOne text = .ok (v, after) := by
  cases limit with
  | zero => cases h
  | succ limit =>
    rw [readItems] at h
    obtain ⟨⟨v, after⟩, hv, -⟩ := bind_eq_ok.mp h
    exact ⟨v, after, hv⟩

theorem readItems_last {passed : List Draft} (h : readOne text = .ok (v, ']' :: rest)) :
    readItems readOne (limit + 1) passed text = .ok (.array (v :: passed).reverse, rest) := by
  rw [readItems, h]
  rfl

theorem readItems_next {passed : List Draft} (h : readOne text = .ok (v, ',' :: c :: rest))
    (hc : Opens c) :
    readItems readOne (limit + 1) passed text
      = readItems readOne limit (v :: passed) (c :: rest) := by
  rw [readItems, h, ok_bind]
  simp only [skipSpace_cons (show isSpace ',' = false from rfl), skipSpace_cons hc.not_space]
  split
  · next heq =>
    cases heq
    exact absurd rfl (hc.ne (by decide))
  · rfl

theorem readMembers_first {passed : Option (List (String × Draft))} {found : Draft × List Char}
    (h : readMembers true nameLimit readOne limit passed text = .ok found) :
    ∃ name after v rest, readName true nameLimit text = .ok (name, after) ∧
      readOne after = .ok (v, rest) := by
  cases limit with
  | zero => cases h
  | succ limit =>
    rw [readMembers] at h
    obtain ⟨⟨name, after⟩, hname, h⟩ := bind_eq_ok.mp h
    obtain ⟨⟨v, rest⟩, hv, -⟩ := bind_eq_ok.mp h
    exact ⟨name, after, v, rest, hname, hv⟩

theorem readMembers_last {k : String} {passed : List (String × Draft)} {after : List Char}
    (hname : readName true nameLimit text = .ok (some k, after))
    (h : readOne after = .ok (v, '\x7d' :: rest)) :
    readMembers true nameLimit readOne (limit + 1) (some passed) text
      = .ok (.object ((k, v) :: passed).reverse, rest) := by
  rw [readMembers, hname, ok_bind]
  simp only [h, ok_bind]
  rfl

theorem readMembers_next {k : String} {passed : List (String × Draft)} {after : List Char}
    (hname : readName true nameLimit text = .ok (some k, after))
    (h : readOne after = .ok (v, ',' :: c :: rest)) (hc : Opens c) :
    readMembers true nameLimit readOne (limit + 1) (some passed) text
      = readMembers true nameLimit readOne limit (some ((k, v) :: passed)) (c :: rest) := by
  rw [readMembers, hname, ok_bind]
  simp only [h, ok_bind, skipSpace_cons (show isSpace ',' = false from rfl),
    skipSpace_cons hc.not_space]
  split
  · next heq =>
    cases heq
    exact absurd rfl (hc.ne (by decide))
  · next heq => cases heq
  · rfl

end

/-! ## Values -/

/-- Where a value stands that is no array and no object, a leaf is read. -/
theorem readValue_leaf {limit depth : Nat} {c : Char} (hs : isSpace c = false) (hlist : c ≠ '[')
    (hobject : c ≠ '\x7b') (rest : List Char) :
    readValue true limit depth (c :: rest) = readLeaf true limit (c :: rest) := by
  unfold readValue
  rw [skipSpace_cons hs]
  split
  · next heq =>
    cases heq
    exact absurd rfl hlist
  · next heq =>
    cases heq
    exact absurd rfl hobject
  · rfl

/-- A number reads as the same by itself and in any other place. -/
theorem Number.readsAs_iff_readLeaf {n m : Number} {limit : Nat} {rest : List Char}
    (hr : Delimited rest) :
    n.ReadsAs m ↔ readLeaf true limit (n.text ++ rest) = .ok (.number m, rest) := by
  have hend : Delimited [] := by rintro c ⟨⟩
  obtain ⟨found, -, hfound⟩ := readLeaf_number_iff n
  obtain ⟨c, tail, hc, ho, hlist, hobject⟩ := n.text_head
  have hvalue : ∀ limit depth, readValue true limit depth n.text = readLeaf true limit n.text := by
    intro limit depth
    rw [hc, readValue_leaf ho.not_space hlist hobject]
  have hleaf : ∀ limit d rest', readLeaf true limit n.text = .ok (d, rest') ↔
      rest' = [] ∧ ∃ m, found = some m ∧ d = .number m := by
    intro limit d rest'
    rw [← hfound limit [] hend, List.append_nil]
  rw [hfound limit rest hr]
  simp only [true_and, Draft.number.injEq, exists_eq_right']
  unfold ReadsAs Draft.ofText
  rw [compact, String.toList_ofList, chars]
  unfold readText
  rw [hvalue]
  cases found with
  | none =>
    refine iff_of_false (fun h => ?_) nofun
    cases hread : readLeaf true (n.text.length + 1) n.text with
    | error stop =>
      rw [hread] at h
      cases h
    | ok found =>
      obtain ⟨-, _, ⟨⟩, -⟩ := (hleaf _ _ _).mp hread
  | some k =>
    rw [(hleaf _ (.number k) []).mpr ⟨rfl, k, rfl, rfl⟩]
    constructor
    · rintro ⟨⟩
      rfl
    · rintro ⟨⟩
      rfl

theorem readLeaf_number {n : Number} {limit : Nat} {rest rest' : List Char} {d : Draft}
    (hr : Delimited rest) (h : readLeaf true limit (n.text ++ rest) = .ok (d, rest')) :
    rest' = rest ∧ ∃ m, d = .number m ∧ n.ReadsAs m := by
  obtain ⟨found, -, hfound⟩ := readLeaf_number_iff n
  obtain ⟨rfl, m, -, rfl⟩ := (hfound limit rest hr d rest').mp h
  exact ⟨rfl, m, rfl, (Number.readsAs_iff_readLeaf hr).mpr h⟩

/-- The text of a double reads as a double. -/
theorem Number.ReadsAs.real {x : Finite64} {m : Number} (h : (Number.real x).ReadsAs m) :
    ∃ y, m = .real y := by
  have hend : Delimited [] := by rintro c ⟨⟩
  obtain ⟨found, hreal, hfound⟩ := readLeaf_number_iff (.real x)
  obtain ⟨-, _, rfl, hm⟩ := (hfound 0 [] hend _ _).mp ((readsAs_iff_readLeaf hend).mp h)
  cases hm
  cases m with
  | int k fits => exact absurd rfl (hreal x k fits rfl)
  | real y => exact ⟨y, rfl⟩

theorem readValue_items {limit depth : Nat} {c : Char} (hc : Opens c) (rest : List Char) :
    readValue true limit (depth + 1) ('[' :: c :: rest)
      = readItems (readValue true limit depth) limit [] (c :: rest) := by
  rw [readValue, skipSpace_cons (show isSpace '[' = false from rfl)]
  simp only [skipSpace_cons hc.not_space]
  split
  · next heq =>
    cases heq
    exact absurd rfl (hc.ne (by decide))
  · next heq => cases heq
  · rfl

theorem readValue_members {limit depth : Nat} {c : Char} (hc : Opens c) (rest : List Char) :
    readValue true limit (depth + 1) ('\x7b' :: c :: rest)
      = readMembers true limit (readValue true limit depth) limit (some []) (c :: rest) := by
  rw [readValue, skipSpace_cons (show isSpace '\x7b' = false from rfl)]
  simp only [skipSpace_cons hc.not_space]
  split
  · next heq =>
    cases heq
    exact absurd rfl (hc.ne (by decide))
  · next heq => cases heq
  · rfl

/-- An array that is read has a depth left for its items. -/
theorem readValue_array {limit depth : Nat} {c : Char} {rest : List Char}
    {found : Draft × List Char} (hc : Opens c)
    (h : readValue true limit depth ('[' :: c :: rest) = .ok found) :
    ∃ depth', depth = depth' + 1 ∧
      readItems (readValue true limit depth') limit [] (c :: rest) = .ok found := by
  cases depth with
  | zero => cases h
  | succ depth => exact ⟨depth, rfl, (readValue_items hc rest).symm.trans h⟩

/-- An object that is read has a depth left for its members. -/
theorem readValue_object {limit depth : Nat} {c : Char} {rest : List Char}
    {found : Draft × List Char} (hc : Opens c)
    (h : readValue true limit depth ('\x7b' :: c :: rest) = .ok found) :
    ∃ depth', depth = depth' + 1 ∧
      readMembers true limit (readValue true limit depth') limit (some []) (c :: rest)
        = .ok found := by
  cases depth with
  | zero => cases h
  | succ depth => exact ⟨depth, rfl, (readValue_members hc rest).symm.trans h⟩

theorem itemChars_cons (v w : Json) (items : List Json) :
    itemChars (v :: w :: items) = v.chars ++ ',' :: itemChars (w :: items) := by
  rw [itemChars]
  exact nofun

theorem memberChars_cons (k : String) (v : Json) (m : String × Json)
    (members : List (String × Json)) :
    memberChars ((k, v) :: m :: members)
      = quotedChars k ++ ':' :: v.chars ++ ',' :: memberChars (m :: members) := by
  rw [memberChars]
  exact nofun

theorem itemChars_head (v : Json) (items : List Json) :
    ∃ c rest, itemChars (v :: items) = c :: rest ∧ Opens c := by
  obtain ⟨c, rest, hc, ho⟩ := v.chars_head
  cases items with
  | nil => exact ⟨c, rest, hc, ho⟩
  | cons w items =>
    refine ⟨c, rest ++ ',' :: itemChars (w :: items), ?_, ho⟩
    rw [itemChars_cons, hc, List.cons_append]

theorem memberChars_head (m : String × Json) (members : List (String × Json)) :
    ∃ rest, memberChars (m :: members) = '"' :: rest := by
  cases members <;> exact ⟨_, rfl⟩

theorem delimited_cons {c : Char} (h : c = ',' ∨ c = ']' ∨ c = '\x7d') (rest : List Char) :
    Delimited (c :: rest) := by
  rintro _ ⟨⟩
  exact h

mutual

/-- What is read where the text of a value stands, stands for the value, and the value is nested no
deeper than it may be there. -/
theorem readValue_chars : (v : Json) → {limit depth : Nat} → {rest rest' : List Char} →
    {d : Draft} → Delimited rest →
    readValue true limit depth (v.chars ++ rest) = .ok (d, rest') →
    rest' = rest ∧ StandsFor v d ∧ v.depth ≤ depth
  | .null, _, _, _, _, _, _, h => by
    rw [chars, List.cons_append, readValue_leaf (by decide) (by decide) (by decide)] at h
    obtain ⟨hrest, hd⟩ := readWord_append h
    exact ⟨hrest, hd, Nat.zero_le _⟩
  | .bool true, _, _, _, _, _, _, h => by
    rw [chars, List.cons_append, readValue_leaf (by decide) (by decide) (by decide)] at h
    obtain ⟨hrest, hd⟩ := readWord_append h
    exact ⟨hrest, hd, Nat.zero_le _⟩
  | .bool false, _, _, _, _, _, _, h => by
    rw [chars, List.cons_append, readValue_leaf (by decide) (by decide) (by decide)] at h
    obtain ⟨hrest, hd⟩ := readWord_append h
    exact ⟨hrest, hd, Nat.zero_le _⟩
  | .number n, _, _, _, _, _, hr, h => by
    obtain ⟨c, tail, hc, ho, hlist, hobject⟩ := n.text_head
    rw [chars, hc, List.cons_append, readValue_leaf ho.not_space hlist hobject,
      ← List.cons_append, ← hc] at h
    obtain ⟨hrest, hd⟩ := readLeaf_number hr h
    exact ⟨hrest, hd, Nat.zero_le _⟩
  | .string s, _, _, _, _, _, _, h => by
    rw [chars, quotedChars_append, readValue_leaf (by decide) (by decide) (by decide),
      ← quotedChars_append] at h
    obtain ⟨hrest, hd⟩ := readLeaf_string h
    exact ⟨hrest, hd, Nat.zero_le _⟩
  | .array [], _, depth, _, _, _, _, h => by
    cases depth with
    | zero => cases h
    | succ depth =>
      cases h
      exact ⟨rfl, ⟨[], rfl, rfl⟩, Nat.succ_le_succ (Nat.zero_le _)⟩
  | .array (v :: items), _, _, rest, _, _, _, h => by
    obtain ⟨c, tail, hc, ho⟩ := itemChars_head v items
    have htext : (Json.array (v :: items)).chars ++ rest
        = '[' :: (itemChars (v :: items) ++ ']' :: rest) := by
      rw [chars, List.cons_append, List.cons_append, List.append_assoc, List.singleton_append]
    rw [htext, hc, List.cons_append] at h
    obtain ⟨depth', rfl, hitems⟩ := readValue_array ho h
    rw [← List.cons_append, ← hc] at hitems
    obtain ⟨hrest, ds, rfl, hds, hdepth⟩ := readItems_chars (v :: items) (by simp) hitems
    exact ⟨hrest, ⟨ds, rfl, hds⟩, Nat.succ_le_succ hdepth⟩
  | .object [], _, depth, _, _, _, _, h => by
    cases depth with
    | zero => cases h
    | succ depth =>
      cases h
      exact ⟨rfl, ⟨[], rfl, rfl⟩, Nat.succ_le_succ (Nat.zero_le _)⟩
  | .object (m :: members), _, _, rest, _, _, _, h => by
    obtain ⟨tail, hc⟩ := memberChars_head m members
    have htext : (Json.object (m :: members)).chars ++ rest
        = '\x7b' :: (memberChars (m :: members) ++ '\x7d' :: rest) := by
      rw [chars, List.cons_append, List.cons_append, List.append_assoc, List.singleton_append]
    rw [htext, hc, List.cons_append] at h
    obtain ⟨depth', rfl, hmembers⟩ := readValue_object (.inl (by decide)) h
    rw [← List.cons_append, ← hc] at hmembers
    obtain ⟨hrest, ds, rfl, hds, hdepth⟩ := readMembers_chars (m :: members) (by simp) hmembers
    exact ⟨hrest, ⟨ds, rfl, hds⟩, Nat.succ_le_succ hdepth⟩

theorem readItems_chars : (items : List Json) → items ≠ [] → {limit limit' depth : Nat} →
    {passed : List Draft} → {rest rest' : List Char} → {d : Draft} →
    readItems (readValue true limit depth) limit' passed (itemChars items ++ ']' :: rest)
      = .ok (d, rest') →
    rest' = rest ∧ ∃ ds, d = .array (passed.reverse ++ ds) ∧ ItemsStandFor items ds ∧
      itemsDepth items ≤ depth
  | [], hne, _, _, _, _, _, _, _, _ => absurd rfl hne
  | _ :: _, _, _, 0, _, _, _, _, _, h => by cases h
  | [v], _, _, _ + 1, _, _, rest, _, _, h => by
    obtain ⟨w, after, hw⟩ := readItems_first h
    rw [itemChars] at h hw
    obtain ⟨rfl, hv, hdepth⟩ := readValue_chars v (delimited_cons (by simp) _) hw
    rw [readItems_last hw] at h
    cases h
    exact ⟨rfl, [w], by rw [List.reverse_cons], ⟨w, [], rfl, hv, rfl⟩,
      max_le hdepth (Nat.zero_le _)⟩
  | v :: next :: items, _, _, _ + 1, _, passed, rest, _, _, h => by
    obtain ⟨c, tail, hc, ho⟩ := itemChars_head next items
    rw [itemChars_cons, List.append_assoc, List.cons_append] at h
    obtain ⟨w, after, hw⟩ := readItems_first h
    obtain ⟨rfl, hv, hdepth⟩ := readValue_chars v (delimited_cons (by simp) _) hw
    rw [hc, List.cons_append] at h hw
    rw [readItems_next hw ho, ← List.cons_append, ← hc] at h
    obtain ⟨hrest, ds, hd, hds, hdepths⟩ := readItems_chars (next :: items) (by simp) h
    refine ⟨hrest, w :: ds, hd.trans ?_, ⟨w, ds, rfl, hv, hds⟩, max_le hdepth hdepths⟩
    rw [List.reverse_cons, List.append_assoc, List.singleton_append]

theorem readMembers_chars : (members : List (String × Json)) → members ≠ [] →
    {limit limit' depth : Nat} → {passed : List (String × Draft)} → {rest rest' : List Char} →
    {d : Draft} →
    readMembers true limit (readValue true limit depth) limit' (some passed)
      (memberChars members ++ '\x7d' :: rest) = .ok (d, rest') →
    rest' = rest ∧ ∃ ds, d = .object (passed.reverse ++ ds) ∧ MembersStandFor members ds ∧
      membersDepth members ≤ depth
  | [], hne, _, _, _, _, _, _, _, _ => absurd rfl hne
  | _ :: _, _, _, 0, _, _, _, _, _, h => by cases h
  | [(k, v)], _, _, _ + 1, _, _, rest, _, _, h => by
    rw [memberChars, List.append_assoc, List.cons_append] at h
    obtain ⟨name, after, w, after', hname, hw⟩ := readMembers_first h
    obtain ⟨rfl, rfl⟩ := readName_quoted hname
    obtain ⟨rfl, hv, hdepth⟩ := readValue_chars v (delimited_cons (by simp) _) hw
    rw [readMembers_last hname hw] at h
    cases h
    exact ⟨rfl, [(k, w)], by rw [List.reverse_cons], ⟨w, [], rfl, hv, rfl⟩,
      max_le hdepth (Nat.zero_le _)⟩
  | (k, v) :: next :: members, _, _, _ + 1, _, passed, rest, _, _, h => by
    obtain ⟨tail, hc⟩ := memberChars_head next members
    have ho : Opens '"' := .inl (by decide)
    rw [memberChars_cons, List.append_assoc, List.append_assoc, List.cons_append,
      List.cons_append] at h
    obtain ⟨name, after, w, after', hname, hw⟩ := readMembers_first h
    obtain ⟨rfl, rfl⟩ := readName_quoted hname
    obtain ⟨rfl, hv, hdepth⟩ := readValue_chars v (delimited_cons (by simp) _) hw
    rw [hc, List.cons_append] at h hname hw
    rw [readMembers_next hname hw ho, ← List.cons_append, ← hc] at h
    obtain ⟨hrest, ds, hd, hds, hdepths⟩ := readMembers_chars (next :: members) (by simp) h
    refine ⟨hrest, (k, w) :: ds, hd.trans ?_, ⟨w, ds, rfl, hv, hds⟩, max_le hdepth hdepths⟩
    rw [List.reverse_cons, List.append_assoc, List.singleton_append]

end

/-! ## Whole texts -/

theorem readText_chars {v : Json} {d : Draft} (h : readText true v.chars = .ok d) :
    StandsFor v d ∧ v.depth ≤ depthLimit := by
  unfold readText at h
  obtain ⟨⟨found, rest⟩, hread, h⟩ := bind_eq_ok.mp h
  rw [← List.append_nil v.chars] at hread
  obtain ⟨rfl, hv⟩ := readValue_chars v (by rintro c ⟨⟩) hread
  cases h
  exact hv

end Json

/-- A compact text that is read at all is not too deep, and gives back its value, up to numbers. -/
theorem Draft.read_of_ofText {v : Json} {d : Draft} (h : ofText v.compact = .ok d) :
    v.StandsFor d ∧ v.depth ≤ Json.depthLimit := by
  unfold ofText at h
  rw [Json.compact, String.toList_ofList] at h
  cases hread : Json.readText true v.chars with
  | error stop =>
    rw [hread] at h
    cases h
  | ok found =>
    rw [hread] at h
    cases h
    exact Json.readText_chars hread

theorem Draft.standsFor_of_ofText {v : Json} {d : Draft} (h : ofText v.compact = .ok d) :
    v.StandsFor d := (read_of_ofText h).1

/-! ## Fields -/

namespace Draft

theorem memberSlot?_of_mem {members : List (String × Draft)} {k : String} {v : Draft}
    (hn : (members.map Prod.fst).Nodup) (h : (k, v) ∈ members) :
    memberSlot? [k] members = some (.filled v) := by
  have honly : members.filter (fun m => [k].contains m.1) = [(k, v)] := by
    induction members with
    | nil => cases h
    | cons first rest ih =>
      rw [List.map_cons, List.nodup_cons] at hn
      have hmem : ∀ m ∈ rest, m.1 ≠ first.1 := fun m hm he =>
        hn.1 (he ▸ List.mem_map_of_mem hm)
      rcases List.mem_cons.mp h with rfl | h
      · rw [List.filter_cons_of_pos (by simp)]
        refine congrArg _ (List.filter_eq_nil_iff.mpr fun m hm => ?_)
        simpa using hmem m hm
      · rw [List.filter_cons_of_neg (by simpa using (hmem _ h).symm), ih hn.2 h]
  unfold memberSlot?
  rw [honly]

/-- An object with the fields of a structured value and no others fills every slot. -/
theorem slots?_object (members : List (String × Draft)) (hn : (members.map Prod.fst).Nodup) :
    slots? (members.map fun m => [m.1]) (.object members)
      = some (members.map fun m => .filled m.2) := by
  -- every slot is looked for among all members, so the induction is on some of them
  have hall : ∀ some_ : List (String × Draft), some_ ⊆ members →
      (some_.map fun m => [m.1]).mapM (fun names => memberSlot? names members)
        = some (some_.map fun m => .filled m.2) := by
    intro some_ hsub
    induction some_ with
    | nil => rfl
    | cons m rest ih =>
      obtain ⟨hm, hrest⟩ := List.cons_subset.mp hsub
      rw [List.map_cons, List.mapM_cons, memberSlot?_of_mem hn hm, ih hrest]
      rfl
  exact hall members fun _ h => h

end Draft

end Bulletin
