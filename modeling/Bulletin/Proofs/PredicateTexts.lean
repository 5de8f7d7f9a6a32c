import Bulletin.Proofs.LiteralReading

/-!
# What the text of a predicate says

A filter becomes a predicate of one of four forms. Its text tells which one it is and with which
values: its literals are read back one by one, and the first character of a literal tells the kind
of the value. Numbers are told apart as far as their texts are.

* `predicate_eq_text` — the predicate that a filter becomes
* `literal_inj` — scalars with one literal
* `Predicate.text_inj` — one text, one predicate
-/

namespace Bulletin

/-- Neither an array nor an object. -/
def Json.IsScalar : Json → Prop
  | .array _ | .object _ => False
  | _ => True

instance (v : Json) : Decidable v.IsScalar :=
  match v with
  | .array _ | .object _ => isFalse id
  | .null | .bool _ | .number _ | .string _ => isTrue trivial

namespace Sql

open Json (IsNumeral Number ToldApart itemNumbers)

variable {v w : Json}

/-! ## Predicates -/

/-- What a filter asks of the value of its field. -/
inductive Predicate where
  /-- there is none -/
  | isNull
  /-- it is a given one -/
  | equals (v : Json)
  /-- it is one of a list, which is not empty -/
  | isIn (first : Json) (others : List Json)
  /-- nothing can meet it -/
  | never
deriving DecidableEq

namespace Predicate

/-- The predicate that a filter becomes. -/
def ofFilter : Json → Predicate
  | .null => .isNull
  | .array [] => .never
  | .array (v :: rest) => .isIn v rest
  | v => .equals v

/-- The values that are named in a predicate. -/
def values : Predicate → List Json
  | .isNull | .never => []
  | .equals v => [v]
  | .isIn first others => first :: others

/-- The text of a predicate on a field. -/
def text (field : String) : Predicate → List Char
  | .isNull => field.toList ++ " IS NULL".toList
  | .equals v => field.toList ++ " = ".toList ++ literal v
  | .isIn first others =>
    field.toList ++ " IN (".toList ++ joined ", ".toList ((first :: others).map literal) ++ [')']
  | .never => "1 = 0".toList

end Predicate

/-- The text that is written for a filter is the one of its predicate. -/
theorem predicate_eq_text (field : String) (v : Json) :
    predicate field v = (Predicate.ofFilter v).text field := by
  match v with
  | .null | .bool _ | .number _ | .string _ | .object _ | .array [] | .array (_ :: _) => rfl

/-! ## Literals -/

/-- The kind of the value whose literal starts with a character. -/
def literalRank (c : Char) : Nat :=
  if c = 'N' then 0 else if c = 'T' ∨ c = 'F' then 1 else if c = '\'' then 3 else 2

theorem literalRank_of_isNumeral {c : Char} (h : IsNumeral c) : literalRank c = 2 := by
  have hne : ∀ d : Char, ¬ IsNumeral d → c ≠ d := by
    rintro d hd rfl
    exact hd h
  have hnull : c ≠ 'N' := hne _ (by decide)
  have htrue : c ≠ 'T' := hne _ (by decide)
  have hfalse : c ≠ 'F' := hne _ (by decide)
  have hquote : c ≠ '\'' := hne _ (by decide)
  simp [literalRank, hnull, htrue, hfalse, hquote]

/-- The first character of a literal tells the kind of the value. -/
theorem literal_starts (hv : v.IsScalar) :
    ∃ c text, literal v = c :: text ∧ literalRank c = v.rank := by
  match v, hv with
  | .null, _ | .bool true, _ | .bool false, _ | .string _, _ => exact ⟨_, _, rfl, rfl⟩
  | .number n, _ =>
    obtain ⟨c, text, hc, -⟩ := (Json.number n).chars_starts
    refine ⟨c, text, hc, literalRank_of_isNumeral (Number.isNumeral (n := n) ?_)⟩
    have htext : n.text = c :: text := hc
    rw [htext]
    exact List.mem_cons_self

/-- Two scalars with one literal are equal. -/
theorem literal_inj (hv : v.IsScalar) (hw : w.IsScalar) (ha : ToldApart v.numbers w.numbers)
    (h : literal v = literal w) : v = w := by
  have hrank : v.rank = w.rank := by
    obtain ⟨c, text, hc, hcv⟩ := literal_starts hv
    obtain ⟨d, text', hd, hdw⟩ := literal_starts hw
    rw [hc, hd] at h
    rw [← hcv, ← hdw, List.head_eq_of_cons_eq h]
  cases v <;> cases w <;> try cases hrank
  case null.null => rfl
  case bool.bool b b' =>
    cases b <;> cases b'
    case false.false | true.true => rfl
    case false.true | true.false => exact absurd h (by decide)
  case number.number n m =>
    exact congrArg _ (ha n (by simp [Json.numbers]) m (by simp [Json.numbers]) h)
  case string.string s t =>
    exact congrArg _ (String.toList_inj.mp (Literal.string.inj (literal_eq_iff.mp h)))
  case array.array | object.object => exact hv.elim

/-- Two lists of scalars that are read back as the same are equal. -/
theorem literals_inj {items items' : List Json} (hv : ∀ v ∈ items, v.IsScalar)
    (hw : ∀ w ∈ items', w.IsScalar) (ha : ToldApart (itemNumbers items) (itemNumbers items'))
    (h : items.map Literal.ofJson = items'.map Literal.ofJson) : items = items' := by
  induction items generalizing items' with
  | nil => exact (List.map_eq_nil_iff.mp h.symm).symm
  | cons first others ih =>
    cases items' with
    | nil => cases h
    | cons first' others' =>
      obtain ⟨hfirst, hothers⟩ := List.cons.inj h
      obtain ⟨hvfirst, hvothers⟩ := List.forall_mem_cons.mp hv
      obtain ⟨hwfirst, hwothers⟩ := List.forall_mem_cons.mp hw
      rw [literal_inj hvfirst hwfirst ha.left (literal_eq_iff.mpr hfirst),
        ih hvothers hwothers ha.right hothers]

/-! ## Texts of predicates -/

/-- What is written behind the name of a field is no part of the text `1 = 0`, unless the field is
named like the digit. -/
theorem field_text_ne {field : String} (hfield : field ≠ "1") (text : List Char)
    (hhead : text.head? ≠ some '0') : field.toList ++ ' ' :: text ≠ "1 = 0".toList := by
  intro h
  rcases hname : field.toList with _ | ⟨a, _ | ⟨b, _ | ⟨c, _ | ⟨d, name⟩⟩⟩⟩ <;>
    simp [hname] at h
  · exact hfield (String.toList_inj.mp (by rw [hname, h.1]; rfl))
  · exact hhead (by rw [h.2.2.2]; rfl)
  · have hlength := congrArg List.length h.2.2.2.2
    simp only [List.length_append, List.length_cons, List.length_nil] at hlength
    obtain rfl : name = [] := List.eq_nil_of_length_eq_zero (by omega)
    exact absurd (List.head_eq_of_cons_eq h.2.2.2.2) (by decide)

namespace Predicate

theorem text_ne_never {field : String} (hfield : field ≠ "1") {c : Predicate} (hc : c ≠ .never) :
    c.text field ≠ Predicate.never.text field := by
  cases c with
  | isNull => exact field_text_ne hfield "IS NULL".toList (by decide)
  | equals v => simpa [text] using field_text_ne hfield ('=' :: ' ' :: literal v) (by simp)
  | isIn first others =>
    simpa [text] using field_text_ne hfield ("IN (".toList
      ++ (joined ", ".toList ((first :: others).map literal) ++ [')'])) (by simp)
  | never => exact absurd rfl hc

/-- **One text, one predicate.** The text of a predicate on a field tells which one it is, as far
as the texts of numbers tell them apart. -/
theorem text_inj {field : String} (hfield : field ≠ "1") {c c' : Predicate}
    (hc : ∀ v ∈ c.values, v.IsScalar) (hc' : ∀ v ∈ c'.values, v.IsScalar)
    (ha : ToldApart (itemNumbers c.values) (itemNumbers c'.values))
    (h : c.text field = c'.text field) : c = c' := by
  cases c <;> cases c'
  case isNull.isNull | never.never => rfl
  case equals.equals v w =>
    have hliteral : literal v = literal w :=
      (List.append_right_inj (field.toList ++ " = ".toList)).mp h
    have hnumbers : ToldApart v.numbers w.numbers := ha.left
    rw [literal_inj (hc v (by simp [values])) (hc' w (by simp [values])) hnumbers hliteral]
  case isIn.isIn first others first' others' =>
    have hlists : joined ", ".toList ((first :: others).map literal) ++ [')']
        = joined ", ".toList ((first' :: others').map literal) ++ [')'] :=
      (List.append_right_inj (field.toList ++ " IN (".toList)).mp (by simpa [text] using h)
    cases literals_inj hc hc' ha (map_ofJson_of_joined hlists)
    rfl
  case isNull.never | equals.never | isIn.never =>
    exact absurd h (text_ne_never hfield (by simp))
  case never.isNull | never.equals | never.isIn =>
    exact absurd h.symm (text_ne_never hfield (by simp))
  -- what is written behind the field starts differently
  all_goals simp [text] at h

end Predicate

end Sql

end Bulletin
