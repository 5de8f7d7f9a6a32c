import Bulletin.Json.Value
import Bulletin.Proofs.NumberText

/-!
# Values that were read

Not every value can have been read from a draft. In a value that was, no object names a member
twice, and no object starts with the name under which a text is embedded: such an object stood for
the value of that text. A value without either is *plain*, and a plain value, taken as a draft, has
itself as its value. So what was read once is read as the same ever after.

* `Draft.plain_of_value` — what a draft gives is plain
* `Json.Plain.value` — a plain value as a draft
-/

namespace Bulletin

/-! ## Entering entries -/

section

variable {α : Type} {key : String} {value : α} {entries : List (String × α)}

theorem putEntry_of_not_mem (h : key ∉ entries.map Prod.fst) :
    putEntry key value entries = entries ++ [(key, value)] := by
  induction entries with
  | nil => rfl
  | cons entry rest ih =>
    rw [List.map_cons, List.mem_cons, not_or] at h
    rw [putEntry, if_neg (Ne.symm h.1), ih h.2, List.cons_append]

theorem mem_of_mem_putEntry {entry : String × α} (h : entry ∈ putEntry key value entries) :
    entry = (key, value) ∨ entry ∈ entries := by
  induction entries with
  | nil => exact .inl (List.mem_singleton.mp h)
  | cons first rest ih =>
    rw [putEntry] at h
    split at h
    · rcases List.mem_cons.mp h with h | h
      · exact .inl h
      · exact .inr (List.mem_cons_of_mem _ h)
    · rcases List.mem_cons.mp h with h | h
      · exact .inr (h ▸ List.mem_cons_self)
      · exact (ih h).imp_right (List.mem_cons_of_mem _)

namespace Fields

/-- Entries without a repeated name are entered as they stand. -/
theorem entries_ofList (h : (entries.map Prod.fst).Nodup) : (ofList entries).entries = entries := by
  have hfold : ∀ (rest : List (String × α)) (fields : Fields α),
      ((fields.entries ++ rest).map Prod.fst).Nodup →
      (rest.foldl (fun fields entry => fields.insert entry.1 entry.2) fields).entries
        = fields.entries ++ rest := by
    intro rest
    induction rest with
    | nil =>
      intro fields _
      rw [List.foldl_nil, List.append_nil]
    | cons entry rest ih =>
      intro fields hn
      have hnew : entry.1 ∉ fields.entries.map Prod.fst := by
        rw [List.map_append, List.nodup_append] at hn
        exact fun hmem => hn.2.2 _ hmem _ List.mem_cons_self rfl
      have hinsert : (fields.insert entry.1 entry.2).entries = fields.entries ++ [entry] :=
        putEntry_of_not_mem hnew
      rw [List.foldl_cons, ih _ (by rwa [hinsert, List.append_assoc]), hinsert,
        List.append_assoc, List.singleton_append]
  exact hfold entries empty h

theorem ofList_entries (fields : Fields α) : ofList fields.entries = fields := by
  have h := entries_ofList fields.distinct
  cases fields
  cases hf : ofList _
  rw [hf] at h
  cases h
  rfl

theorem mem_of_mem_ofList {entry : String × α} (h : entry ∈ (ofList entries).entries) :
    entry ∈ entries := by
  have hfold : ∀ (rest : List (String × α)) (fields : Fields α),
      entry ∈ (rest.foldl (fun fields entry => fields.insert entry.1 entry.2) fields).entries →
      entry ∈ fields.entries ∨ entry ∈ rest := by
    intro rest
    induction rest with
    | nil => exact fun fields h => .inl h
    | cons first rest ih =>
      intro fields h
      rcases ih _ h with h | h
      · rcases mem_of_mem_putEntry h with rfl | h
        · exact .inr List.mem_cons_self
        · exact .inl h
      · exact .inr (List.mem_cons_of_mem _ h)
  exact (hfold entries empty h).resolve_left List.not_mem_nil

/-- The first name stays the first one. -/
theorem head?_keys_ofList (entry : String × α) (entries : List (String × α)) :
    (ofList (entry :: entries)).keys.head? = some entry.1 := by
  have hfold : ∀ (rest : List (String × α)) (fields : Fields α) (name : String),
      fields.keys.head? = some name →
      (rest.foldl (fun fields entry => fields.insert entry.1 entry.2) fields).keys.head?
        = some name := by
    intro rest
    induction rest with
    | nil => exact fun _ _ h => h
    | cons first rest ih =>
      intro fields name h
      refine ih _ name ?_
      rw [keys_insert]
      split
      · exact h
      · rw [List.head?_append, h]
        rfl
  exact hfold entries _ _ rfl

end Fields

end

/-! ## Plain values -/

namespace Json

mutual

/-- At no depth an object names a member twice or starts with the name of an embedded text. -/
def Plain : Json → Prop
  | .null | .bool _ | .number _ | .string _ => True
  | .array items => PlainItems items
  | .object members => (members.map Prod.fst).Nodup ∧
      (members.map Prod.fst).head? ≠ some embeddingName ∧ PlainMembers members

def PlainItems : List Json → Prop
  | [] => True
  | v :: rest => v.Plain ∧ PlainItems rest

def PlainMembers : List (String × Json) → Prop
  | [] => True
  | (_, v) :: rest => v.Plain ∧ PlainMembers rest

end

theorem plainMembers_iff {members : List (String × Json)} :
    PlainMembers members ↔ ∀ m ∈ members, m.2.Plain := by
  induction members with
  | nil => exact ⟨fun _ _ h => (List.not_mem_nil h).elim, fun _ => trivial⟩
  | cons m rest ih => rw [PlainMembers, ih, List.forall_mem_cons]

end Json

namespace Draft

open Json

/-! ## What is read -/

section

variable {embedded : String → Except Flaw Json}

mutual

theorem plain_of_valueWith (he : ∀ s v, embedded s = .ok v → v.Plain) :
    (d : Draft) → {v : Json} → valueWith embedded d = .ok v → v.Plain
  | .null, _, h | .bool _, _, h | .number _, _, h | .string _, _, h => by
    rw [valueWith] at h
    cases h
    trivial
  | .array items, _, h => by
    rw [valueWith] at h
    cases hitems : itemsWith embedded items with
    | error flaw =>
      rw [hitems] at h
      cases h
    | ok vs =>
      rw [hitems] at h
      cases h
      exact plain_of_itemsWith he items hitems
  | .object [], _, h => by
    rw [valueWith] at h
    cases h
    exact ⟨List.nodup_nil, nofun, trivial⟩
  | .object ((k, d) :: rest), _, h => by
    unfold valueWith at h
    split at h
    · split at h
      · exact he _ _ h
      · cases h
      · cases h
    · next hk =>
      obtain ⟨v, hv, h⟩ := bind_eq_ok.mp h
      obtain ⟨members, hmembers, h⟩ := bind_eq_ok.mp h
      cases h
      refine ⟨(Fields.ofList _).distinct, ?_, plainMembers_iff.mpr fun m hm => ?_⟩
      · rw [show (Fields.ofList ((k, v) :: members)).entries.map Prod.fst
          = (Fields.ofList ((k, v) :: members)).keys from rfl, Fields.head?_keys_ofList]
        exact fun heq => hk (Option.some.inj heq)
      · rcases List.mem_cons.mp (Fields.mem_of_mem_ofList hm) with rfl | hm
        · exact plain_of_valueWith he d hv
        · exact plainMembers_iff.mp (plain_of_membersWith he rest hmembers) m hm
  | .unusable, _, h => by
    rw [valueWith] at h
    cases h

theorem plain_of_itemsWith (he : ∀ s v, embedded s = .ok v → v.Plain) :
    (ds : List Draft) → {vs : List Json} → itemsWith embedded ds = .ok vs → PlainItems vs
  | [], _, h => by
    rw [itemsWith] at h
    cases h
    trivial
  | d :: rest, _, h => by
    rw [itemsWith] at h
    obtain ⟨v, hv, h⟩ := bind_eq_ok.mp h
    obtain ⟨vs, hvs, h⟩ := bind_eq_ok.mp h
    cases h
    exact ⟨plain_of_valueWith he d hv, plain_of_itemsWith he rest hvs⟩

theorem plain_of_membersWith (he : ∀ s v, embedded s = .ok v → v.Plain) :
    (ds : List (String × Draft)) → {vs : List (String × Json)} →
    membersWith embedded ds = .ok vs → PlainMembers vs
  | [], _, h => by
    rw [membersWith] at h
    cases h
    trivial
  | (k, d) :: rest, _, h => by
    rw [membersWith] at h
    obtain ⟨v, hv, h⟩ := bind_eq_ok.mp h
    obtain ⟨vs, hvs, h⟩ := bind_eq_ok.mp h
    cases h
    exact ⟨plain_of_valueWith he d hv, plain_of_membersWith he rest hvs⟩

end

end

theorem plain_of_embeddedValue {fuel : Nat} {s : String} {v : Json}
    (h : embeddedValue fuel s = .ok v) : v.Plain := by
  induction fuel generalizing s v with
  | zero => cases h
  | succ fuel ih =>
    rw [embeddedValue] at h
    obtain ⟨d, -, h⟩ := bind_eq_ok.mp h
    exact plain_of_valueWith (fun _ _ => ih) d h

/-- What a draft gives is plain. -/
theorem plain_of_value {d : Draft} {v : Json} (h : d.value = .ok v) : v.Plain :=
  plain_of_valueWith (fun _ _ => plain_of_embeddedValue) d h

end Draft

/-! ## What is read again -/

namespace Json

open Draft

variable {embedded : String → Except Flaw Json}

mutual

theorem Plain.valueWith_ofJson : (v : Json) → v.Plain → valueWith embedded (ofJson v) = .ok v
  | .null, _ | .bool _, _ | .number _, _ | .string _, _ => by rw [ofJson, valueWith]
  | .array items, h => by
    rw [ofJson, valueWith, PlainItems.itemsWith_ofItems items h]
    rfl
  | .object [], _ => by rw [ofJson, ofMembers, valueWith]
  | .object ((k, v) :: rest), h => by
    obtain ⟨hdistinct, hhead, hv, hrest⟩ := h
    have hk : k ≠ embeddingName := fun heq => hhead (congrArg some heq)
    rw [ofJson, ofMembers]
    unfold valueWith
    rw [if_neg hk, Plain.valueWith_ofJson v hv, ok_bind,
      PlainMembers.membersWith_ofMembers rest hrest, ok_bind, Fields.entries_ofList hdistinct]
    rfl

theorem PlainItems.itemsWith_ofItems : (items : List Json) → PlainItems items →
    itemsWith embedded (ofItems items) = .ok items
  | [], _ => by rw [ofItems, itemsWith]
  | v :: rest, h => by
    rw [ofItems, itemsWith, Plain.valueWith_ofJson v h.1, ok_bind,
      PlainItems.itemsWith_ofItems rest h.2]
    rfl

theorem PlainMembers.membersWith_ofMembers : (members : List (String × Json)) →
    PlainMembers members → membersWith embedded (ofMembers members) = .ok members
  | [], _ => by rw [ofMembers, membersWith]
  | (k, v) :: rest, h => by
    rw [ofMembers, membersWith, Plain.valueWith_ofJson v h.1, ok_bind,
      PlainMembers.membersWith_ofMembers rest h.2]
    rfl

end

/-- A plain value is the value of itself as a draft. -/
theorem Plain.value {v : Json} (h : v.Plain) : (ofJson v).value = .ok v :=
  Plain.valueWith_ofJson v h

end Json

end Bulletin
