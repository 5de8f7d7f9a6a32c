import Bulletin.Chart.Spec
import Bulletin.Proofs.PlainValues
import Bulletin.Proofs.ReadBack
import Bulletin.Proofs.Rounding
import Mathlib.Data.List.Nodup

/-!
# Written forms

A reader may take many forms of one thing: names in either case, fields left out, an array in place
of an object. The writer has one form for it. A reader and a writer *settle* if the written form of
whatever was read reads as the same thing. Nothing is asked of things that were never read, such as
a number that is not finite.

Settling goes through lists and objects with arbitrary names, and through each kind of slot of a
structured value, so that a type settles if the types of its fields do.

* `Draft.Settles` — the law
* `Draft.slots?_written` — the slots of a written object
* `Draft.tagged?_written` — the tag of a written object
* `Draft.Settles.list`, `Draft.Settles.fields` — lists and objects with arbitrary names
-/

namespace Bulletin.Draft

variable {α : Type} {read : Draft → Option α} {write : α → Json}

/-- The written form of what was read reads as the same. -/
def Settles (read : Draft → Option α) (write : α → Json) : Prop :=
  ∀ ⦃d : Draft⦄ ⦃a : α⦄, read d = some a → read (ofJson (write a)) = some a

/-! ## Drafts of written parts -/

theorem ofItems_eq_map (items : List Json) : ofItems items = items.map ofJson := by
  induction items with
  | nil => rfl
  | cons v rest ih => rw [ofItems, ih, List.map_cons]

theorem ofMembers_eq_map (members : List (String × Json)) :
    ofMembers members = members.map fun m => (m.1, ofJson m.2) := by
  induction members with
  | nil => rfl
  | cons m rest ih => rw [ofMembers, ih, List.map_cons]

theorem ofJson_eq_null {v : Json} (h : ofJson v = .null) : v = .null := by
  cases v <;> first | rfl | cases h

/-- Reading some things one after the other, each of which can be read. -/
theorem mapM_eq_some_map {β γ : Type} {f : β → Option γ} {g : β → γ} {as : List β}
    (h : ∀ a ∈ as, f a = some (g a)) : as.mapM f = some (as.map g) := by
  induction as with
  | nil => rfl
  | cons a as ih =>
    rw [List.forall_mem_cons] at h
    rw [List.mapM_cons, h.1, ih h.2]
    rfl

/-- Whatever is read of some things was read of one of them. -/
theorem mem_of_mapM_eq_some {β γ : Type} {f : β → Option γ} {as : List β} {bs : List γ}
    (h : as.mapM f = some bs) : ∀ b ∈ bs, ∃ a ∈ as, f a = some b := by
  induction as generalizing bs with
  | nil =>
    cases h
    exact fun b hb => (List.not_mem_nil hb).elim
  | cons a as ih =>
    rw [List.mapM_cons] at h
    obtain ⟨first, hfirst, h⟩ := Option.bind_eq_some_iff.mp h
    obtain ⟨rest, hrest, h⟩ := Option.bind_eq_some_iff.mp h
    cases h
    intro b hb
    rcases List.mem_cons.mp hb with rfl | hb
    · exact ⟨a, List.mem_cons_self, hfirst⟩
    · obtain ⟨a', ha', hread⟩ := ih hrest b hb
      exact ⟨a', List.mem_cons_of_mem _ ha', hread⟩

/-! ## Written objects -/

/-- The members that are written of some fields, of which some have no value. -/
def present (fields : List (String × Option Json)) : List (String × Json) :=
  fields.filterMap fun f => f.2.map (f.1, ·)

theorem mem_present {fields : List (String × Option Json)} {name : String} {v : Json} :
    (name, v) ∈ present fields ↔ (name, some v) ∈ fields := by
  rw [present, List.mem_filterMap]
  constructor
  · rintro ⟨⟨_, _ | _⟩, hmem, h⟩
    · cases h
    · cases h
      exact hmem
  · exact fun h => ⟨_, h, rfl⟩

theorem nodup_present {fields : List (String × Option Json)} (h : (fields.map Prod.fst).Nodup) :
    ((present fields).map Prod.fst).Nodup := by
  refine h.sublist ?_
  induction fields with
  | nil => exact List.Sublist.refl _
  | cons f rest ih =>
    obtain ⟨name, _ | v⟩ := f
    · exact (ih (List.nodup_cons.mp h).2).cons name
    · exact (ih (List.nodup_cons.mp h).2).cons_cons name

theorem memberSlot?_of_not_mem {members : List (String × Draft)} {name : String}
    (h : ∀ v, (name, v) ∉ members) : memberSlot? [name] members = some .absent := by
  have hnone : members.filter (fun m => [name].contains m.1) = [] := by
    refine List.filter_eq_nil_iff.mpr fun m hm => ?_
    simp only [List.contains_cons, List.contains_nil, Bool.or_false, beq_iff_eq]
    rintro rfl
    exact h m.2 hm
  unfold memberSlot?
  rw [hnone]

/-- The slot of a field that may have been left out. -/
def Slot.ofMember : Option Json → Slot
  | none => .absent
  | some v => .filled (ofJson v)

/-- A written object gives every field what was written for it. -/
theorem slots?_written {v : Json} {fields : List (String × Option Json)}
    (hv : v = .object (present fields))
    (hn : decide (fields.map Prod.fst).Nodup = true) :
    slots? (fields.map fun f => [f.1]) (ofJson v)
      = some (fields.map fun f => Slot.ofMember f.2) := by
  have hdistinct := of_decide_eq_true hn
  have hslot : ∀ f ∈ fields,
      memberSlot? [f.1] (ofMembers (present fields)) = some (Slot.ofMember f.2) := by
    rintro ⟨name, _ | v⟩ hf
    · refine memberSlot?_of_not_mem fun d hd => ?_
      rw [ofMembers_eq_map, List.mem_map] at hd
      obtain ⟨⟨_, v⟩, hmem, ⟨⟩⟩ := hd
      cases List.inj_on_of_nodup_map hdistinct hf (mem_present.mp hmem) rfl
    · refine memberSlot?_of_mem ?_ ?_
      · rw [ofMembers_eq_map, List.map_map]
        exact nodup_present hdistinct
      · rw [ofMembers_eq_map]
        exact List.mem_map_of_mem (mem_present.mpr hf)
  rw [hv, ofJson, slots?, List.mapM_map]
  exact mapM_eq_some_map hslot

/-! ## Slots -/

namespace Slot

variable {slot : Slot} {a fallback other : α} {o : Option α}

theorem required_of_read {v : Json} (h : read (ofJson v) = some a) :
    (ofMember (some v)).required read = some a := h

theorem required_written (hs : Settles read write) (h : slot.required read = some a) :
    (ofMember (some (write a))).required read = some a := by
  cases slot with
  | filled v => exact hs h
  | absent => cases h
  | ended => cases h

/-- A default is written like any other value, so the default of a later reader does not matter. -/
theorem orElse_written (hs : Settles read write)
    (hf : read (ofJson (write fallback)) = some fallback)
    (h : slot.orElse fallback read = some a) :
    (ofMember (some (write a))).orElse other read = some a := by
  cases slot with
  | filled v => exact hs h
  | absent =>
    cases h
    exact hf
  | ended =>
    cases h
    exact hf

theorem exists_of_nullable {v : Draft} (h : nullable read v = some (some a)) :
    ∃ d, read d = some a := by
  unfold nullable at h
  split at h
  · cases h
  · obtain ⟨a', ha, h⟩ := Option.map_eq_some_iff.mp h
    cases h
    exact ⟨_, ha⟩

theorem exists_of_orNone (h : slot.orNone read = some (some a)) : ∃ d, read d = some a := by
  cases slot with
  | filled v => exact exists_of_nullable h
  | absent => cases h
  | ended => cases h

theorem exists_of_optional (h : slot.optional read = some (some a)) : ∃ d, read d = some a := by
  cases slot with
  | filled v => exact exists_of_nullable h
  | absent => cases h
  | ended => cases h

/-- A value that is not written as `null` is not read as no value. -/
theorem nullable_written (hs : Settles read write) (hn : ∀ a, write a ≠ .null)
    (h : ∃ d, read d = some a) : nullable read (ofJson (write a)) = some (some a) := by
  obtain ⟨d, hd⟩ := h
  unfold nullable
  split
  · next heq => exact absurd (ofJson_eq_null heq) (hn a)
  · rw [hs hd]
    rfl

theorem orNone_written (hs : Settles read write) (hn : ∀ a, write a ≠ .null)
    (h : slot.orNone read = some o) :
    (ofMember (some (Json.ofOption write o))).orNone read = some o := by
  cases o with
  | none => rfl
  | some a => exact nullable_written hs hn (exists_of_orNone h)

theorem optional_written (hs : Settles read write) (hn : ∀ a, write a ≠ .null)
    (h : slot.optional read = some o) :
    (ofMember (some (Json.ofOption write o))).optional read = some o := by
  cases o with
  | none => rfl
  | some a => exact nullable_written hs hn (exists_of_optional h)

/-- A field that is left out if it has no value. -/
theorem orNone_present (hs : Settles read write) (hn : ∀ a, write a ≠ .null)
    (h : slot.orNone read = some o) :
    (ofMember (o.map write)).orNone read = some o := by
  cases o with
  | none => rfl
  | some a => exact nullable_written hs hn (exists_of_orNone h)

end Slot

/-! ## Leaves -/

theorem settles_string : Settles readString? .string := fun _ _ _ => rfl

theorem settles_bool : Settles readBool? .bool := fun _ _ _ => rfl

theorem readNat?_nat {bound n : Nat} (hb : bound ≤ 2 ^ 64) (hn : n < bound) :
    readNat? bound (ofJson (.nat n)) = some n := by
  have hfits : Json.FitsWord (n : Int) := ⟨by omega, by omega⟩
  rw [Json.nat, Json.int, dif_pos hfits, ofJson, readNat?, Json.Number.unsigned?, if_pos (by omega)]
  simp only [Int.toNat_natCast, Option.bind_some]
  exact if_pos hn

/-- How a word is written. -/
def word32Json (n : UInt32) : Json := .nat n.toNat

def word64Json (n : UInt64) : Json := .nat n.toNat

theorem readWord32?_written (n : UInt32) : readWord32? (ofJson (word32Json n)) = some n := by
  rw [word32Json, readWord32?, readNat?_nat (by decide) n.toNat_lt_size, Option.map_some,
    UInt32.ofNat_toNat]

theorem readWord64?_written (n : UInt64) : readWord64? (ofJson (word64Json n)) = some n := by
  rw [word64Json, readWord64?, readNat?_nat (by decide) n.toNat_lt_size, Option.map_some,
    UInt64.ofNat_toNat]

theorem word64Json_ne_null (n : UInt64) : word64Json n ≠ .null := by
  intro h
  have hread := readWord64?_written n
  rw [h] at hread
  cases hread

theorem settles_word32 : Settles readWord32? word32Json := fun _ n _ => readWord32?_written n

theorem settles_word64 : Settles readWord64? word64Json := fun _ n _ => readWord64?_written n

/-- What is read as a double is finite, though it may have been written as a whole number. -/
theorem settles_real : Settles readReal? .real := by
  intro d x h
  cases d with
  | number n =>
    obtain ⟨y, rfl⟩ : ∃ y, x = .finite y := by
      cases h
      cases n with
      | int n fits => exact Binary64.exists_finite_ofInt fits
      | real y => exact ⟨y, rfl⟩
    rfl
  | _ => cases h

/-- A value of any kind settles as it was read, since it is plain. -/
theorem settles_any : Settles readAny? id := by
  intro d v h
  have hv : d.value = .ok v := by
    rw [readAny?] at h
    cases hd : d.value with
    | error flaw =>
      rw [hd] at h
      cases h
    | ok v' =>
      rw [hd] at h
      cases h
      rfl
  rw [id, readAny?, (plain_of_value hv).value]
  rfl

/-- No payload is written as `null`, so a payload of `null` is read as none. -/
theorem nullable_payload {o : Option Json} (h : ∀ v ∈ o, ∃ d, readAny? d = some v) :
    Slot.nullable readAny? (ofJson (Json.ofOption id o)) = some (o.filter (· ≠ .null)) := by
  match o with
  | none => rfl
  | some v =>
    by_cases hv : v = .null
    · subst hv
      rfl
    · obtain ⟨d, hd⟩ := h v rfl
      have hread : readAny? (ofJson v) = some v := settles_any hd
      rw [Option.filter_some, if_pos (by simpa using hv)]
      unfold Slot.nullable
      split
      · next heq => exact absurd (ofJson_eq_null heq) hv
      · rw [Json.ofOption, id, hread]
        rfl

theorem Slot.orNone_payload {slot : Slot} {o : Option Json} (h : slot.orNone readAny? = some o) :
    (ofMember (some (Json.ofOption id o))).orNone readAny? = some (o.filter (· ≠ .null)) :=
  nullable_payload fun _ hv => exists_of_orNone (h.trans (congrArg some hv))

theorem Slot.optional_payload {slot : Slot} {o : Option Json}
    (h : slot.optional readAny? = some o) :
    (ofMember (some (Json.ofOption id o))).optional readAny? = some (o.filter (· ≠ .null)) :=
  nullable_payload fun _ hv => exists_of_optional (h.trans (congrArg some hv))

/-! ## Variants and tags -/

section

variable {ofName? : String → Option α} {name : α → String}

theorem settles_variant (h : ∀ a, ofName? (name a) = some a) :
    Settles (fun v => v.variant?.bind ofName?) fun a => .string (name a) :=
  fun _ a _ => h a

theorem settles_innerVariant (h : ∀ a, ofName? (name a) = some a) :
    Settles (fun v => v.innerVariant?.bind ofName?) fun a => .string (name a) :=
  fun _ a _ => h a

/-- A type of which every text names something, other texts by themselves. -/
theorem settles_tag {ofTag : String → α} {tag : α → String}
    (h : ∀ text, ofTag (tag (ofTag text)) = ofTag text) :
    Settles (fun v => v.readString?.map ofTag) fun a => .string (tag a) := by
  intro d a hd
  obtain ⟨text, -, rfl⟩ := Option.map_eq_some_iff.mp hd
  exact congrArg some (h text)

end

/-- A written object with a tag gives the tag, and then every field what was written for it. -/
theorem tagged?_written {v : Json} {tag name : String} {fields : List (String × Option Json)}
    (hv : v = .object ((tag, .string name) :: present fields))
    (hn : decide (tag :: fields.map Prod.fst).Nodup = true) :
    ∃ content, tagged? tag (ofJson v) = some (name, content) ∧
      content = ofJson (.object (present fields)) ∧
      slots? (fields.map fun f => [f.1]) content
        = some (fields.map fun f => Slot.ofMember f.2) := by
  obtain ⟨hnew, hdistinct⟩ := List.nodup_cons.mp (of_decide_eq_true hn)
  have hother : ∀ m ∈ ofMembers (present fields), m.1 ≠ tag := by
    rintro m hm rfl
    rw [ofMembers_eq_map, List.mem_map] at hm
    obtain ⟨⟨_, v⟩, hm', rfl⟩ := hm
    exact hnew (List.mem_map_of_mem (mem_present.mp hm'))
  have hslot : memberSlot? [tag] ((tag, .string name) :: ofMembers (present fields))
      = some (.filled (.string name)) := by
    have honly : ((tag, Draft.string name) :: ofMembers (present fields)).filter
        (fun m => [tag].contains m.1) = [(tag, .string name)] := by
      rw [List.filter_cons_of_pos (by simp)]
      refine congrArg _ (List.filter_eq_nil_iff.mpr fun m hm => ?_)
      simpa using hother m hm
    unfold memberSlot?
    rw [honly]
  have hrest : ((tag, Draft.string name) :: ofMembers (present fields)).filter
      (fun m => m.1 != tag) = ofMembers (present fields) := by
    rw [List.filter_cons_of_neg (by simp), List.filter_eq_self.mpr]
    exact fun m hm => by simpa using hother m hm
  have hsound := sound_ofJson v
  rw [hv, ofJson, ofMembers, ofJson] at hsound
  refine ⟨ofJson (.object (present fields)), ?_, rfl,
    slots?_written rfl (decide_eq_true hdistinct)⟩
  simp only [hv, ofJson, ofMembers, tagged?, hslot, hsound, hrest, if_true]

/-! ## Lists and objects with arbitrary names -/

theorem Settles.list (hs : Settles read write) :
    Settles (readList? read) fun as => .array (as.map write) := by
  intro d as h
  cases d with
  | array items =>
    rw [ofJson, ofItems_eq_map, readList?, List.map_map, List.mapM_map]
    have hread : ∀ a ∈ as, read (ofJson (write a)) = some a := by
      intro a ha
      obtain ⟨d, -, hd⟩ := mem_of_mapM_eq_some h a ha
      exact hs hd
    rw [show as.mapM (read ∘ (ofJson ∘ write)) = some (as.map id) from mapM_eq_some_map hread,
      List.map_id]
  | _ => cases h

theorem Settles.fields (hs : Settles read write) :
    Settles (readFields? read) fun fields => Json.ofFields (fields.map write) := by
  intro d fields h
  cases d with
  | object members =>
    rw [readFields?] at h
    obtain ⟨entries, hentries, rfl⟩ := Option.map_eq_some_iff.mp h
    -- what was entered was read, whatever else was entered under its name before
    have hread : ∀ m ∈ (Fields.ofList entries).entries, read (ofJson (write m.2)) = some m.2 := by
      intro m hm
      obtain ⟨d, -, hd⟩ := mem_of_mapM_eq_some hentries m (Fields.mem_of_mem_ofList hm)
      obtain ⟨a, ha, rfl⟩ := Option.map_eq_some_iff.mp hd
      exact hs ha
    show readFields? read (ofJson (Json.ofFields ((Fields.ofList entries).map write))) = _
    rw [Json.ofFields, ofJson, ofMembers_eq_map, readFields?, Fields.map, List.map_map,
      List.mapM_map]
    have hall : (Fields.ofList entries).entries.mapM
        ((fun m => (read m.2).map fun v => (m.1, v)) ∘
          ((fun m => (m.1, ofJson m.2)) ∘ fun entry => (entry.1, write entry.2)))
        = some ((Fields.ofList entries).entries.map id) := by
      refine mapM_eq_some_map fun m hm => ?_
      simp only [Function.comp_apply, hread m hm]
      rfl
    rw [hall, List.map_id, Option.map_some, Fields.ofList_entries]
  | _ => cases h

end Bulletin.Draft
