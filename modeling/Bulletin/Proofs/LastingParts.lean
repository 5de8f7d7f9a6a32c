import Bulletin.Proofs.CompactText
import Bulletin.Proofs.WrittenForms

/-!
# Parts that last

What was written as a text is read back as a draft that stands for it, and such a draft need not be
what was written, as the text of a number may read as another number. A reader *recovers* what a
writer wrote if a draft that stands for a written thing is read as this thing in one case only: the
draft is what was written, and the thing is one that lasts. Which things last depends on the type. A
name always does; a double does if it is finite, and an instant if its text says all of it.

Recovering goes through lists and objects with arbitrary names, and through each kind of slot of a
structured value. So what lasts of a type is made up of what lasts of the types of its fields.

* `Draft.Recovers`, `Draft.Slot.Recovers` — the law, for a value and for a slot
* `Draft.recovers_any` — values of any kind
* `Draft.exists_slots` — the slots of a draft that stands for a written object
* `Draft.exists_tagged` — its tag
* `Draft.Slot.and_iff_cons` — one slot more
-/

namespace Bulletin

/-! ## Drafts that stand for values -/

namespace Json

mutual

/-- A value stands for itself if its numbers read back. -/
theorem standsFor_ofJson : (v : Json) → (v.StandsFor (.ofJson v) ↔ v.NumbersReadBack)
  | .null | .bool _ | .string _ => iff_of_true rfl trivial
  | .number n => by
    rw [Draft.ofJson, StandsFor, NumbersReadBack]
    exact ⟨fun ⟨_, hm, h⟩ => by cases hm; exact h, fun h => ⟨n, rfl, h⟩⟩
  | .array items => by
    rw [Draft.ofJson, StandsFor, NumbersReadBack, ← itemsStandFor_ofItems items]
    exact ⟨fun ⟨_, hm, h⟩ => by cases hm; exact h, fun h => ⟨_, rfl, h⟩⟩
  | .object members => by
    rw [Draft.ofJson, StandsFor, NumbersReadBack, ← membersStandFor_ofMembers members]
    exact ⟨fun ⟨_, hm, h⟩ => by cases hm; exact h, fun h => ⟨_, rfl, h⟩⟩

theorem itemsStandFor_ofItems :
    (items : List Json) → (ItemsStandFor items (Draft.ofItems items) ↔ ItemNumbersReadBack items)
  | [] => iff_of_true rfl trivial
  | v :: rest => by
    rw [Draft.ofItems, ItemsStandFor, ItemNumbersReadBack, ← standsFor_ofJson v,
      ← itemsStandFor_ofItems rest]
    exact ⟨fun ⟨_, _, hm, h⟩ => by cases hm; exact h, fun h => ⟨_, _, rfl, h⟩⟩

theorem membersStandFor_ofMembers : (members : List (String × Json)) →
    (MembersStandFor members (Draft.ofMembers members) ↔ MemberNumbersReadBack members)
  | [] => iff_of_true rfl trivial
  | (_, v) :: rest => by
    rw [Draft.ofMembers, MembersStandFor, MemberNumbersReadBack, ← standsFor_ofJson v,
      ← membersStandFor_ofMembers rest]
    exact ⟨fun ⟨_, _, hm, h⟩ => by cases hm; exact h, fun h => ⟨_, _, rfl, h⟩⟩

end

mutual

/-- Every part of a draft that stands for a value has a value. -/
theorem StandsFor.sound : (v : Json) → {d : Draft} → v.StandsFor d → d.sound = true
  | .null, _, h | .bool _, _, h | .string _, _, h => by
    rw [StandsFor] at h
    rw [h]
    rfl
  | .number _, _, h => by
    obtain ⟨_, rfl, -⟩ := h
    rfl
  | .array items, _, h => by
    obtain ⟨_, rfl, h⟩ := h
    exact ItemsStandFor.sound items h
  | .object members, _, h => by
    obtain ⟨_, rfl, h⟩ := h
    exact MembersStandFor.sound members h

theorem ItemsStandFor.sound : (items : List Json) → {ds : List Draft} → ItemsStandFor items ds →
    Draft.soundItems ds = true
  | [], _, h => by
    rw [ItemsStandFor] at h
    rw [h]
    rfl
  | v :: rest, _, h => by
    obtain ⟨_, _, rfl, hv, hrest⟩ := h
    rw [Draft.soundItems, StandsFor.sound v hv, ItemsStandFor.sound rest hrest]
    rfl

theorem MembersStandFor.sound : (members : List (String × Json)) → {ds : List (String × Draft)} →
    MembersStandFor members ds → Draft.soundMembers ds = true
  | [], _, h => by
    rw [MembersStandFor] at h
    rw [h]
    rfl
  | (_, v) :: rest, _, h => by
    obtain ⟨_, _, rfl, hv, hrest⟩ := h
    rw [Draft.soundMembers, StandsFor.sound v hv, MembersStandFor.sound rest hrest]
    rfl

end

theorem eq_null_of_standsFor {v : Json} (h : v.StandsFor .null) : v = .null := by
  cases v with
  | null => rfl
  | bool b => cases h
  | string s => cases h
  | number n =>
    obtain ⟨_, h, -⟩ := h
    cases h
  | array items =>
    obtain ⟨_, h, -⟩ := h
    cases h
  | object members =>
    obtain ⟨_, h, -⟩ := h
    cases h

/-- The names of members stay as they are. -/
theorem MembersStandFor.names {members : List (String × Json)} {ds : List (String × Draft)}
    (h : MembersStandFor members ds) : ds.map Prod.fst = members.map Prod.fst := by
  induction members generalizing ds with
  | nil =>
    obtain rfl : ds = [] := h
    rfl
  | cons m rest ih =>
    obtain ⟨_, _, rfl, -, hrest⟩ := h
    rw [List.map_cons, List.map_cons, ih hrest]

end Json

namespace Draft

variable {α : Type} {read : Draft → Option α} {write : α → Json} {lasts : α → Prop}

/-- A draft that stands for what was written of something is read as this thing in one case only:
the draft is what was written, and the thing lasts. -/
def Recovers (read : Draft → Option α) (write : α → Json) (lasts : α → Prop) : Prop :=
  ∀ ⦃d : Draft⦄ ⦃a : α⦄, (write a).StandsFor d → (read d = some a ↔ d = ofJson (write a) ∧ lasts a)

/-! ## Leaves -/

/-- Whatever is written as a string is read from the string itself. -/
theorem recovers_text {text : α → String}
    (h : ∀ a, read (.string (text a)) = some a ↔ lasts a) :
    Recovers read (fun a => .string (text a)) lasts := by
  intro d a hd
  obtain rfl : d = .string (text a) := hd
  rw [h, ofJson, and_iff_right rfl]

theorem recovers_string : Recovers readString? .string fun _ => True :=
  recovers_text fun _ => iff_of_true rfl trivial

theorem recovers_variant {ofName? : String → Option α} {name : α → String}
    (h : ∀ a, ofName? (name a) = some a) :
    Recovers (fun v => v.variant?.bind ofName?) (fun a => .string (name a)) fun _ => True :=
  recovers_text fun a => iff_of_true (h a) trivial

theorem recovers_innerVariant {ofName? : String → Option α} {name : α → String}
    (h : ∀ a, ofName? (name a) = some a) :
    Recovers (fun v => v.innerVariant?.bind ofName?) (fun a => .string (name a)) fun _ => True :=
  recovers_text fun a => iff_of_true (h a) trivial

/-- Of a type of which every text names something, a thing lasts if its own text names it. -/
theorem recovers_tag {ofTag : String → α} {tag : α → String} :
    Recovers (fun v => v.readString?.map ofTag) (fun a => .string (tag a))
      fun a => ofTag (tag a) = a :=
  recovers_text fun _ => Option.some_inj

theorem recovers_bool : Recovers readBool? .bool fun _ => True := by
  intro d b hd
  obtain rfl : d = .bool b := hd
  exact iff_of_true rfl ⟨rfl, trivial⟩

/-- A natural number is only read from itself, and below its bound. -/
theorem readNat?_eq_some {bound n : Nat} {d : Draft} (h : readNat? bound d = some n) :
    d = ofJson (.nat n) ∧ n < bound := by
  cases d with
  | number m =>
    cases m with
    | int k fits =>
      rw [readNat?, Option.bind_eq_some_iff] at h
      obtain ⟨_, hk, h⟩ := h
      rw [Json.Number.unsigned?] at hk
      split at hk
      · next hnonneg =>
        cases hk
        split at h
        · next hbound =>
          cases h
          have hcast : (k.toNat : Int) = k := Int.toNat_of_nonneg hnonneg
          refine ⟨?_, hbound⟩
          rw [Json.nat, Json.int, dif_pos (hcast.symm ▸ fits), ofJson]
          congr 2
          exact hcast.symm
        · cases h
      · cases hk
    | real x => cases h
  | _ => cases h

theorem recovers_word32 : Recovers readWord32? word32Json fun _ => True := by
  intro d n _
  constructor
  · intro h
    rw [readWord32?, Option.map_eq_some_iff] at h
    obtain ⟨k, hk, rfl⟩ := h
    obtain ⟨hd, hbound⟩ := readNat?_eq_some hk
    rw [word32Json, UInt32.toNat_ofNat_of_lt' hbound]
    exact ⟨hd, trivial⟩
  · intro h
    rw [h.1]
    exact readWord32?_written n

theorem recovers_word64 : Recovers readWord64? word64Json fun _ => True := by
  intro d n _
  constructor
  · intro h
    rw [readWord64?, Option.map_eq_some_iff] at h
    obtain ⟨k, hk, rfl⟩ := h
    obtain ⟨hd, hbound⟩ := readNat?_eq_some hk
    rw [word64Json, UInt64.toNat_ofNat_of_lt' hbound]
    exact ⟨hd, trivial⟩
  · intro h
    rw [h.1]
    exact readWord64?_written n

/-- A double is written as a number if it is finite, and as `null` if it is not. The number is read
as a double again, though not always as the same. -/
theorem recovers_real : Recovers readReal? .real fun x => x.isFinite = true := by
  intro d x hd
  cases x with
  | finite x =>
    obtain ⟨m, rfl, hm⟩ := hd
    obtain ⟨y, rfl⟩ := hm.real
    constructor
    · rintro ⟨⟩
      exact ⟨rfl, rfl⟩
    · rintro ⟨h, -⟩
      cases h
      rfl
  | infinite negative =>
    obtain rfl : d = .null := hd
    exact iff_of_false nofun fun h => nomatch h.2
  | nan =>
    obtain rfl : d = .null := hd
    exact iff_of_false nofun fun h => nomatch h.2

/-! ## Values of any kind -/

section

variable {embedded : String → Except Json.Flaw Json}

/-- The value of a draft with members has the names of the draft. -/
theorem names_of_membersWith {ds : List (String × Draft)} {members : List (String × Json)}
    (h : membersWith embedded ds = .ok members) :
    members.map Prod.fst = ds.map Prod.fst := by
  induction ds generalizing members with
  | nil =>
    rw [membersWith] at h
    cases h
    rfl
  | cons m rest ih =>
    rw [membersWith] at h
    obtain ⟨_, -, h⟩ := bind_eq_ok.mp h
    obtain ⟨_, hrest, h⟩ := bind_eq_ok.mp h
    cases h
    rw [List.map_cons, List.map_cons, ih hrest]

mutual

/-- A plain value is the value of no other draft that stands for it. -/
theorem eq_ofJson_of_valueWith : (v : Json) → {d : Draft} → v.Plain → v.StandsFor d →
    valueWith embedded d = .ok v → d = ofJson v
  | .null, _, _, h, _ | .bool _, _, _, h, _ | .string _, _, _, h, _ => h
  | .number _, _, _, h, hv => by
    obtain ⟨_, rfl, -⟩ := h
    rw [valueWith] at hv
    cases hv
    rfl
  | .array items, _, hp, h, hv => by
    obtain ⟨ds, rfl, h⟩ := h
    rw [valueWith] at hv
    cases hitems : itemsWith embedded ds with
    | error flaw =>
      rw [hitems] at hv
      cases hv
    | ok vs =>
      rw [hitems] at hv
      cases hv
      rw [ofJson, eq_ofItems_of_itemsWith items hp h hitems]
  | .object [], _, _, h, _ => by
    obtain ⟨_, rfl, rfl⟩ := h
    rfl
  | .object ((k, v) :: rest), _, hp, h, hv => by
    obtain ⟨_, rfl, w, ds, rfl, hw, hds⟩ := h
    obtain ⟨hdistinct, hhead, hpv, hprest⟩ := hp
    have hk : k ≠ Json.embeddingName := fun heq => hhead (congrArg some heq)
    unfold valueWith at hv
    rw [if_neg hk] at hv
    obtain ⟨v', hv', hv⟩ := bind_eq_ok.mp hv
    obtain ⟨rest', hrest', hv⟩ := bind_eq_ok.mp hv
    -- no name is entered twice, so the members are entered as they stand
    have hnames : rest'.map Prod.fst = rest.map Prod.fst :=
      (names_of_membersWith hrest').trans hds.names
    have hentries : (Fields.ofList ((k, v') :: rest')).entries = (k, v') :: rest' := by
      refine Fields.entries_ofList ?_
      rw [List.map_cons, hnames]
      exact hdistinct
    rw [hentries] at hv
    cases hv
    rw [ofJson, ofMembers, eq_ofJson_of_valueWith v hpv hw hv',
      eq_ofMembers_of_membersWith rest hprest hds hrest']

theorem eq_ofItems_of_itemsWith : (items : List Json) → {ds : List Draft} →
    Json.PlainItems items → Json.ItemsStandFor items ds → itemsWith embedded ds = .ok items →
    ds = ofItems items
  | [], _, _, h, _ => h
  | v :: rest, _, hp, h, hv => by
    obtain ⟨_, _, rfl, hd, hds⟩ := h
    rw [itemsWith] at hv
    obtain ⟨_, hfirst, hv⟩ := bind_eq_ok.mp hv
    obtain ⟨_, hrest, hv⟩ := bind_eq_ok.mp hv
    cases hv
    rw [ofItems, eq_ofJson_of_valueWith v hp.1 hd hfirst,
      eq_ofItems_of_itemsWith rest hp.2 hds hrest]

theorem eq_ofMembers_of_membersWith : (members : List (String × Json)) →
    {ds : List (String × Draft)} → Json.PlainMembers members → Json.MembersStandFor members ds →
    membersWith embedded ds = .ok members → ds = ofMembers members
  | [], _, _, h, _ => h
  | (k, v) :: rest, _, hp, h, hv => by
    obtain ⟨_, _, rfl, hd, hds⟩ := h
    rw [membersWith] at hv
    obtain ⟨_, hfirst, hv⟩ := bind_eq_ok.mp hv
    obtain ⟨_, hrest, hv⟩ := bind_eq_ok.mp hv
    cases hv
    rw [ofMembers, eq_ofJson_of_valueWith v hp.1 hd hfirst,
      eq_ofMembers_of_membersWith rest hp.2 hds hrest]

end

end

theorem readAny?_eq_some {d : Draft} {v : Json} : readAny? d = some v ↔ d.value = .ok v := by
  unfold readAny?
  cases d.value with
  | error flaw => exact iff_of_false nofun nofun
  | ok v' => exact Option.some_inj.trans ⟨congrArg _, fun h => by cases h; rfl⟩

/-- Of values of any kind the plain ones last. -/
theorem recovers_any : Recovers readAny? id Json.Plain := by
  intro d v hd
  rw [readAny?_eq_some]
  constructor
  · intro h
    exact ⟨eq_ofJson_of_valueWith v (plain_of_value h) hd h, plain_of_value h⟩
  · rintro ⟨rfl, hp⟩
    exact hp.value

/-! ## Lists and objects with arbitrary names -/

/-- One reading before others. -/
theorem mapM_cons_eq_some {β γ : Type} {f : β → Option γ} {a : β} {as : List β} {b : γ}
    {bs : List γ} : (a :: as).mapM f = some (b :: bs) ↔ f a = some b ∧ as.mapM f = some bs := by
  rw [List.mapM_cons]
  cases f a with
  | none => exact iff_of_false nofun fun h => nomatch h.1
  | some b' =>
    cases as.mapM f with
    | none => exact iff_of_false nofun fun h => nomatch h.2
    | some bs' =>
      constructor
      · rintro ⟨⟩
        exact ⟨rfl, rfl⟩
      · rintro ⟨⟨⟩, ⟨⟩⟩
        rfl

theorem Recovers.list (hr : Recovers read write lasts) :
    Recovers (readList? read) (fun as => .array (as.map write)) fun as => ∀ a ∈ as, lasts a := by
  intro d as hd
  obtain ⟨ds, rfl, hds⟩ := hd
  have hitems : ds.mapM read = some as ↔ ds = ofItems (as.map write) ∧ ∀ a ∈ as, lasts a := by
    induction as generalizing ds with
    | nil =>
      obtain rfl := hds
      exact iff_of_true rfl ⟨rfl, fun _ h => absurd h List.not_mem_nil⟩
    | cons a as ih =>
      obtain ⟨d, rest, rfl, hd, hrest⟩ := hds
      rw [mapM_cons_eq_some, hr hd, ih rest hrest, List.forall_mem_cons, List.map_cons, ofItems,
        List.cons.injEq]
      exact and_and_and_comm
  rw [readList?, hitems, ofJson, Draft.array.injEq]

/-- Members are read under their names. -/
theorem names_of_mapM {ds : List (String × Draft)} {entries : List (String × α)}
    (h : ds.mapM (fun m => (read m.2).map fun v => (m.1, v)) = some entries) :
    entries.map Prod.fst = ds.map Prod.fst := by
  induction ds generalizing entries with
  | nil =>
    cases h
    rfl
  | cons m rest ih =>
    rw [List.mapM_cons] at h
    obtain ⟨_, hfirst, h⟩ := Option.bind_eq_some_iff.mp h
    obtain ⟨_, hrest, h⟩ := Option.bind_eq_some_iff.mp h
    obtain ⟨_, -, rfl⟩ := Option.map_eq_some_iff.mp hfirst
    cases h
    rw [List.map_cons, List.map_cons, ih hrest]

theorem Recovers.fields (hr : Recovers read write lasts) :
    Recovers (readFields? read) (fun fields => Json.ofFields (fields.map write))
      fun fields => ∀ entry ∈ fields.entries, lasts entry.2 := by
  intro d fields hd
  obtain ⟨ds, rfl, hds⟩ := hd
  have hentries : ∀ {entries : List (String × α)} {ds : List (String × Draft)},
      Json.MembersStandFor (entries.map fun entry => (entry.1, write entry.2)) ds →
      (ds.mapM (fun m => (read m.2).map fun v => (m.1, v)) = some entries ↔
        ds = ofMembers (entries.map fun entry => (entry.1, write entry.2)) ∧
          ∀ entry ∈ entries, lasts entry.2) := by
    intro entries
    induction entries with
    | nil =>
      intro ds hds
      obtain rfl := hds
      exact iff_of_true rfl ⟨rfl, fun _ h => absurd h List.not_mem_nil⟩
    | cons entry rest ih =>
      intro ds hds
      obtain ⟨d, tail, rfl, hd, htail⟩ := hds
      have hentry : (read d).map (fun v => (entry.1, v)) = some entry ↔
          d = ofJson (write entry.2) ∧ lasts entry.2 := by
        rw [← hr hd, Option.map_eq_some_iff]
        exact ⟨fun ⟨v, hv, heq⟩ => heq ▸ hv, fun h => ⟨_, h, rfl⟩⟩
      rw [mapM_cons_eq_some, hentry, ih htail, List.forall_mem_cons, List.map_cons, ofMembers,
        List.cons.injEq, Prod.mk.injEq, eq_self, true_and]
      exact and_and_and_comm
  have hwritten : ofJson (Json.ofFields (fields.map write))
      = .object (ofMembers (fields.entries.map fun entry => (entry.1, write entry.2))) := rfl
  rw [readFields?, hwritten, Draft.object.injEq, ← hentries hds, Option.map_eq_some_iff]
  constructor
  · rintro ⟨entries, hread, rfl⟩
    -- no name is entered twice, so what was read is entered as it stands
    have hdistinct : (entries.map Prod.fst).Nodup := by
      rw [names_of_mapM hread, hds.names]
      exact (Fields.map write (Fields.ofList entries)).distinct
    rw [Fields.entries_ofList hdistinct]
    exact hread
  · intro hread
    exact ⟨_, hread, Fields.ofList_entries fields⟩

/-! ## Written objects -/

theorem memberSlot?_cons_self {name : String} {d : Draft} {ds : List (String × Draft)}
    (h : name ∉ ds.map Prod.fst) : memberSlot? [name] ((name, d) :: ds) = some (.filled d) := by
  have hnone : ds.filter (fun m => [name].contains m.1) = [] := by
    refine List.filter_eq_nil_iff.mpr fun m hm => ?_
    simp only [List.contains_cons, List.contains_nil, Bool.or_false, beq_iff_eq]
    rintro rfl
    exact h (List.mem_map_of_mem hm)
  unfold memberSlot?
  rw [List.filter_cons_of_pos (by simp), hnone]

theorem memberSlot?_cons_of_ne {name other : String} {d : Draft} {ds : List (String × Draft)}
    (h : other ≠ name) : memberSlot? [name] ((other, d) :: ds) = memberSlot? [name] ds := by
  unfold memberSlot?
  rw [List.filter_cons_of_neg (by simpa using h)]

theorem mapM_congr {β γ : Type} {f g : β → Option γ} {as : List β} (h : ∀ a ∈ as, f a = g a) :
    as.mapM f = as.mapM g := by
  induction as with
  | nil => rfl
  | cons a as ih =>
    obtain ⟨ha, has⟩ := List.forall_mem_cons.mp h
    rw [List.mapM_cons, List.mapM_cons, ha, ih has]

/-- The slot of a field stands for what was written of the field, if anything was. -/
def Slot.StandsFor : Option Json → Slot → Prop
  | none, slot => slot = .absent
  | some v, slot => ∃ d, slot = .filled d ∧ v.StandsFor d

/-- Slots that stand for some fields, one by one. -/
def SlotsStandFor : List (String × Option Json) → List Slot → Prop
  | [], slots => slots = []
  | field :: rest, slots => ∃ slot tail, slots = slot :: tail ∧ Slot.StandsFor field.2 slot ∧
      SlotsStandFor rest tail

/-- Members that stand for the fields that were written give each field a slot that stands for it,
and they are what was written if the slots are. -/
theorem slots_of_present {fields : List (String × Option Json)} {ds : List (String × Draft)}
    (hn : (fields.map Prod.fst).Nodup) (h : Json.MembersStandFor (present fields) ds) :
    ∃ slots, (fields.mapM fun field => memberSlot? [field.1] ds) = some slots ∧
      SlotsStandFor fields slots ∧
      (ds = ofMembers (present fields) ↔ slots = fields.map fun field => Slot.ofMember field.2) := by
  induction fields generalizing ds with
  | nil =>
    obtain rfl : ds = [] := h
    exact ⟨[], rfl, rfl, iff_of_true rfl rfl⟩
  | cons field rest ih =>
    obtain ⟨hnew, hrest⟩ := List.nodup_cons.mp hn
    obtain ⟨name, _ | v⟩ := field
    · -- a field that was left out has no member
      have hmembers : present ((name, none) :: rest) = present rest := rfl
      rw [hmembers] at h
      obtain ⟨slots, hslots, hstand, hwhole⟩ := ih hrest h
      have habsent : memberSlot? [name] ds = some .absent := by
        refine memberSlot?_of_not_mem fun d hd => hnew ?_
        have hmem : name ∈ (present rest).map Prod.fst := h.names ▸ List.mem_map_of_mem hd
        obtain ⟨⟨_, v⟩, hm, rfl⟩ := List.mem_map.mp hmem
        exact List.mem_map.mpr ⟨_, mem_present.mp hm, rfl⟩
      refine ⟨.absent :: slots, ?_, ⟨_, _, rfl, rfl, hstand⟩, ?_⟩
      · rw [List.mapM_cons, habsent, hslots]
        rfl
      · rw [hmembers, hwhole, List.map_cons, Slot.ofMember, List.cons.injEq, and_iff_right rfl]
    · -- the first member is that of the field, and no later field has its name
      have hmembers : present ((name, some v) :: rest) = (name, v) :: present rest := rfl
      rw [hmembers] at h
      obtain ⟨d, tail, rfl, hd, htail⟩ := h
      obtain ⟨slots, hslots, hstand, hwhole⟩ := ih hrest htail
      have hname : name ∉ tail.map Prod.fst := by
        rw [htail.names, List.mem_map]
        rintro ⟨⟨_, w⟩, hm, rfl⟩
        exact hnew (List.mem_map.mpr ⟨_, mem_present.mp hm, rfl⟩)
      have hlater : (rest.mapM fun field => memberSlot? [field.1] ((name, d) :: tail))
          = some slots := by
        rw [← hslots]
        refine mapM_congr fun field hfield => memberSlot?_cons_of_ne ?_
        rintro rfl
        exact hnew (List.mem_map.mpr ⟨field, hfield, rfl⟩)
      refine ⟨.filled d :: slots, ?_, ⟨_, _, rfl, ⟨d, rfl, hd⟩, hstand⟩, ?_⟩
      · rw [List.mapM_cons, memberSlot?_cons_self hname, hlater]
        rfl
      · rw [hmembers, ofMembers, List.cons.injEq, Prod.mk.injEq, hwhole, List.map_cons,
          Slot.ofMember, List.cons.injEq, Slot.filled.injEq, and_iff_right rfl]

/-- A draft that stands for a written object gives every field a slot that stands for it, and it is
what was written if the slots are. -/
theorem exists_slots {v : Json} {fields : List (String × Option Json)} {d : Draft}
    (hv : v = .object (present fields)) (hn : decide (fields.map Prod.fst).Nodup = true)
    (h : v.StandsFor d) :
    ∃ slots, d.slots? (fields.map fun field => [field.1]) = some slots ∧
      SlotsStandFor fields slots ∧
      (d = ofJson v ↔ slots = fields.map fun field => Slot.ofMember field.2) := by
  subst hv
  obtain ⟨ds, rfl, hds⟩ := h
  rw [slots?, List.mapM_map, ofJson, Draft.object.injEq]
  exact slots_of_present (of_decide_eq_true hn) hds

/-- A draft that stands for a written object with a tag has this tag, and the rest of the draft
stands for the rest of the object. -/
theorem exists_tagged {v : Json} {tag name : String} {fields : List (String × Option Json)}
    {d : Draft} (hv : v = .object ((tag, .string name) :: present fields))
    (hn : decide (tag :: fields.map Prod.fst).Nodup = true) (h : v.StandsFor d) :
    ∃ content, d.tagged? tag = some (name, content) ∧
      (Json.object (present fields)).StandsFor content ∧
      (d = ofJson v ↔ content = ofJson (.object (present fields))) := by
  have hsound := Json.StandsFor.sound v h
  subst hv
  obtain ⟨_, rfl, _, tail, rfl, rfl, htail⟩ := h
  have hnew := (List.nodup_cons.mp (of_decide_eq_true hn)).1
  have htag : tag ∉ tail.map Prod.fst := by
    rw [htail.names, List.mem_map]
    rintro ⟨⟨_, w⟩, hm, rfl⟩
    exact hnew (List.mem_map.mpr ⟨_, mem_present.mp hm, rfl⟩)
  have hrest : ((tag, Draft.string name) :: tail).filter (fun m => m.1 != tag) = tail := by
    rw [List.filter_cons_of_neg (by simp), List.filter_eq_self]
    intro m hm
    rw [bne_iff_ne]
    rintro rfl
    exact htag (List.mem_map_of_mem hm)
  refine ⟨.object tail, ?_, ⟨tail, rfl, htail⟩, ?_⟩
  · simp only [tagged?, memberSlot?_cons_self htag, hsound, hrest, if_true]
  · rw [ofJson, ofMembers, ofJson, ofJson, Draft.object.injEq, Draft.object.injEq, List.cons.injEq,
      and_iff_right rfl]

/-! ## Slots -/

namespace Slot

/-- The law for slots, given what is written of a field, if anything is. -/
def Recovers (read : Slot → Option α) (write : α → Option Json) (lasts : α → Prop) : Prop :=
  ∀ ⦃slot : Slot⦄ ⦃a : α⦄, StandsFor (write a) slot →
    (read slot = some a ↔ slot = ofMember (write a) ∧ lasts a)

end Slot

theorem Recovers.required (hr : Recovers read write lasts) :
    Slot.Recovers (Slot.required read) (fun a => some (write a)) lasts := by
  rintro slot a ⟨d, rfl, hd⟩
  rw [Slot.required, hr hd, Slot.ofMember, Slot.filled.injEq]

theorem Recovers.orElse (hr : Recovers read write lasts) (fallback : α) :
    Slot.Recovers (Slot.orElse fallback read) (fun a => some (write a)) lasts := by
  rintro slot a ⟨d, rfl, hd⟩
  rw [Slot.orElse, hr hd, Slot.ofMember, Slot.filled.injEq]

theorem nullable_of_ne_null {d : Draft} (h : d ≠ .null) :
    Slot.nullable read d = (read d).map some := by
  unfold Slot.nullable
  split
  · exact absurd rfl h
  · rfl

/-- Of things that may be missing, one lasts only if it is not written as `null`. -/
theorem Recovers.nullable (hr : Recovers read write lasts) :
    Recovers (Slot.nullable read) (Json.ofOption write)
      fun o => ∀ a ∈ o, write a ≠ .null ∧ lasts a := by
  intro d o hd
  cases o with
  | none =>
    obtain rfl : d = .null := hd
    exact iff_of_true rfl ⟨rfl, by simp⟩
  | some a =>
    rw [Json.ofOption] at hd ⊢
    by_cases hnull : write a = .null
    · rw [hnull] at hd
      obtain rfl : d = .null := hd
      simp [Slot.nullable, hnull]
    · have hread : Slot.nullable read d = some (some a) ↔ read d = some a := by
        rw [nullable_of_ne_null fun h => hnull (Json.eq_null_of_standsFor (h ▸ hd))]
        simp
      rw [hread, hr hd]
      simp [hnull]

/-- As nothing is written as `null`, what may be missing lasts if it is missing or lasts. -/
theorem Recovers.nullable_of_ne (hr : Recovers read write lasts) (hne : ∀ a, write a ≠ .null) :
    Recovers (Slot.nullable read) (Json.ofOption write) fun o => ∀ a ∈ o, lasts a := by
  intro d o hd
  rw [hr.nullable hd]
  exact and_congr_right' (forall₂_congr fun a _ => and_iff_right (hne a))

section

variable {writeOption : Option α → Json} {lastsOption : Option α → Prop}

theorem Recovers.orNone (hr : Recovers (Slot.nullable read) writeOption lastsOption) :
    Slot.Recovers (Slot.orNone read) (fun o => some (writeOption o)) lastsOption := by
  rintro slot o ⟨d, rfl, hd⟩
  rw [Slot.orNone, hr hd, Slot.ofMember, Slot.filled.injEq]

theorem Recovers.optional (hr : Recovers (Slot.nullable read) writeOption lastsOption) :
    Slot.Recovers (Slot.optional read) (fun o => some (writeOption o)) lastsOption := by
  rintro slot o ⟨d, rfl, hd⟩
  rw [Slot.optional, hr hd, Slot.ofMember, Slot.filled.injEq]

end

/-- A field that is left out if it has no value. -/
theorem Recovers.present (hr : Recovers read write lasts) (hne : ∀ a, write a ≠ .null) :
    Slot.Recovers (Slot.orNone read) (fun o => o.map write) fun o => ∀ a ∈ o, lasts a := by
  intro slot o hslot
  cases o with
  | none =>
    obtain rfl : slot = .absent := hslot
    exact iff_of_true rfl ⟨rfl, nofun⟩
  | some a => exact (hr.nullable_of_ne hne).orNone hslot

/-! ## One slot after the other -/

section

variable {P Q L M : Prop} {slot slot' : Slot} {slots slots' : List Slot}

/-- What one slot is read as and what the others are read as. -/
theorem and_iff_cons (h : P ↔ slot = slot' ∧ L) (hs : Q ↔ slots = slots' ∧ M) :
    P ∧ Q ↔ slot :: slots = slot' :: slots' ∧ L ∧ M := by
  rw [h, hs, List.cons.injEq]
  exact and_and_and_comm

/-- A slot of which whatever it is read as lasts. -/
theorem and_iff_cons_of_lasts (h : P ↔ slot = slot' ∧ L) (hl : L) (hs : Q ↔ slots = slots' ∧ M) :
    P ∧ Q ↔ slot :: slots = slot' :: slots' ∧ M := by
  rw [and_iff_cons h hs, and_iff_right hl]

/-- The last slot. -/
theorem iff_singleton (h : P ↔ slot = slot' ∧ L) : P ↔ [slot] = [slot'] ∧ L := by
  rw [h, List.singleton_inj]

end

end Draft

end Bulletin
