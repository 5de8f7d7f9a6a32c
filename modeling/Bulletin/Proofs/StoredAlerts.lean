import Bulletin.Proofs.ReadBack
import Bulletin.Proofs.Tables
import Mathlib.Data.List.Nodup

/-!
# Alerts in a repository

The two makes of repositories, seen only through the alerts that they hold. A repository in memory
holds alerts. One over text holds texts under keys, of which some may be unreadable; there a
`Stored` alert is what one of the texts reads as.

The lemmas on `answer` say what each call tells about the stored alerts and does to them. Nothing
after them opens a repository again.

* `Repository.stored_of_get_alert`, `stored_of_list_alert` — what a call shows is stored
* `Repository.wrote_save_alert` — saving an alert touches one identifier
* `Repository.createActive_spec` — opening an alert
* `Repository.untouched_answer` — no other call touches an alert
-/

namespace Bulletin

/-- Two records of an alert that agree in what decides who may be opened beside it. -/
structure Alert.Alike (a b : Alert) : Prop where
  id : b.id = a.id
  ruleId : b.ruleId = a.ruleId
  status : b.status = a.status

theorem AlertStatus.ofName?_name (status : AlertStatus) : ofName? status.name = some status := by
  cases status <;> rfl

/-- What is read from the text of an alert agrees with the alert. -/
theorem decode_alert_alike {a b : Alert}
    (h : TextTable.decode .alert (EntityKind.alert.toJson a).compact = .ok b) : a.Alike b := by
  unfold TextTable.decode at h
  split at h
  · cases h
  next draft hdraft =>
  split at h
  · next found hfound =>
    cases h
    obtain ⟨members, rfl, hmembers⟩ := Draft.standsFor_of_ofText hdraft
    obtain ⟨id, _, rfl, hid, rule, _, rfl, hrule, status, _, rfl, hstatus, severity, _, rfl, -,
      value, _, rfl, -, threshold, _, rfl, -, message, _, rfl, -, triggered, _, rfl, -,
      acknowledged, _, rfl, -, person, _, rfl, -, resolved, _, rfl, -, reason, _, rfl, -,
      auto, _, rfl, -, rfl⟩ := hmembers
    change Alert.ofDraft? _ = _ at hfound
    have hslots := Draft.slots?_object [("id", id), ("rule_id", rule),
      ("status", status), ("severity", severity), ("triggered_value", value),
      ("threshold_value", threshold), ("message", message), ("triggered_at", triggered),
      ("acknowledged_at", acknowledged), ("acknowledged_by", person), ("resolved_at", resolved),
      ("resolution_reason", reason), ("auto_resolved", auto)]
      (by simp only [List.map_cons, List.map_nil]; decide)
    simp only [List.map_cons, List.map_nil] at hslots
    unfold Alert.ofDraft? at hfound
    rw [hslots] at hfound
    obtain ⟨_, ⟨⟩, hfound⟩ := Option.bind_eq_some_iff.mp hfound
    simp only [Draft.Slot.required] at hfound
    -- the three fields that matter are strings, which read back exactly
    obtain rfl : id = .string a.id.key := hid
    obtain rfl : rule = .string a.ruleId.key := hrule
    obtain rfl : status = .string a.status.name := hstatus
    have hread : AlertStatus.ofDraft? (.string a.status.name) = some a.status :=
      AlertStatus.ofName?_name a.status
    rw [Id.ofDraft?_key, Id.ofDraft?_key, hread] at hfound
    obtain ⟨_, ⟨⟩, hfound⟩ := Option.bind_eq_some_iff.mp hfound
    obtain ⟨_, ⟨⟩, hfound⟩ := Option.bind_eq_some_iff.mp hfound
    obtain ⟨_, ⟨⟩, hfound⟩ := Option.bind_eq_some_iff.mp hfound
    iterate 10 obtain ⟨_, -, hfound⟩ := Option.bind_eq_some_iff.mp hfound
    cases hfound
    exact ⟨rfl, rfl, rfl⟩
  · cases h

/-- A call that may write an alert. -/
def Call.WritesAlert : Call → Prop
  | .save .alert _ => True
  | .createActive _ => True
  | _ => False

namespace Repository

/-- An alert is stored and can be read. -/
def Stored : Repository → Alert → Prop
  | .memory tables, alert => alert ∈ tables.alerts.entities
  | .keyed tables, alert =>
    ∃ entry ∈ tables.alerts.entries, TextTable.decode .alert entry.2 = .ok alert

/-- Something is stored under the identifier of an alert. -/
def Occupied : Repository → AlertId → Prop
  | .memory tables, id => ∃ alert ∈ tables.alerts.entities, alert.id = id
  | .keyed tables, id => ∃ entry ∈ tables.alerts.entries, entry.1 = id.key

/-- Every text that reads as an alert stands under the key of this alert. -/
def InPlace : Repository → Prop
  | .memory _ => True
  | .keyed tables => ∀ entry ∈ tables.alerts.entries, ∀ alert,
      TextTable.decode .alert entry.2 = .ok alert → entry.1 = alert.id.key

/-- Every text reads as an alert. -/
def Readable : Repository → Prop
  | .memory _ => True
  | .keyed tables => ∀ entry ∈ tables.alerts.entries, ∃ alert,
      TextTable.decode .alert entry.2 = .ok alert

variable {r : Repository}

theorem Stored.occupied (hr : r.InPlace) {alert : Alert} (h : r.Stored alert) :
    r.Occupied alert.id := by
  cases r with
  | memory tables => exact ⟨alert, h, rfl⟩
  | keyed tables =>
    obtain ⟨entry, hmem, hd⟩ := h
    exact ⟨entry, hmem, hr entry hmem alert hd⟩

/-- One identifier names one stored alert. -/
theorem Stored.eq_of_id (hr : r.InPlace) {a b : Alert} (ha : r.Stored a) (hb : r.Stored b)
    (h : a.id = b.id) : a = b := by
  cases r with
  | memory tables => exact List.inj_on_of_nodup_map tables.alerts.distinct ha hb h
  | keyed tables =>
    obtain ⟨entry, hmem, hd⟩ := ha
    obtain ⟨entry', hmem', hd'⟩ := hb
    -- both texts stand under the key of the identifier, and a key has one text
    have hkey : entry.1 = entry'.1 := by
      rw [hr entry hmem a hd, hr entry' hmem' b hd', h]
    have : entry = entry' := List.inj_on_of_nodup_map tables.alerts.distinct hmem hmem' hkey
    rw [this, hd'] at hd
    cases hd
    rfl

/-! ## What calls show -/

theorem mem_of_mapM_ok {ε α β : Type} {f : α → Except ε β} {as : List α} {bs : List β}
    (h : as.mapM f = .ok bs) {b : β} (hb : b ∈ bs) : ∃ a ∈ as, f a = .ok b := by
  induction as generalizing bs with
  | nil => cases h; simp at hb
  | cons a rest ih =>
    rw [List.mapM_cons] at h
    cases hf : f a with
    | error e => rw [hf] at h; cases h
    | ok first =>
      cases hm : rest.mapM f with
      | error e => rw [hf, hm] at h; cases h
      | ok others =>
        rw [hf, hm] at h
        cases h
        rcases List.mem_cons.mp hb with rfl | hb
        · exact ⟨a, List.mem_cons_self, hf⟩
        · obtain ⟨a', ha', hfa'⟩ := ih hm hb
          exact ⟨a', List.mem_cons_of_mem _ ha', hfa'⟩

theorem TextTable.mem_scan {table : TextTable} {text : String} :
    text ∈ table.scan ↔ ∃ entry ∈ table.entries, entry.2 = text := by
  unfold TextTable.scan
  rw [List.mem_map]
  exact exists_congr fun entry => and_congr_left fun _ => (List.mergeSort_perm _ _).mem_iff

theorem stored_of_get_alert {id : AlertId} {alert : Alert}
    (h : (r.answer (.get .alert id)).1 = .ok (some alert)) : r.Stored alert := by
  cases r with
  | memory tables =>
    have hget : tables.alerts.get? id = some alert := by
      simpa [answer, MemoryRepository.answer, Tables.get] using h
    exact (Table.get?_eq_some_iff.mp hget).1
  | keyed tables =>
    have hget : TextTable.get tables.alerts .alert id = .ok (some alert) := h
    unfold TextTable.get at hget
    split at hget
    · cases hget
    · next text htext =>
      cases hd : TextTable.decode .alert text with
      | error e => rw [hd] at hget; cases hget
      | ok found =>
        rw [hd] at hget
        cases hget
        exact ⟨_, mem_of_lookupValue? htext, hd⟩

theorem stored_of_list_alert {scope : Option RuleId} {alerts : List Alert} {alert : Alert}
    (h : (r.answer (.list .alert scope)).1 = .ok alerts) (ha : alert ∈ alerts) :
    r.Stored alert := by
  cases r with
  | memory tables =>
    have hlist : EntityKind.alert.listing scope tables.alerts.entities = alerts := by
      simpa [answer, MemoryRepository.answer, Tables.get, Table.list] using h
    rw [← hlist] at ha
    exact (EntityKind.mem_listing.mp ha).1
  | keyed tables =>
    have hlist : TextTable.list tables.alerts .alert scope = .ok alerts := h
    unfold TextTable.list at hlist
    cases hm : (TextTable.scan tables.alerts).mapM (TextTable.decode .alert) with
    | error e => rw [hm] at hlist; cases hlist
    | ok found =>
      rw [hm] at hlist
      cases hlist
      obtain ⟨text, htext, hd⟩ := mem_of_mapM_ok hm (EntityKind.mem_listing.mp ha).1
      obtain ⟨entry, hmem, rfl⟩ := TextTable.mem_scan.mp htext
      exact ⟨entry, hmem, hd⟩

/-! ## What calls do -/

/-- One record was written under the identifier of an alert, and nothing else was touched. -/
structure Wrote (alert : Alert) (r r' : Repository) : Prop where
  inPlace : r'.InPlace
  occupied : ∀ id, r'.Occupied id ↔ id = alert.id ∨ r.Occupied id
  written : ∀ b, r'.Stored b → alert.Alike b ∨ r.Stored b ∧ b.id ≠ alert.id
  kept : ∀ b, r.Stored b → b.id ≠ alert.id → r'.Stored b

/-- The alerts are as they were. -/
structure Untouched (r r' : Repository) : Prop where
  inPlace : r.InPlace → r'.InPlace
  occupied : ∀ id, r'.Occupied id ↔ r.Occupied id
  stored : ∀ alert, r'.Stored alert ↔ r.Stored alert

theorem Untouched.refl (r : Repository) : Untouched r r := ⟨id, fun _ => Iff.rfl, fun _ => Iff.rfl⟩

theorem wrote_memory (tables : MemoryRepository) (alert : Alert) :
    Wrote alert (.memory tables) (.memory (tables.set .alert (tables.alerts.save alert))) where
  inPlace := trivial
  occupied id := by
    constructor
    · rintro ⟨b, hb, rfl⟩
      rcases Table.mem_save.mp hb with rfl | ⟨hb, -⟩
      · exact .inl rfl
      · exact .inr ⟨b, hb, rfl⟩
    · rintro (rfl | ⟨b, hb, rfl⟩)
      · exact ⟨alert, Table.mem_save.mpr (.inl rfl), rfl⟩
      · by_cases he : b.id = alert.id
        · exact ⟨alert, Table.mem_save.mpr (.inl rfl), he.symm⟩
        · exact ⟨b, Table.mem_save.mpr (.inr ⟨hb, he⟩), rfl⟩
  written b hb := by
    rcases Table.mem_save.mp hb with rfl | ⟨hb, hne⟩
    · exact .inl ⟨rfl, rfl, rfl⟩
    · exact .inr ⟨hb, hne⟩
  kept b hb hne := Table.mem_save.mpr (.inr ⟨hb, hne⟩)

theorem wrote_keyed {tables : KeyedRepository} (hr : InPlace (.keyed tables)) (alert : Alert) :
    Wrote alert (.keyed tables)
      (.keyed (tables.set .alert (TextTable.save tables.alerts .alert alert))) := by
  have hmem : ∀ entry, entry ∈ (TextTable.save tables.alerts .alert alert).entries ↔
      entry = (alert.id.key, (EntityKind.alert.toJson alert).compact) ∨
        entry ∈ tables.alerts.entries ∧ entry.1 ≠ alert.id.key :=
    fun entry => mem_putEntry tables.alerts.distinct
  -- whatever the new text reads as, it has the identifier that is the key of the text
  refine ⟨?_, ?_, ?_, ?_⟩
  · intro entry he b hb
    rcases (hmem entry).mp he with rfl | ⟨he, -⟩
    · exact congrArg Id.key (decode_alert_alike hb).id.symm
    · exact hr entry he b hb
  · intro id
    constructor
    · rintro ⟨entry, he, hkey⟩
      rcases (hmem entry).mp he with rfl | ⟨he, -⟩
      · exact .inl (Id.key_injective hkey.symm)
      · exact .inr ⟨entry, he, hkey⟩
    · rintro (rfl | ⟨entry, he, hkey⟩)
      · exact ⟨_, (hmem _).mpr (.inl rfl), rfl⟩
      · by_cases hk : entry.1 = alert.id.key
        · exact ⟨_, (hmem _).mpr (.inl rfl), hk.symm.trans hkey⟩
        · exact ⟨entry, (hmem entry).mpr (.inr ⟨he, hk⟩), hkey⟩
  · rintro b ⟨entry, he, hb⟩
    rcases (hmem entry).mp he with rfl | ⟨he, hk⟩
    · exact .inl (decode_alert_alike hb)
    · refine .inr ⟨⟨entry, he, hb⟩, fun hid => hk ?_⟩
      rw [hr entry he b hb, hid]
  · rintro b ⟨entry, he, hb⟩ hne
    refine ⟨entry, (hmem entry).mpr (.inr ⟨he, fun hk => hne ?_⟩), hb⟩
    exact Id.key_injective ((hr entry he b hb).symm.trans hk)

/-- Saving an alert writes its record. -/
theorem wrote_save_alert (hr : r.InPlace) (alert : Alert) :
    Wrote alert r (r.answer (.save .alert alert)).2 := by
  cases r with
  | memory tables => exact wrote_memory tables alert
  | keyed tables => exact wrote_keyed hr alert

/-- No call but the saving and the opening of an alert touches one. -/
theorem untouched_answer {c : Call} (h : ¬ c.WritesAlert) : Untouched r (r.answer c).2 := by
  cases c with
  | get kind id => cases r <;> exact .refl _
  | list kind scope => cases r <;> exact .refl _
  | createActive alert => exact absurd trivial h
  | save kind entity =>
    cases kind with
    | alert => exact absurd trivial h
    | report | execution | dashboard | widget | rule =>
      cases r <;> exact ⟨fun h => h, fun _ => Iff.rfl, fun _ => Iff.rfl⟩

/-- A rule has an active alert. -/
def HasActive (r : Repository) (rule : RuleId) : Prop :=
  ∃ alert, r.Stored alert ∧ alert.ruleId = rule ∧ alert.status = .active

theorem Alert.blocks_eq_true_iff {rule : RuleId} {alert : Alert} :
    alert.blocks rule = true ↔ alert.ruleId = rule ∧ alert.status = .active := by
  simp [Alert.blocks, Alert.active]

/-- A search finds a text that reads as an alert of a kind, or every text reads as one of
another. -/
theorem anyAlert_spec (test : Alert → Bool) (texts : List String) :
    match TextTable.anyAlert test texts with
    | .ok true => ∃ text ∈ texts, ∃ alert,
        TextTable.decode .alert text = .ok alert ∧ test alert = true
    | .ok false => ∀ text ∈ texts, ∃ alert,
        TextTable.decode .alert text = .ok alert ∧ test alert = false
    | .error _ => ∃ text ∈ texts, ∀ alert, TextTable.decode .alert text ≠ .ok alert := by
  induction texts with
  | nil => simp [TextTable.anyAlert]
  | cons text rest ih =>
    cases hd : TextTable.decode .alert text with
    | error e =>
      have hany : TextTable.anyAlert test (text :: rest) = .error e := by
        simp only [TextTable.anyAlert, hd]
      rw [hany]
      exact ⟨text, List.mem_cons_self, by simp [hd]⟩
    | ok alert =>
      have hany : TextTable.anyAlert test (text :: rest)
          = if test alert = true then .ok true else TextTable.anyAlert test rest := by
        simp only [TextTable.anyAlert, hd]
      rw [hany]
      by_cases ht : test alert = true
      · rw [if_pos ht]
        exact ⟨text, List.mem_cons_self, alert, hd, ht⟩
      · rw [if_neg ht]
        generalize TextTable.anyAlert test rest = found at ih ⊢
        match found, ih with
        | .ok true, ⟨other, hmem, h⟩ => exact ⟨other, List.mem_cons_of_mem _ hmem, h⟩
        | .ok false, h =>
          exact List.forall_mem_cons.mpr ⟨⟨alert, hd, Bool.eq_false_iff.mpr ht⟩, h⟩
        | .error _, ⟨other, hmem, h⟩ => exact ⟨other, List.mem_cons_of_mem _ hmem, h⟩

/-- The opening of an alert, by its answer: it says whether the rule had no active alert, it writes
the record if it says so, and it changes nothing if not. It fails only over an unreadable text. -/
theorem createActive_spec (hr : r.InPlace) (alert : Alert) :
    match (r.answer (.createActive alert)).1 with
    | .ok true => ¬ r.HasActive alert.ruleId ∧ Wrote alert r (r.answer (.createActive alert)).2
    | .ok false => r.HasActive alert.ruleId ∧ (r.answer (.createActive alert)).2 = r
    | .error _ => ¬ r.Readable ∧ (r.answer (.createActive alert)).2 = r := by
  cases r with
  | memory tables =>
    simp only [answer, MemoryRepository.answer]
    by_cases h : tables.alerts.entities.any (Alert.blocks alert.ruleId) = true
    · rw [if_pos h]
      obtain ⟨b, hb, hblocks⟩ := List.any_eq_true.mp h
      exact ⟨⟨b, hb, Alert.blocks_eq_true_iff.mp hblocks⟩, rfl⟩
    · rw [if_neg h]
      refine ⟨?_, wrote_memory tables alert⟩
      rintro ⟨b, hb, hactive⟩
      exact h (List.any_eq_true.mpr ⟨b, hb, Alert.blocks_eq_true_iff.mpr hactive⟩)
  | keyed tables =>
    simp only [answer, KeyedRepository.answer]
    have hspec := anyAlert_spec (Alert.blocks alert.ruleId) (TextTable.scan tables.alerts)
    generalize TextTable.anyAlert _ _ = found at hspec ⊢
    cases found with
    | ok found =>
      cases found with
      | true =>
        obtain ⟨text, htext, b, hb, hblocks⟩ := hspec
        obtain ⟨entry, he, rfl⟩ := TextTable.mem_scan.mp htext
        exact ⟨⟨b, ⟨entry, he, hb⟩, Alert.blocks_eq_true_iff.mp hblocks⟩, rfl⟩
      | false =>
        refine ⟨?_, wrote_keyed hr alert⟩
        rintro ⟨b, ⟨entry, he, hb⟩, hactive⟩
        obtain ⟨b', hb', hno⟩ := hspec entry.2 (TextTable.mem_scan.mpr ⟨entry, he, rfl⟩)
        rw [hb] at hb'
        cases hb'
        rw [Alert.blocks_eq_true_iff.mpr hactive] at hno
        cases hno
    | error e =>
      obtain ⟨text, htext, hno⟩ := hspec
      obtain ⟨entry, he, rfl⟩ := TextTable.mem_scan.mp htext
      refine ⟨fun hall => ?_, rfl⟩
      obtain ⟨b, hb⟩ := hall entry he
      exact hno b hb

end Repository

/-! ## Free identifiers -/

/-- The alert that a call has stored, if it was answered so. -/
def Call.stored? : (c : Call) → c.Answer → Option Alert
  | .save .alert alert, _ => some alert
  | .createActive alert, .ok true => some alert
  | _, _ => none

namespace MemoryRepository

/-- An identifier of no stored alert. -/
def Free (r : MemoryRepository) (id : Uuid) : Prop := ¬ (Repository.memory r).Occupied ⟨id⟩

/-- What is free is a matter of the alerts. -/
theorem free_congr {r r' : MemoryRepository} {id : Uuid} (h : r'.alerts = r.alerts) :
    r'.Free id ↔ r.Free id := by
  change ¬ (∃ alert ∈ r'.alerts.entities, _) ↔ ¬ ∃ alert ∈ r.alerts.entities, _
  rw [h]

/-- Saving an alert takes its identifier, and no other. -/
theorem free_save {r : MemoryRepository} {alert : Alert} {id : Uuid} :
    Free (r.set .alert (r.alerts.save alert)) id ↔ r.Free id ∧ alert.id ≠ ⟨id⟩ := by
  unfold Free
  rw [(Repository.wrote_memory r alert).occupied, not_or, and_comm]
  exact and_congr_right fun _ => not_congr eq_comm

/-- An identifier stays free unless an alert is stored under it. -/
theorem free_answer {r : MemoryRepository} {c : Call} {id : Uuid} :
    (r.answer c).2.Free id ↔
      r.Free id ∧ ∀ alert, c.stored? (r.answer c).1 = some alert → alert.id ≠ ⟨id⟩ := by
  have hwrote : ∀ alert : Alert, Free (r.set .alert (r.alerts.save alert)) id ↔
      r.Free id ∧ ∀ a, some alert = some a → a.id ≠ ⟨id⟩ := by
    intro alert
    rw [free_save]
    refine and_congr_right fun _ => ⟨?_, fun h => h alert rfl⟩
    rintro h _ ⟨⟩
    exact h
  cases c with
  | get kind entity => simp [MemoryRepository.answer, Call.stored?]
  | list kind scope => simp [MemoryRepository.answer, Call.stored?]
  | save kind entity =>
    cases kind with
    | alert => exact hwrote entity
    | report | execution | dashboard | widget | rule =>
      exact ⟨fun h => ⟨h, fun _ => nofun⟩, fun h => h.1⟩
  | createActive alert =>
    simp only [MemoryRepository.answer]
    split
    · exact ⟨fun h => ⟨h, fun _ => nofun⟩, fun h => h.1⟩
    · exact hwrote alert

end MemoryRepository

end Bulletin
