import Bulletin.Proofs.Listings
import Bulletin.Proofs.StoredAlerts
import Bulletin.Proofs.StoredForms
import Bulletin.Repository.Inquiry
import Mathlib.Data.List.Induction

/-!
# The two makes of repositories

A repository in memory keeps entities and may go through them in any order, another one every time.
A repository over text keeps their texts and goes through them in the order of their keys. As long
as what is saved can be read back, nobody can tell one from the other: both give the same answers to
the same inquiries.

The texts *mirror* the tables if they are the texts of the entities there, each under the key of its
identifier. Every call keeps this, and is answered alike on both sides.

* `TextTable.Mirrors.list` — the listings of a table and of its texts
* `Mirrors.answer` — one call
* `repositories_agree` — any number of inquiries
-/

namespace Bulletin

/-- The text of an entity reads as the entity. -/
def EntityKind.ReadsBack (kind : EntityKind) (entity : kind.Entity) : Prop :=
  TextTable.decode kind (kind.toJson entity).compact = .ok entity

/-! ## Entries -/

/-- Reading some texts in another order reads the same things in another order. -/
theorem mapM_ok_perm {ε α β : Type} {f : α → Except ε β} {as as' : List α} {bs : List β}
    (h : as.Perm as') (hm : as.mapM f = .ok bs) :
    ∃ bs', as'.mapM f = .ok bs' ∧ bs.Perm bs' := by
  induction h generalizing bs with
  | nil => exact ⟨bs, hm, .refl _⟩
  | cons a _ ih =>
    rw [List.mapM_cons] at hm
    obtain ⟨b, hb, hm⟩ := bind_eq_ok.mp hm
    obtain ⟨rest, hrest, hm⟩ := bind_eq_ok.mp hm
    cases hm
    obtain ⟨rest', hrest', hperm⟩ := ih hrest
    exact ⟨b :: rest', by rw [List.mapM_cons, hb, hrest']; rfl, hperm.cons b⟩
  | swap a a' _ =>
    simp only [List.mapM_cons] at hm
    obtain ⟨b, hb, hm⟩ := bind_eq_ok.mp hm
    obtain ⟨_, hrest, hm⟩ := bind_eq_ok.mp hm
    obtain ⟨b', hb', hothers⟩ := bind_eq_ok.mp hrest
    obtain ⟨rest, hlast, h⟩ := bind_eq_ok.mp hothers
    cases h
    cases hm
    exact ⟨b' :: b :: rest, by simp only [List.mapM_cons, hb, hb', hlast]; rfl, .swap b' b rest⟩
  | trans _ _ ih ih' =>
    obtain ⟨bs', hm', hperm⟩ := ih hm
    obtain ⟨bs'', hm'', hperm'⟩ := ih' hm'
    exact ⟨bs'', hm'', hperm.trans hperm'⟩

/-! ## One table -/

section

variable {kind : EntityKind} {texts : TextTable} {table table' : Table kind}

/-- The texts are those of the entities of a table, and all of them can be read. -/
structure TextTable.Mirrors (texts : TextTable) (table : Table kind) : Prop where
  entries : ∀ entry, entry ∈ Fields.entries texts ↔
    ∃ entity ∈ table.entities, entry = ((kind.id entity).key, (kind.toJson entity).compact)
  readsBack : ∀ entity ∈ table.entities, kind.ReadsBack entity

namespace TextTable.Mirrors

theorem empty : Mirrors (∅ : TextTable) (Table.empty : Table kind) :=
  ⟨fun _ => ⟨fun h => absurd h List.not_mem_nil, by rintro ⟨_, h, -⟩; cases h⟩,
    fun _ h => absurd h List.not_mem_nil⟩

/-- The order of the entities does not matter. -/
theorem reordered (h : Mirrors texts table) (hperm : table'.entities.Perm table.entities) :
    Mirrors texts table' where
  entries entry := by
    rw [h.entries]
    exact exists_congr fun entity => and_congr_left fun _ => hperm.mem_iff.symm
  readsBack entity hmem := h.readsBack entity (hperm.mem_iff.mp hmem)

theorem get (h : Mirrors texts table) (id : Id kind) :
    TextTable.get texts kind id = .ok (table.get? id) := by
  unfold TextTable.get
  cases hg : table.get? id with
  | some entity =>
    obtain ⟨hmem, rfl⟩ := Table.get?_eq_some_iff.mp hg
    have htext : Fields.get? texts (kind.id entity).key = some (kind.toJson entity).compact :=
      Fields.get?_eq_some_iff.mpr ((h.entries _).mpr ⟨entity, hmem, rfl⟩)
    rw [htext]
    simp only [show decode kind (kind.toJson entity).compact = .ok entity from
      h.readsBack entity hmem]
    rfl
  | none =>
    cases htext : Fields.get? texts id.key with
    | none => rfl
    | some text =>
      obtain ⟨entity, hmem, he⟩ := (h.entries _).mp (Fields.get?_eq_some_iff.mp htext)
      have hid : kind.id entity = id := Id.key_injective (congrArg Prod.fst he).symm
      rw [Table.get?_eq_some_iff.mpr ⟨hmem, hid⟩] at hg
      cases hg

theorem save (h : Mirrors texts table) {entity : kind.Entity} (he : kind.ReadsBack entity) :
    Mirrors (TextTable.save texts kind entity) (table.save entity) where
  entries entry := by
    have hput : entry ∈ Fields.entries (TextTable.save texts kind entity) ↔
        entry = ((kind.id entity).key, (kind.toJson entity).compact) ∨
          entry ∈ Fields.entries texts ∧ entry.1 ≠ (kind.id entity).key :=
      mem_putEntry (Fields.distinct texts)
    rw [hput, h.entries]
    constructor
    · rintro (rfl | ⟨⟨other, hmem, rfl⟩, hne⟩)
      · exact ⟨entity, Table.mem_save.mpr (.inl rfl), rfl⟩
      · exact ⟨other, Table.mem_save.mpr (.inr ⟨hmem, fun h => hne (congrArg Id.key h)⟩), rfl⟩
    · rintro ⟨other, hmem, rfl⟩
      rcases Table.mem_save.mp hmem with rfl | ⟨hmem, hne⟩
      · exact .inl rfl
      · exact .inr ⟨⟨other, hmem, rfl⟩, fun hk => hne (Id.key_injective hk)⟩
  readsBack other hmem := by
    rcases Table.mem_save.mp hmem with rfl | ⟨hmem, -⟩
    · exact he
    · exact h.readsBack other hmem

/-- The entries are those of the entities, each once. -/
theorem entries_perm (h : Mirrors texts table) :
    (Fields.entries texts).Perm
      (table.entities.map fun entity => ((kind.id entity).key, (kind.toJson entity).compact)) := by
  have hkeys : ((table.entities.map fun entity =>
      ((kind.id entity).key, (kind.toJson entity).compact)).map Prod.fst).Nodup := by
    rw [List.map_map]
    have := table.distinct.map (f := Id.key) fun _ _ => Id.key_injective
    rwa [List.map_map] at this
  rw [List.perm_ext_iff_of_nodup (List.Nodup.of_map _ (Fields.distinct texts))
    (List.Nodup.of_map _ hkeys)]
  intro entry
  rw [h.entries, List.mem_map]
  exact exists_congr fun entity => and_congr_right fun _ => eq_comm

/-- Reading all texts in the order of their keys gives all entities in some order. -/
theorem scan (h : Mirrors texts table) :
    ∃ entities, (TextTable.scan texts).mapM (decode kind) = .ok entities ∧
      entities.Perm table.entities := by
  have hperm : (TextTable.scan texts).Perm
      (table.entities.map fun entity => (kind.toJson entity).compact) := by
    have := ((List.mergeSort_perm (Fields.entries texts) fun a b => compare a.1 b.1 != .gt).trans
      h.entries_perm).map Prod.snd
    rwa [List.map_map] at this
  have hread : ∀ entities : List kind.Entity, (∀ entity ∈ entities, kind.ReadsBack entity) →
      (entities.map fun entity => (kind.toJson entity).compact).mapM (decode kind)
        = .ok entities := by
    intro entities hall
    induction entities with
    | nil => rfl
    | cons entity rest ih =>
      obtain ⟨hentity, hrest⟩ := List.forall_mem_cons.mp hall
      rw [List.map_cons, List.mapM_cons, ih hrest,
        show decode kind (kind.toJson entity).compact = .ok entity from hentity]
      rfl
  obtain ⟨entities, hm, hentities⟩ := mapM_ok_perm hperm.symm (hread _ h.readsBack)
  exact ⟨entities, hm, hentities.symm⟩

theorem list (h : Mirrors texts table) (scope : kind.Scope) :
    TextTable.list texts kind scope = .ok (table.list scope) := by
  obtain ⟨entities, hm, hperm⟩ := h.scan
  have hd : (entities.map kind.id).Nodup := ((hperm.map kind.id).nodup_iff).mpr table.distinct
  unfold TextTable.list
  rw [hm]
  exact congrArg Except.ok (EntityKind.listing_perm hperm hd)

end TextTable.Mirrors

/-- A search through the texts of alerts finds what a search through the alerts does. -/
theorem TextTable.Mirrors.anyAlert {table : Table .alert} (h : Mirrors texts table)
    (test : Alert → Bool) :
    TextTable.anyAlert test (TextTable.scan texts) = .ok (table.entities.any test) := by
  have hread : ∀ text ∈ TextTable.scan texts, ∃ alert ∈ table.entities,
      decode .alert text = .ok alert := by
    intro text htext
    obtain ⟨entry, hentry, rfl⟩ := Repository.TextTable.mem_scan.mp htext
    obtain ⟨alert, hmem, rfl⟩ := (h.entries entry).mp hentry
    exact ⟨alert, hmem, h.readsBack alert hmem⟩
  have hspec := Repository.anyAlert_spec test (TextTable.scan texts)
  generalize TextTable.anyAlert test (TextTable.scan texts) = found at hspec ⊢
  match found, hspec with
  | .ok true, ⟨text, htext, alert, hd, ht⟩ =>
    obtain ⟨found, hmem, hd'⟩ := hread text htext
    rw [hd] at hd'
    cases hd'
    rw [List.any_eq_true.mpr ⟨alert, hmem, ht⟩]
  | .ok false, hno =>
    refine congrArg Except.ok (Eq.symm (List.any_eq_false.mpr fun alert hmem => ?_))
    obtain ⟨found, hd, ht⟩ := hno _ (Repository.TextTable.mem_scan.mpr
      ⟨_, (h.entries _).mpr ⟨alert, hmem, rfl⟩, rfl⟩)
    rw [show decode .alert (EntityKind.alert.toJson alert).compact = .ok alert from
      h.readsBack alert hmem] at hd
    cases hd
    exact ne_true_of_eq_false ht
  | .error _, ⟨text, htext, hno⟩ =>
    obtain ⟨alert, -, hd⟩ := hread text htext
    exact absurd hd (hno alert)

end

/-! ## All tables -/

/-- The texts of all kinds mirror the tables of all kinds. -/
def Mirrors (texts : KeyedRepository) (tables : MemoryRepository) : Prop :=
  ∀ kind, TextTable.Mirrors (texts.get kind) (tables.get kind)

/-- The same entities, met in other orders. -/
def MemoryRepository.Reordered (r r' : MemoryRepository) : Prop :=
  ∀ kind, (r'.get kind).entities.Perm (r.get kind).entities

theorem mirrors_empty : Mirrors .empty .empty := by
  intro kind
  unfold KeyedRepository.empty MemoryRepository.empty
  rw [Tables.get_all, Tables.get_all]
  exact .empty

namespace Mirrors

variable {texts : KeyedRepository} {tables tables' : MemoryRepository}

theorem reordered (h : Mirrors texts tables) (hr : tables.Reordered tables') :
    Mirrors texts tables' :=
  fun kind => (h kind).reordered (hr kind)

theorem save (h : Mirrors texts tables) {kind : EntityKind} {entity : kind.Entity}
    (he : kind.ReadsBack entity) :
    Mirrors (texts.set kind (TextTable.save (texts.get kind) kind entity))
      (tables.set kind ((tables.get kind).save entity)) := by
  intro other
  by_cases hk : other = kind
  · subst hk
    rw [Tables.get_set_self, Tables.get_set_self]
    exact (h other).save he
  · rw [Tables.get_set_of_ne _ hk, Tables.get_set_of_ne _ hk]
    exact h other

end Mirrors

/-- What a call would store. -/
def Call.saved : Call → Option ((kind : EntityKind) × kind.Entity)
  | .save kind entity => some ⟨kind, entity⟩
  | .createActive alert => some ⟨.alert, alert⟩
  | .get _ _ | .list _ _ => none

/-- Whatever a call would store can be read back. -/
def Call.Readable (call : Call) : Prop :=
  ∀ kind entity, call.saved = some ⟨kind, entity⟩ → kind.ReadsBack entity

/-- One call is answered alike on both sides, and succeeds. -/
theorem Mirrors.answer {texts : KeyedRepository} {tables : MemoryRepository}
    (h : Mirrors texts tables) {call : Call} (hc : call.Readable) :
    (∃ result, (tables.answer call).1 = .ok result) ∧
      (texts.answer call).1 = (tables.answer call).1 ∧
      Mirrors (texts.answer call).2 (tables.answer call).2 := by
  cases call with
  | get kind id => exact ⟨⟨_, rfl⟩, (h kind).get id, h⟩
  | list kind scope => exact ⟨⟨_, rfl⟩, (h kind).list scope, h⟩
  | save kind entity => exact ⟨⟨_, rfl⟩, rfl, h.save (hc kind entity rfl)⟩
  | createActive alert =>
    have hany := (h .alert).anyAlert (Alert.blocks alert.ruleId)
    change TextTable.anyAlert _ (TextTable.scan texts.alerts)
      = .ok (tables.alerts.entities.any _) at hany
    simp only [KeyedRepository.answer, MemoryRepository.answer, hany]
    cases tables.alerts.entities.any (Alert.blocks alert.ruleId) with
    | true => exact ⟨⟨false, rfl⟩, rfl, h⟩
    | false => exact ⟨⟨true, rfl⟩, rfl, h.save (hc .alert alert rfl)⟩

/-! ## Sessions -/

/-- An inquiry with its answer. -/
structure Exchange where
  inquiry : Inquiry
  answer : inquiry.Answer

/-- Inquiries one after the other, given how they may be answered. -/
inductive Session {ρ : Type} (answers : ρ → (inquiry : Inquiry) → inquiry.Answer → ρ → Prop)
    (r : ρ) : List Exchange → ρ → Prop
  | start : Session answers r [] r
  | ask {exchanges : List Exchange} {r₁ r₂ : ρ} {inquiry : Inquiry} {answer : inquiry.Answer} :
      Session answers r exchanges r₁ → answers r₁ inquiry answer r₂ →
      Session answers r (exchanges ++ [⟨inquiry, answer⟩]) r₂

/-- A repository in memory may go through its entities in another order each time. -/
def MemoryRepository.Answers (r : MemoryRepository) (inquiry : Inquiry) (answer : inquiry.Answer)
    (r' : MemoryRepository) : Prop :=
  ∃ met, r.Reordered met ∧ inquiry.answerBy met.answer = (answer, r')

def KeyedRepository.Answers (r : KeyedRepository) (inquiry : Inquiry) (answer : inquiry.Answer)
    (r' : KeyedRepository) : Prop :=
  inquiry.answerBy r.answer = (answer, r')

/-- Whatever an inquiry would store can be read back. -/
def Inquiry.Readable : Inquiry → Prop
  | .call c => c.Readable
  | .enabledRules | .activeAlert _ => True

/-- One inquiry is answered alike on both sides, and succeeds. -/
theorem Mirrors.answerBy {texts : KeyedRepository} {tables : MemoryRepository}
    (h : Mirrors texts tables) {inquiry : Inquiry} (hi : inquiry.Readable) :
    (∃ result, (inquiry.answerBy tables.answer).1 = .ok result) ∧
      (inquiry.answerBy texts.answer).1 = (inquiry.answerBy tables.answer).1 ∧
      Mirrors (inquiry.answerBy texts.answer).2 (inquiry.answerBy tables.answer).2 := by
  cases inquiry with
  | call c => exact h.answer hi
  | enabledRules =>
    refine ⟨⟨_, rfl⟩, ?_, h⟩
    exact congrArg (Except.map _) ((h .rule).list ())
  | activeAlert rule =>
    refine ⟨⟨_, rfl⟩, ?_, h⟩
    exact congrArg (Except.map _) ((h .alert).list (some rule))

theorem Session.eq_of_nil {ρ : Type}
    {answers : ρ → (inquiry : Inquiry) → inquiry.Answer → ρ → Prop} {r r' : ρ}
    (h : Session answers r [] r') : r' = r := by
  generalize hnil : [] = exchanges at h
  cases h with
  | start => rfl
  | ask h ha => simp at hnil

/-- A session that ends with an inquiry is a session before it and the answer to it. -/
theorem Session.snoc {ρ : Type} {answers : ρ → (inquiry : Inquiry) → inquiry.Answer → ρ → Prop}
    {r r' : ρ} {exchanges : List Exchange} (h : Session answers r exchanges r')
    {inquiries : List Inquiry} {inquiry : Inquiry}
    (hmap : exchanges.map Exchange.inquiry = inquiries ++ [inquiry]) :
    ∃ before answer r₁, exchanges = before ++ [⟨inquiry, answer⟩] ∧
      before.map Exchange.inquiry = inquiries ∧ Session answers r before r₁ ∧
      answers r₁ inquiry answer r' := by
  cases h with
  | start => simp at hmap
  | @ask before r₁ _ inquiry' answer h ha =>
    rw [List.map_append, List.map_singleton] at hmap
    obtain ⟨hbefore, hlast⟩ := List.append_inj' hmap rfl
    obtain rfl : inquiry' = inquiry := List.singleton_inj.mp hlast
    exact ⟨before, answer, r₁, rfl, hbefore, h, ha⟩

/-- The one session of some inquiries, whichever side is asked. -/
theorem exists_session (inquiries : List Inquiry)
    (hreadable : ∀ inquiry ∈ inquiries, inquiry.Readable) :
    ∃ exchanges texts tables, exchanges.map Exchange.inquiry = inquiries ∧
      (∀ exchange ∈ exchanges, ∃ result, exchange.answer = .ok result) ∧
      Session KeyedRepository.Answers .empty exchanges texts ∧
      Session MemoryRepository.Answers .empty exchanges tables ∧
      (∀ exchanges' texts', Session KeyedRepository.Answers .empty exchanges' texts' →
        exchanges'.map Exchange.inquiry = inquiries → exchanges' = exchanges ∧ texts' = texts) ∧
      (∀ exchanges' tables', Session MemoryRepository.Answers .empty exchanges' tables' →
        exchanges'.map Exchange.inquiry = inquiries →
        exchanges' = exchanges ∧ Mirrors texts tables') := by
  induction inquiries using List.reverseRecOn with
  | nil =>
    refine ⟨[], _, _, rfl, List.forall_mem_nil _, .start, .start, ?_, ?_⟩
    · intro exchanges' texts' h hmap
      obtain rfl := List.map_eq_nil_iff.mp hmap
      exact ⟨rfl, h.eq_of_nil⟩
    · intro exchanges' tables' h hmap
      obtain rfl := List.map_eq_nil_iff.mp hmap
      obtain rfl := h.eq_of_nil
      exact ⟨rfl, mirrors_empty⟩
  | append_singleton inquiries inquiry ih =>
    obtain ⟨hbefore, hlast⟩ := List.forall_mem_append.mp hreadable
    obtain ⟨exchanges, texts, tables, hmap, hok, hkeyed, hmemory, hkeyed', hmemory'⟩ := ih hbefore
    have hi : inquiry.Readable := hlast inquiry (List.mem_singleton.mpr rfl)
    have hmirrors : Mirrors texts tables := (hmemory' exchanges tables hmemory hmap).2
    obtain ⟨⟨result, hresult⟩, hanswer, -⟩ := hmirrors.answerBy hi
    refine ⟨exchanges ++ [⟨inquiry, (inquiry.answerBy texts.answer).1⟩],
      (inquiry.answerBy texts.answer).2, (inquiry.answerBy tables.answer).2, ?_, ?_,
      hkeyed.ask rfl, hmemory.ask ⟨tables, fun _ => .refl _, ?_⟩, ?_, ?_⟩
    · rw [List.map_append, hmap, List.map_singleton]
    · refine List.forall_mem_append.mpr ⟨hok, List.forall_mem_singleton.mpr ⟨result, ?_⟩⟩
      exact hanswer.trans hresult
    · exact Prod.ext hanswer.symm rfl
    · intro exchanges' texts' h hmap'
      obtain ⟨before, answer, r₁, rfl, hmap₁, hsession, ha⟩ := h.snoc hmap'
      obtain ⟨rfl, rfl⟩ := hkeyed' before r₁ hsession hmap₁
      have ha : inquiry.answerBy r₁.answer = (answer, texts') := ha
      rw [ha]
      exact ⟨rfl, rfl⟩
    · -- whatever order the entities are met in, the texts mirror them
      intro exchanges' tables' h hmap'
      obtain ⟨before, answer, r₁, rfl, hmap₁, hsession, met, hmet, ha⟩ := h.snoc hmap'
      obtain ⟨rfl, hmirrors₁⟩ := hmemory' before r₁ hsession hmap₁
      obtain ⟨-, hanswer', hmirrors'⟩ := (hmirrors₁.reordered hmet).answerBy hi
      rw [ha] at hanswer' hmirrors'
      rw [hanswer']
      exact ⟨rfl, hmirrors'⟩

/--
**The two makes agree.** Some inquiries are put, one after the other, to an empty repository in
memory and to an empty one over text, and whatever they would store can be read back. Then there is
one list of answers, all of them successes, that either repository gives; and it gives no other,
whatever the order in which the one in memory goes through its entities each time.
-/
theorem repositories_agree (inquiries : List Inquiry)
    (hreadable : ∀ inquiry ∈ inquiries, inquiry.Readable) :
    ∃ exchanges : List Exchange, exchanges.map Exchange.inquiry = inquiries ∧
      (∀ exchange ∈ exchanges, ∃ result, exchange.answer = .ok result) ∧
      (∃ texts, Session KeyedRepository.Answers .empty exchanges texts) ∧
      (∃ tables, Session MemoryRepository.Answers .empty exchanges tables) ∧
      ∀ exchanges', exchanges'.map Exchange.inquiry = inquiries →
        (∃ texts, Session KeyedRepository.Answers .empty exchanges' texts) ∨
          (∃ tables, Session MemoryRepository.Answers .empty exchanges' tables) →
        exchanges' = exchanges := by
  obtain ⟨exchanges, texts, tables, hmap, hok, hkeyed, hmemory, hkeyed', hmemory'⟩ :=
    exists_session inquiries hreadable
  refine ⟨exchanges, hmap, hok, ⟨texts, hkeyed⟩, ⟨tables, hmemory⟩, ?_⟩
  rintro exchanges' hmap' (⟨texts', h⟩ | ⟨tables', h⟩)
  · exact (hkeyed' exchanges' texts' h hmap').1
  · exact (hmemory' exchanges' tables' h hmap').1

/-- A dashboard is saved, read and listed: over text the answers are those given in memory. -/
theorem dashboard_saved_and_listed :
    let dashboard := Dashboard.new ⟨⟨7⟩⟩ "Latency"
    let inquiries : List Inquiry := [.call (.save .dashboard dashboard),
      .call (.get .dashboard dashboard.id), .call (.list .dashboard ())]
    (∀ inquiry ∈ inquiries, inquiry.Readable) ∧
      ∃ texts, Session KeyedRepository.Answers .empty
        [⟨.call (.save .dashboard dashboard), .ok ()⟩,
          ⟨.call (.get .dashboard dashboard.id), .ok (some dashboard)⟩,
          ⟨.call (.list .dashboard ()), .ok [dashboard]⟩] texts := by
  intro dashboard inquiries
  have hread : EntityKind.dashboard.ofDraft? ⟨7⟩ (Draft.ofJson (.object [("name",
      .string "Latency")])) = some dashboard := rfl
  have hback : EntityKind.dashboard.ReadsBack dashboard :=
    EntityKind.decode_compact hread ⟨by decide, trivial, trivial, trivial, trivial⟩
  have hreadable : ∀ inquiry ∈ inquiries, inquiry.Readable := by
    refine List.forall_mem_cons.mpr ⟨?_, List.forall_mem_cons.mpr ⟨?_,
      List.forall_mem_singleton.mpr ?_⟩⟩ <;> rintro kind entity ⟨⟩
    exact hback
  refine ⟨hreadable, ?_⟩
  obtain ⟨exchanges, -, -, hkeyed, -, honly⟩ := repositories_agree inquiries hreadable
  have hlisting : EntityKind.dashboard.listing () [dashboard] = [dashboard] :=
    List.mergeSort_singleton _
  let tables : MemoryRepository :=
    MemoryRepository.empty.set .dashboard (Table.empty.save dashboard)
  have hmemory : Session MemoryRepository.Answers .empty
      [⟨.call (.save .dashboard dashboard), .ok ()⟩,
        ⟨.call (.get .dashboard dashboard.id), .ok (some dashboard)⟩,
        ⟨.call (.list .dashboard ()), .ok [dashboard]⟩] tables :=
    ((Session.start.ask ⟨.empty, fun _ => .refl _, rfl⟩).ask ⟨tables, fun _ => .refl _, rfl⟩).ask
      ⟨tables, fun _ => .refl _, Prod.ext (congrArg Except.ok hlisting) rfl⟩
  rwa [honly _ rfl (.inr ⟨_, hmemory⟩)]

end Bulletin
