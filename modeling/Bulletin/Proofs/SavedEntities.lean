import Bulletin.Proofs.LastingEntities
import Bulletin.Proofs.RepositoriesAgree
import Bulletin.Proofs.WholeNumbers

/-!
# What is saved and what is read

A repository over text takes every entity. Whether the entity is read back is another matter: its
text must be one that readers take, with every number read as the number that was written, and the
entity must be one that lasts. An entity whose text is not read at all does not only lose itself; as
a listing reads all texts, no listing of its kind succeeds any more.

* `EntityKind.readsBack_iff` — which texts read as their entity
* `TextTable.get_save`, `TextTable.listed_iff` — one table
* `KeyedRepository.get_answer_save`, `KeyedRepository.lists_answer_save_iff` — a repository
* `saved_entity_read_back_iff` — all that a save decides
* `KeyedRepository.blocked_of_depth` — what one entity does that is nested too deep
-/

namespace Bulletin

/-! ## Texts of entities -/

namespace EntityKind

variable {kind : EntityKind} {entity : kind.Entity}

/-- Whatever the text of an entity is read as, the entity is not nested deeper than readers go, and
it is read from a draft that stands for what was written. -/
theorem standsFor_of_decode {found : kind.Entity}
    (h : TextTable.decode kind (kind.toJson entity).compact = .ok found) :
    (kind.toJson entity).depth ≤ Json.depthLimit ∧
      ∃ d, (kind.toJson entity).StandsFor d ∧ kind.ofDraft? default d = some found := by
  unfold TextTable.decode at h
  split at h
  · cases h
  next d hd =>
  obtain ⟨hstands, hdepth⟩ := Draft.read_of_ofText hd
  split at h
  · next hfound =>
    cases h
    exact ⟨hdepth, d, hstands, hfound⟩
  · cases h

/-- **Reading back.** The text of an entity reads as the entity if all of it can be read and the
entity lasts, and in no other case. -/
theorem readsBack_iff :
    kind.ReadsBack entity ↔ (kind.toJson entity).Legible ∧ kind.Lasts entity := by
  constructor
  · intro h
    obtain ⟨hdepth, d, hstands, hread⟩ := standsFor_of_decode h
    obtain ⟨rfl, hlasts⟩ := (kind.recovers default hstands).mp hread
    exact ⟨⟨hdepth, (Json.standsFor_ofJson _).mp hstands⟩, hlasts⟩
  · rintro ⟨hlegible, hlasts⟩
    have hstands := (Json.standsFor_ofJson _).mpr hlegible.numbers
    have hread := (kind.recovers default hstands).mpr ⟨rfl, hlasts⟩
    rw [ReadsBack, TextTable.decode, hlegible.ofText_compact]
    simp only [hread]

/-- Every entity is in the scope of some listing. -/
theorem exists_inScope (entity : kind.Entity) : ∃ scope, kind.inScope scope entity = true := by
  cases kind with
  | report => exact ⟨(), rfl⟩
  | execution => exact ⟨entity.reportId, decide_eq_true rfl⟩
  | dashboard => exact ⟨(), rfl⟩
  | widget => exact ⟨entity.dashboardId, decide_eq_true rfl⟩
  | rule => exact ⟨(), rfl⟩
  | alert => exact ⟨none, rfl⟩

end EntityKind

/-! ## One table -/

/-- Reading all of some things succeeds if each of them can be read. -/
theorem exists_mapM_ok_iff {ε α β : Type} {f : α → Except ε β} {as : List α} :
    (∃ bs, as.mapM f = .ok bs) ↔ ∀ a ∈ as, ∃ b, f a = .ok b := by
  induction as with
  | nil => exact iff_of_true ⟨[], rfl⟩ fun _ h => absurd h List.not_mem_nil
  | cons a as ih =>
    rw [List.forall_mem_cons, ← ih, List.mapM_cons]
    constructor
    · rintro ⟨_, h⟩
      obtain ⟨b, hb, h⟩ := bind_eq_ok.mp h
      obtain ⟨bs, hbs, -⟩ := bind_eq_ok.mp h
      exact ⟨⟨b, hb⟩, bs, hbs⟩
    · rintro ⟨⟨b, hb⟩, bs, hbs⟩
      exact ⟨b :: bs, by rw [hb, hbs]; rfl⟩

namespace TextTable

variable {texts : TextTable} {kind : EntityKind} {entity : kind.Entity}

/-- What was saved is read from its text, and all else as before. -/
theorem get_save (texts : TextTable) (entity : kind.Entity) (id : Id kind) :
    get (save texts kind entity) kind id
      = if kind.id entity = id then (decode kind (kind.toJson entity).compact).map some
        else get texts kind id := by
  unfold get save
  rw [Fields.get?_insert]
  by_cases hid : kind.id entity = id
  · rw [if_pos hid, if_pos (congrArg Id.key hid)]
  · rw [if_neg hid, if_neg fun hkey => hid (Id.key_injective hkey)]

/-- A listing succeeds if every text can be read, whatever the listing is about. -/
theorem listed_iff {scope : kind.Scope} :
    (∃ entities, list texts kind scope = .ok entities) ↔
      ∀ entry ∈ Fields.entries texts, ∃ found, decode kind entry.2 = .ok found := by
  have hscan : (∃ entities, list texts kind scope = .ok entities) ↔
      ∃ entities, (scan texts).mapM (decode kind) = .ok entities := by
    unfold list
    cases (scan texts).mapM (decode kind) with
    | error e => exact iff_of_false nofun nofun
    | ok found => exact iff_of_true ⟨_, rfl⟩ ⟨_, rfl⟩
  rw [hscan, exists_mapM_ok_iff]
  constructor
  · intro h entry hentry
    exact h _ (Repository.TextTable.mem_scan.mpr ⟨entry, hentry, rfl⟩)
  · intro h text htext
    obtain ⟨entry, hentry, rfl⟩ := Repository.TextTable.mem_scan.mp htext
    exact h entry hentry

/-- After all listings have succeeded, one more text decides whether they still do. -/
theorem listed_save_iff {scope : kind.Scope}
    (h : ∃ entities, list texts kind scope = .ok entities) :
    (∃ entities, list (save texts kind entity) kind scope = .ok entities) ↔
      ∃ found, decode kind (kind.toJson entity).compact = .ok found := by
  rw [listed_iff] at h ⊢
  constructor
  · intro hall
    have hnew : ((kind.id entity).key, (kind.toJson entity).compact)
        ∈ Fields.entries (save texts kind entity) :=
      (mem_putEntry (Fields.distinct texts)).mpr (.inl rfl)
    obtain ⟨found, hfound⟩ := hall _ hnew
    exact ⟨found, hfound⟩
  · rintro ⟨found, hfound⟩ entry hentry
    rcases (mem_putEntry (Fields.distinct texts)).mp hentry with rfl | ⟨hentry, -⟩
    · exact ⟨found, hfound⟩
    · exact h entry hentry

end TextTable

/-! ## A repository -/

namespace KeyedRepository

variable {r : KeyedRepository} {kind : EntityKind} {entity : kind.Entity}

/-- All listings of a kind succeed. -/
def Lists (r : KeyedRepository) (kind : EntityKind) : Prop :=
  ∀ scope, ∃ entities, (r.answer (.list kind scope)).1 = .ok entities

theorem lists_empty (kind : EntityKind) : empty.Lists kind := by
  intro scope
  change ∃ entities, TextTable.list (empty.get kind) kind scope = .ok entities
  rw [empty, Tables.get_all]
  exact TextTable.listed_iff.mpr fun _ h => absurd h List.not_mem_nil

/-- A save always succeeds. It puts the text of the entity into the table of its kind. -/
theorem answer_save (r : KeyedRepository) (entity : kind.Entity) :
    ∃ after, r.answer (.save kind entity) = (.ok (), after) ∧
      after.get kind = TextTable.save (r.get kind) kind entity ∧
      ∀ other, other ≠ kind → after.get other = r.get other :=
  ⟨_, rfl, Tables.get_set_self .., fun _ h => Tables.get_set_of_ne r h _⟩

variable {after : KeyedRepository}

/-- What `get` answers when the entity is in its table. -/
theorem get_answer_save (htable : after.get kind = TextTable.save (r.get kind) kind entity)
    (id : Id kind) :
    (after.answer (.get kind id)).1
      = if kind.id entity = id then (TextTable.decode kind (kind.toJson entity).compact).map some
        else (r.answer (.get kind id)).1 := by
  change TextTable.get (after.get kind) kind id = _
  rw [htable, TextTable.get_save]
  rfl

theorem get_answer_save_eq_ok_iff
    (htable : after.get kind = TextTable.save (r.get kind) kind entity) {found : kind.Entity} :
    (after.answer (.get kind (kind.id entity))).1 = .ok (some found) ↔
      TextTable.decode kind (kind.toJson entity).compact = .ok found := by
  rw [get_answer_save htable, if_pos rfl]
  cases TextTable.decode kind (kind.toJson entity).compact with
  | error e => simp [Except.map]
  | ok other => simp [Except.map]

theorem lists_answer_save_iff (hr : r.Lists kind)
    (htable : after.get kind = TextTable.save (r.get kind) kind entity) :
    after.Lists kind ↔ ∃ found, TextTable.decode kind (kind.toJson entity).compact = .ok found := by
  change (∀ scope, ∃ entities, TextTable.list (after.get kind) kind scope = .ok entities) ↔ _
  rw [htable]
  constructor
  · intro h
    obtain ⟨scope, -⟩ := EntityKind.exists_inScope entity
    exact (TextTable.listed_save_iff (hr scope)).mp (h scope)
  · exact fun h scope => (TextTable.listed_save_iff (hr scope)).mpr h

end KeyedRepository

/-! ## A rule and a report -/

/-- The double `0.75`. -/
def threeQuarters : Finite64 := ⟨false, 3 * 2 ^ 1072, by decide +kernel⟩

/-- An instant with milliseconds. -/
def someMoment : Instant := ⟨1700000000, 250000000, by decide, by decide⟩

/-- A rule with a threshold, evaluated before. -/
def highLoad : AlertRule :=
  { AlertRule.new ⟨.ofNat 2⟩ "high load" (.plain "load" .dataset)
      ⟨.finite threeQuarters, .greaterThan⟩ with lastEvaluatedAt := some someMoment }

/-- A report that is run every hour, with the result of its last run. -/
def loadWithResult : Report :=
  { Report.new ⟨.ofNat 1⟩ "load" with
    cache := ⟨some (.object [("rows", .int 3)]), some someMoment, 60⟩
    schedule := some ⟨60, true⟩
    lastScheduledAt := some someMoment }

theorem readsBack_threeQuarters : (Json.Number.real threeQuarters).ReadsBack := by
  have htext : (Json.Number.real threeQuarters).text = ['0', '.', '7', '5'] := by decide +kernel
  have hvalue : Json.Numeral.value? ⟨false, ['0'], some ['7', '5'], none⟩
      = some (.real threeQuarters) := by
    decide +kernel
  exact Json.Number.readsBack_of_readNumber htext (by decide)
    (Json.readNumber_of_parts rfl rfl rfl hvalue)

theorem momentLasts_someMoment : MomentLasts (some someMoment) := by
  rintro t ⟨⟩
  exact .inl (by decide)

theorem legible_highLoad : (EntityKind.rule.toJson highLoad).Legible :=
  ⟨by decide, trivial, trivial, ⟨trivial, trivial, trivial, trivial⟩, trivial,
    ⟨readsBack_threeQuarters, trivial, trivial⟩, trivial, Json.numbersReadBack_word32 5, trivial,
    trivial, trivial, trivial⟩

theorem lasts_highLoad : EntityKind.rule.Lasts highLoad where
  source := ⟨rfl, List.forall_mem_nil _⟩
  parameters := List.forall_mem_nil _
  threshold := rfl
  lastEvaluatedAt := momentLasts_someMoment

theorem legible_loadWithResult : (EntityKind.report.toJson loadWithResult).Legible := by
  have hrows := Json.Number.readsBack_int (show Json.FitsWord 3 by decide)
  have hcache : loadWithResult.cache.toJson.NumbersReadBack :=
    ⟨⟨hrows, trivial⟩, trivial, Json.numbersReadBack_word32 60, trivial⟩
  have hquery : (QueryConfig.empty.toJson).NumbersReadBack := ⟨trivial, trivial, trivial, trivial⟩
  have hschedule : (Schedule.toJson ⟨60, true⟩).NumbersReadBack :=
    ⟨Json.numbersReadBack_word32 60, trivial, trivial⟩
  exact ⟨by decide, trivial, trivial, trivial, hquery, ⟨trivial, trivial⟩, trivial, hcache,
    hschedule, trivial, trivial⟩

theorem lasts_loadWithResult : EntityKind.report.Lasts loadWithResult where
  sources := List.forall_mem_nil _
  query := ⟨List.forall_mem_nil _, List.forall_mem_nil _, List.forall_mem_nil _⟩
  charts := List.forall_mem_nil _
  formats := List.forall_mem_nil _
  cache :=
    { payload := by
        rintro v ⟨⟩
        exact ⟨nofun, by decide, by decide, trivial, trivial⟩
      cachedAt := momentLasts_someMoment }
  lastScheduledAt := momentLasts_someMoment

/-! ## Saving and reading -/

/-- **Saving and reading back.** A repository whose listings succeed takes any entity. Then the
entity is read back and the listings of its kind still succeed if its text is legible and it lasts,
and in no other case. The listings fail if the entity is not read at all. Nothing else changes:
other entities of the kind are read as before, and so are all entities of other kinds. -/
theorem saved_entity_read_back_iff {r : KeyedRepository} (hr : ∀ kind, r.Lists kind)
    (kind : EntityKind) (entity : kind.Entity) :
    ∃ after, r.answer (.save kind entity) = (.ok (), after) ∧
      ((after.answer (.get kind (kind.id entity))).1 = .ok (some entity) ∧ after.Lists kind ↔
        (kind.toJson entity).Legible ∧ kind.Lasts entity) ∧
      (after.Lists kind ↔
        ∃ found, (after.answer (.get kind (kind.id entity))).1 = .ok (some found)) ∧
      (∀ id, id ≠ kind.id entity →
        (after.answer (.get kind id)).1 = (r.answer (.get kind id)).1) ∧
      ∀ other, other ≠ kind → after.get other = r.get other ∧ after.Lists other := by
  obtain ⟨after, hsave, htable, hothers⟩ := KeyedRepository.answer_save r entity
  have hlists := KeyedRepository.lists_answer_save_iff (hr kind) htable
  refine ⟨after, hsave, ?_, ?_, fun id hid => ?_, fun other hother => ⟨hothers other hother, ?_⟩⟩
  · rw [KeyedRepository.get_answer_save_eq_ok_iff htable, ← EntityKind.readsBack_iff]
    exact ⟨fun h => h.1, fun h => ⟨h, hlists.mpr ⟨entity, h⟩⟩⟩
  · rw [hlists]
    exact exists_congr fun _ => (KeyedRepository.get_answer_save_eq_ok_iff htable).symm
  · rw [KeyedRepository.get_answer_save htable, if_neg hid.symm]
  · intro scope
    obtain ⟨entities, h⟩ := hr other scope
    refine ⟨entities, ?_⟩
    change TextTable.list (after.get other) other scope = _
    rw [hothers other hother]
    exact h

/-- A rule is saved, and then a report, each with all that can be lost in a text: a threshold, a
payload, times. Both are read back. -/
theorem rule_and_report_read_back :
    ∃ before after, KeyedRepository.empty.answer (.save .rule highLoad) = (.ok (), before) ∧
      (∀ kind, before.Lists kind) ∧
      ((EntityKind.report.toJson loadWithResult).Legible ∧
        EntityKind.report.Lasts loadWithResult) ∧
      before.answer (.save .report loadWithResult) = (.ok (), after) ∧
      (∀ kind, after.Lists kind) ∧
      (after.answer (.get .report loadWithResult.id)).1 = .ok (some loadWithResult) ∧
      (after.answer (.get .rule highLoad.id)).1 = .ok (some highLoad) := by
  obtain ⟨before, hsave, hback, -, -, hothers⟩ :=
    saved_entity_read_back_iff KeyedRepository.lists_empty .rule highLoad
  obtain ⟨hrule, hrules⟩ := hback.mpr ⟨legible_highLoad, lasts_highLoad⟩
  have hlists : ∀ kind, before.Lists kind := fun kind => by
    by_cases hkind : kind = .rule
    · exact hkind ▸ hrules
    · exact (hothers kind hkind).2
  -- the second repository holds the rule
  obtain ⟨after, hsave', hback', -, -, hothers'⟩ :=
    saved_entity_read_back_iff hlists .report loadWithResult
  obtain ⟨hreport, hreports⟩ := hback'.mpr ⟨legible_loadWithResult, lasts_loadWithResult⟩
  refine ⟨before, after, hsave, hlists, ⟨legible_loadWithResult, lasts_loadWithResult⟩, hsave',
    fun kind => ?_, hreport, ?_⟩
  · by_cases hkind : kind = .report
    · exact hkind ▸ hreports
    · exact (hothers' kind hkind).2
  · have hsame : after.get .rule = before.get .rule := (hothers' .rule nofun).1
    change TextTable.get (after.get .rule) .rule highLoad.id = _
    rw [hsame]
    exact hrule

/-! ## Entities that are nested too deep -/

/-- An entity that is nested deeper than readers go is saved, and from then on neither it nor any
listing of its kind can be read. -/
theorem KeyedRepository.blocked_of_depth {r : KeyedRepository} {kind : EntityKind}
    {entity : kind.Entity} (hr : r.Lists kind)
    (hdeep : Json.depthLimit < (kind.toJson entity).depth) :
    ∃ after, r.answer (.save kind entity) = (.ok (), after) ∧
      (∀ found, (after.answer (.get kind (kind.id entity))).1 ≠ .ok found) ∧
      ∀ scope entities, (after.answer (.list kind scope)).1 ≠ .ok entities := by
  have hunread : ∀ found, TextTable.decode kind (kind.toJson entity).compact ≠ .ok found :=
    fun found h => absurd (EntityKind.standsFor_of_decode h).1 (Nat.not_le.mpr hdeep)
  obtain ⟨after, hsave, htable, -⟩ := answer_save r entity
  refine ⟨after, hsave, fun found => ?_, fun scope entities hlist => ?_⟩
  · rw [get_answer_save htable, if_pos rfl]
    cases hread : TextTable.decode kind (kind.toJson entity).compact with
    | error e => simp [Except.map]
    | ok other => exact absurd hread (hunread other)
  · change TextTable.list (after.get kind) kind scope = .ok entities at hlist
    rw [htable] at hlist
    obtain ⟨found, hfound⟩ := (TextTable.listed_save_iff (hr scope)).mp ⟨entities, hlist⟩
    exact hunread found hfound

theorem Json.depth_lt_of_mem {members : List (String × Json)} {k : String} {v : Json}
    (h : (k, v) ∈ members) : v.depth < (Json.object members).depth := by
  rw [Json.depth, Nat.lt_succ_iff]
  induction members with
  | nil => exact absurd h List.not_mem_nil
  | cons m rest ih =>
    rw [Json.membersDepth]
    rcases List.mem_cons.mp h with rfl | h
    · exact Nat.le_max_left _ _
    · exact (ih h).trans (Nat.le_max_right _ _)

/-- Arrays within arrays, so many around the innermost one. -/
def nestedArrays : Nat → Json
  | 0 => .array []
  | n + 1 => .array [nestedArrays n]

theorem depth_nestedArrays (n : Nat) : (nestedArrays n).depth = n + 1 := by
  induction n with
  | zero => rfl
  | succ n ih => rw [nestedArrays, Json.depth, Json.itemsDepth, Json.itemsDepth, ih, Nat.max_zero]

/-- A report with the result of a run that came upon a deep value. -/
def deepReport (n : Nat) : Report :=
  { Report.new ⟨.ofNat 1⟩ "load" with
    cache := { Cache.new with payload := some (nestedArrays n) } }

theorem lt_depth_deepReport (n : Nat) :
    n + 2 < (EntityKind.report.toJson (deepReport n)).depth := by
  have hpayload : (nestedArrays n).depth < ((deepReport n).cache.toJson).depth :=
    @Json.depth_lt_of_mem _ "payload" _ List.mem_cons_self
  have hcache : ((deepReport n).cache.toJson).depth
      < (EntityKind.report.toJson (deepReport n)).depth :=
    @Json.depth_lt_of_mem _ "cache" _ (by simp [deepReport])
  rw [depth_nestedArrays] at hpayload
  omega

/-- One such report, in an empty repository. -/
theorem deepReport_blocks_listings :
    (∀ kind, KeyedRepository.empty.Lists kind) ∧
      ∃ after, KeyedRepository.empty.answer (.save .report (deepReport 125)) = (.ok (), after) ∧
        (∀ found, (after.answer (.get .report (deepReport 125).id)).1 ≠ .ok found) ∧
        ∀ scope entities, (after.answer (.list .report scope)).1 ≠ .ok entities :=
  ⟨KeyedRepository.lists_empty,
    KeyedRepository.blocked_of_depth (KeyedRepository.lists_empty .report)
      (lt_depth_deepReport 125)⟩

end Bulletin
