import Bulletin.Proofs.CompactText
import Bulletin.Proofs.IdentText
import Mathlib.Data.List.Basic

/-!
# The spellings of an identifier

Which texts name an identifier is said here without the reader: 32 digits of either case, bare or
with hyphens, the hyphenated form also in braces or behind its name space, and before any of these
the tag of the kind or nothing. The reader accepts these texts and no others.

No spelling of a number has an underscore, and no tag has one. So the tag of a text is what stands
before its first underscore, and a text with the tag of one kind is refused by every other kind.

* `Uuid.ofChars?_eq_some_iff` — the texts of a number
* `Id.ofString?_eq_some_iff` — the texts of an identifier
* `Id.ofString?_of_other_tag` — the tag of another kind
* `Id.texts_of_identifier` — the three texts that are written
-/

namespace Bulletin

/-! ## Digits of either case -/

namespace Json

theorem hexValue?_toLower (c : Char) : hexValue? c.toLower = hexValue? c := by
  by_cases hc : c.toNat < 128
  · have hall : ∀ n < 128, hexValue? (Char.ofNat n).toLower = hexValue? (Char.ofNat n) := by
      decide
    have h := hall c.toNat hc
    rwa [Char.ofNat_toNat] at h
  · have hlower : c.toLower = c := by
      unfold Char.toLower
      refine dif_neg ?_
      rintro ⟨-, hle⟩
      have hle : c.toNat ≤ 90 := hle
      omega
    rw [hlower]

theorem toNat_lt_of_hexValue? {c : Char} {n : Nat} (h : hexValue? c = some n) : c.toNat < 128 := by
  unfold hexValue? at h
  split at h
  · next hdigit =>
    simp only [Char.isDigit, Bool.and_eq_true, decide_eq_true_eq] at hdigit
    exact Nat.lt_of_le_of_lt hdigit.2 (by decide)
  · split at h
    · next hsmall => exact Nat.lt_of_le_of_lt hsmall.2 (by decide)
    · split at h
      · next hcapital => exact Nat.lt_of_le_of_lt hcapital.2 (by decide)
      · cases h

theorem toLower_of_hexValue? {c : Char} {n : Nat} (h : hexValue? c = some n) :
    n < 16 ∧ c.toLower = hexDigit n := by
  have hall : ∀ k < 128, (hexValue? (Char.ofNat k)).all
      (fun n => n < 16 ∧ (Char.ofNat k).toLower = hexDigit n) = true := by decide
  have hc := hall c.toNat (toNat_lt_of_hexValue? h)
  rw [Char.ofNat_toNat, h] at hc
  exact of_decide_eq_true hc

end Json

namespace Uuid

variable {u : Uuid} {digits text : List Char} {values : List Nat}

theorem digits_of_mapM (h : digits.mapM Json.hexValue? = some values) :
    (∀ d ∈ values, d < 16) ∧ digits.map Char.toLower = values.map Json.hexDigit := by
  induction digits generalizing values with
  | nil =>
    cases h
    exact ⟨fun d hd => absurd hd List.not_mem_nil, rfl⟩
  | cons c digits ih =>
    rw [List.mapM_cons] at h
    obtain ⟨n, hn, h⟩ := Option.bind_eq_some_iff.mp h
    obtain ⟨rest, hrest, h⟩ := Option.bind_eq_some_iff.mp h
    cases h
    obtain ⟨hlt, hdigit⟩ := Json.toLower_of_hexValue? hn
    obtain ⟨hall, hdigits⟩ := ih hrest
    exact ⟨List.forall_mem_cons.mpr ⟨hlt, hall⟩, by
      rw [List.map_cons, List.map_cons, hdigit, hdigits]⟩

/-- Digits that are gathered behind a start leave the start on top. -/
theorem foldl_div_pow (h : ∀ d ∈ values, d < 16) (start : Nat) :
    values.foldl (fun n d => n * 16 + d) start / 16 ^ values.length = start := by
  induction values generalizing start with
  | nil => simp
  | cons d values ih =>
    obtain ⟨hd, h⟩ := List.forall_mem_cons.mp h
    rw [List.foldl_cons, List.length_cons, Nat.pow_succ, ← Nat.div_div_eq_div_mul, ih h]
    omega

theorem hexDigits_foldl (h : ∀ d ∈ values, d < 16) (start : Nat) :
    hexDigits values.length (values.foldl (fun n d => n * 16 + d) start)
      = values.map Json.hexDigit := by
  induction values generalizing start with
  | nil => rfl
  | cons d values ih =>
    obtain ⟨hd, h⟩ := List.forall_mem_cons.mp h
    have hmod : (start * 16 + d) % 16 = d := by omega
    rw [List.foldl_cons, List.length_cons, hexDigits, foldl_div_pow h, hmod, ih h, List.map_cons]

/-- A text of the digits of a number, each in either case. -/
def HasDigits (u : Uuid) (digits : List Char) : Prop :=
  digits.map Char.toLower = hexDigits 32 u.value.toNat

theorem HasDigits.length_eq (h : u.HasDigits digits) : digits.length = 32 := by
  rw [← List.length_map Char.toLower, h, length_hexDigits]

theorem hasDigits_hexDigits (u : Uuid) : u.HasDigits (hexDigits 32 u.value.toNat) := by
  refine (List.map_congr_left fun c hc => ?_).trans (List.map_id _)
  obtain ⟨d, hd, rfl⟩ := exists_of_mem_hexDigits hc
  have hall : ∀ d < 16, (Json.hexDigit d).toLower = Json.hexDigit d := by decide
  exact hall d hd

/-- A character that is no digit and has no other case is not among the digits. -/
theorem HasDigits.notMem {c : Char} (h : u.HasDigits digits) (hlower : c.toLower = c)
    (hc : ∀ d < 16, Json.hexDigit d ≠ c) : c ∉ digits := by
  intro hmem
  have hmem : c ∈ hexDigits 32 u.value.toNat := by
    rw [← h, ← hlower]
    exact List.mem_map_of_mem hmem
  obtain ⟨d, hd, heq⟩ := exists_of_mem_hexDigits hmem
  exact hc d hd heq.symm

theorem ofDigits?_eq_some_iff : ofDigits? digits = some u ↔ u.HasDigits digits := by
  constructor
  · intro h
    unfold ofDigits? at h
    split at h
    · next hlength =>
      obtain ⟨values, hvalues, rfl⟩ := Option.map_eq_some_iff.mp h
      obtain ⟨hlt, hdigits⟩ := digits_of_mapM hvalues
      have hcount : values.length = 32 := by
        rw [← hlength, ← List.length_map Char.toLower, hdigits, List.length_map]
      -- nothing is left above the 32 digits, so the value fits
      have hfits : values.foldl (fun n d => n * 16 + d) 0 < 2 ^ 128 := by
        have hdiv := foldl_div_pow hlt 0
        rw [hcount] at hdiv
        exact (Nat.div_eq_zero_iff.mp hdiv).resolve_left (by decide)
      have hread := hexDigits_foldl hlt 0
      rw [hcount] at hread
      rw [HasDigits, hdigits, ofNat, BitVec.toNat_ofNat, Nat.mod_eq_of_lt hfits, hread]
    · cases h
  · intro h
    have hsmall : (digits.map Char.toLower).mapM Json.hexValue? = digits.mapM Json.hexValue? := by
      rw [List.mapM_map]
      exact congrArg (List.mapM · digits) (funext Json.hexValue?_toLower)
    rw [← ofDigits?_hexDigits u, ← h, ofDigits?, ofDigits?, hsmall, List.length_map]

/-! ## Spellings of a number -/

/-- The texts that spell a number. -/
inductive Spells (u : Uuid) : List Char → Prop
  | bare {digits : List Char} (h : u.HasDigits digits) : Spells u digits
  | hyphenated {digits : List Char} (h : u.HasDigits digits) : Spells u (hyphenate digits)
  | braced {digits : List Char} (h : u.HasDigits digits) :
    Spells u ('\x7b' :: (hyphenate digits ++ ['\x7d']))
  | named {space digits : List Char} (hspace : space.map Char.toLower = nameSpace)
    (h : u.HasDigits digits) : Spells u (space ++ hyphenate digits)

theorem ofHyphenated?_eq_some_iff :
    ofHyphenated? text = some u ↔ ∃ digits, u.HasDigits digits ∧ text = hyphenate digits := by
  constructor
  · intro h
    obtain ⟨heq, h⟩ := Option.ite_none_right_eq_some.mp h
    exact ⟨_, ofDigits?_eq_some_iff.mp h, heq⟩
  · rintro ⟨digits, h, rfl⟩
    have hbare : (hyphenate digits).filter (· ≠ '-') = digits := by
      refine filter_hyphenate fun c hc => ?_
      rintro rfl
      exact h.notMem (by decide) (fun d hd => Json.hexDigit_ne_hyphen hd) hc
    unfold ofHyphenated?
    rw [hbare]
    exact (if_pos rfl).trans (ofDigits?_eq_some_iff.mpr h)

theorem ofDigits?_of_length (h : text.length ≠ 32) : ofDigits? text = none := if_neg h

theorem ofHyphenated?_of_length (h : text.length ≠ 36) : ofHyphenated? text = none := by
  refine Option.eq_none_iff_forall_ne_some.mpr fun u hu => h ?_
  obtain ⟨digits, hdigits, rfl⟩ := ofHyphenated?_eq_some_iff.mp hu
  exact length_hyphenate hdigits.length_eq

/-- **The texts of a number.** The reader accepts the spellings of a number and nothing else. -/
theorem ofChars?_eq_some_iff : ofChars? text = some u ↔ u.Spells text := by
  constructor
  · intro h
    unfold ofChars? at h
    split at h
    · next hdigits =>
      cases h
      exact .bare (ofDigits?_eq_some_iff.mp hdigits)
    · split at h
      · next hhyphenated =>
        cases h
        obtain ⟨digits, hdigits, rfl⟩ := ofHyphenated?_eq_some_iff.mp hhyphenated
        exact .hyphenated hdigits
      · split at h
        · next hspace =>
          obtain ⟨digits, hdigits, heq⟩ := ofHyphenated?_eq_some_iff.mp h
          rw [← List.take_append_drop nameSpace.length text, heq]
          exact .named hspace hdigits
        · split at h
          · next rest =>
            split at h
            · next hlast =>
              obtain ⟨digits, hdigits, heq⟩ := ofHyphenated?_eq_some_iff.mp h
              rw [← List.dropLast_append_getLast? _ hlast, heq]
              exact .braced hdigits
            · cases h
          · cases h
  · intro h
    cases h with
    | bare h =>
      unfold ofChars?
      rw [ofDigits?_eq_some_iff.mpr h]
    | hyphenated h =>
      have hlength := length_hyphenate h.length_eq
      unfold ofChars?
      rw [ofDigits?_of_length (by omega), ofHyphenated?_eq_some_iff.mpr ⟨_, h, rfl⟩]
    | @braced digits h =>
      have hlength := length_hyphenate h.length_eq
      have hspace : ¬ ((('\x7b' :: (hyphenate digits ++ ['\x7d'])).take nameSpace.length).map
          Char.toLower = nameSpace) := by
        intro heq
        have hhead : some '\x7b' = some 'u' := congrArg List.head? heq
        exact absurd hhead (by decide)
      unfold ofChars?
      rw [ofDigits?_of_length (by simp; omega), ofHyphenated?_of_length (by simp; omega),
        if_neg hspace]
      simp only [List.getLast?_concat, if_true, List.dropLast_concat]
      exact ofHyphenated?_eq_some_iff.mpr ⟨_, h, rfl⟩
    | @named space digits hspace h =>
      have hlength := length_hyphenate h.length_eq
      have hcount : space.length = nameSpace.length := by
        rw [← hspace, List.length_map]
      have hnine : nameSpace.length = 9 := rfl
      unfold ofChars?
      rw [ofDigits?_of_length (by simp; omega), ofHyphenated?_of_length (by simp; omega),
        ← hcount, List.take_left, List.drop_left, if_pos hspace]
      exact ofHyphenated?_eq_some_iff.mpr ⟨_, h, rfl⟩

theorem spells_keyChars (u : Uuid) : u.Spells u.keyChars := .hyphenated (hasDigits_hexDigits u)

theorem mem_hyphenate {c : Char} (h : c ∈ hyphenate digits) : c = '-' ∨ c ∈ digits := by
  have hgroup : ∀ n m, c ∈ (digits.drop n).take m → c ∈ digits := fun n m hc =>
    List.drop_subset _ _ (List.take_subset _ _ hc)
  simp only [hyphenate, List.cons_append, List.append_assoc, List.mem_append, List.mem_cons] at h
  rcases h with h | rfl | h | rfl | h | rfl | h | rfl | h
  · exact .inr (List.take_subset _ _ h)
  · exact .inl rfl
  · exact .inr (hgroup _ _ h)
  · exact .inl rfl
  · exact .inr (hgroup _ _ h)
  · exact .inl rfl
  · exact .inr (hgroup _ _ h)
  · exact .inl rfl
  · exact .inr (List.drop_subset _ _ h)

/-- No spelling has an underscore. -/
theorem Spells.underscore_notMem (h : u.Spells text) : '_' ∉ text := by
  have hdigits : ∀ {digits}, u.HasDigits digits → '_' ∉ digits := fun h =>
    h.notMem (by decide) (by decide)
  have hhyphenate : ∀ {digits}, u.HasDigits digits → '_' ∉ hyphenate digits := fun h hmem =>
    (mem_hyphenate hmem).elim (by decide) (hdigits h)
  cases h with
  | bare h => exact hdigits h
  | hyphenated h => exact hhyphenate h
  | braced h => simp [hhyphenate h]
  | @named space _ hspace h =>
    have hname : '_' ∉ space := by
      intro hmem
      have hmem : '_' ∈ nameSpace := by
        rw [← hspace]
        exact List.mem_map_of_mem hmem
      exact absurd hmem (by decide)
    simp [hname, hhyphenate h]

end Uuid

/-! ## Tags -/

theorem EntityKind.underscore_notMem_tag (kind : EntityKind) : '_' ∉ kind.tag.toList := by
  cases kind <;> decide

theorem EntityKind.tag_injective {kind other : EntityKind} (h : kind.tag = other.tag) :
    kind = other := by
  cases kind <;> cases other <;> first | rfl | exact absurd h (by decide)

/-- The tag of a text is what stands before its first underscore. -/
theorem EntityKind.eq_of_tagged {kind other : EntityKind} {text text' : List Char}
    (h : kind.tag.toList ++ '_' :: text = other.tag.toList ++ '_' :: text') : kind = other := by
  have htag : ∀ (kind : EntityKind) (text : List Char),
      (kind.tag.toList ++ '_' :: text).takeWhile (· ≠ '_') = kind.tag.toList := by
    intro kind text
    rw [List.takeWhile_append_of_pos fun c hc => ?_]
    · simp
    · simp only [ne_eq, decide_not, Bool.not_eq_true', decide_eq_false_iff_not]
      rintro rfl
      exact kind.underscore_notMem_tag hc
  refine tag_injective (String.toList_inj.mp ?_)
  rw [← htag kind text, h, htag]

namespace Uuid

theorem after?_eq_some_iff {beginning text rest : List Char} :
    after? beginning text = some rest ↔ text = beginning ++ rest := by
  unfold after?
  split
  · next h =>
    obtain ⟨behind, rfl⟩ := List.isPrefixOf_iff_prefix.mp h
    simp
  · next h =>
    refine ⟨fun hnone => (nomatch hnone), fun htext => ?_⟩
    exact absurd (List.isPrefixOf_iff_prefix.mpr ⟨rest, htext.symm⟩) h

end Uuid

/-! ## Spellings of an identifier -/

namespace Id

variable {kind : EntityKind}

/-- The texts that spell an identifier: those of its number, with the tag of its kind or without. -/
def SpelledBy (id : Id kind) (text : List Char) : Prop :=
  ∃ spelling, id.uuid.Spells spelling ∧
    (text = spelling ∨ text = kind.tag.toList ++ '_' :: spelling)

theorem toList_tag_append (kind : EntityKind) :
    (kind.tag ++ "_").toList = kind.tag.toList ++ ['_'] := String.toList_append

/-- **The texts of an identifier.** The reader of a kind accepts the spellings of its identifiers
and nothing else. -/
theorem ofString?_eq_some_iff {text : String} {id : Id kind} :
    ofString? text = some id ↔ id.SpelledBy text.toList := by
  have hread : ∀ {bare}, (Uuid.ofChars? bare).map Id.mk = some id ↔ id.uuid.Spells bare := by
    intro bare
    rw [← Uuid.ofChars?_eq_some_iff, Option.map_eq_some_iff]
    constructor
    · rintro ⟨u, hu, rfl⟩
      exact hu
    · exact fun hu => ⟨_, hu, rfl⟩
  unfold ofString?
  cases hafter : Uuid.after? (kind.tag ++ "_").toList text.toList with
  | none =>
    simp only [hafter, Option.getD_none]
    refine hread.trans ⟨fun h => ⟨_, h, .inl rfl⟩, ?_⟩
    rintro ⟨spelling, h, htext | htext⟩
    · rwa [← htext] at h
    · have htagged : text.toList = (kind.tag ++ "_").toList ++ spelling := by
        rw [htext, toList_tag_append, List.append_assoc, List.singleton_append]
      rw [Uuid.after?_eq_some_iff.mpr htagged] at hafter
      cases hafter
  | some bare =>
    have htext := Uuid.after?_eq_some_iff.mp hafter
    rw [toList_tag_append, List.append_assoc, List.singleton_append] at htext
    simp only [hafter, Option.getD_some]
    refine hread.trans ⟨fun h => ⟨_, h, .inr htext⟩, ?_⟩
    rintro ⟨spelling, h, heq | heq⟩
    · -- a text with the tag has an underscore
      refine absurd ?_ h.underscore_notMem
      rw [← heq, htext]
      simp
    · have hsame : spelling = bare := by
        simpa using heq.symm.trans htext
      exact hsame ▸ h

theorem toList_key (id : Id kind) : id.key.toList = id.uuid.keyChars := String.toList_ofList

theorem toList_display (id : Id kind) :
    id.display.toList = kind.tag.toList ++ '_' :: id.uuid.keyChars := by
  rw [display, String.toList_append, toList_tag_append, toList_key, List.append_assoc,
    List.singleton_append]

theorem ofString?_display (id : Id kind) : ofString? id.display = some id :=
  ofString?_eq_some_iff.mpr ⟨_, id.uuid.spells_keyChars, .inr id.toList_display⟩

theorem ofString?_key (id : Id kind) : ofString? id.key = some id :=
  ofString?_eq_some_iff.mpr ⟨_, id.uuid.spells_keyChars, .inl id.toList_key⟩

theorem ofText_toJson (id : Id kind) : Draft.ofText id.toJson.compact = .ok (.string id.key) :=
  Json.Legible.ofText_compact ⟨Nat.zero_le _, trivial⟩

/-- The tag of another kind is refused, whatever stands behind it. -/
theorem ofString?_of_other_tag {other : EntityKind} (h : other ≠ kind) {text : String}
    {rest : List Char} (htext : text.toList = kind.tag.toList ++ '_' :: rest) :
    (ofString? text : Option (Id other)) = none := by
  refine Option.eq_none_iff_forall_ne_some.mpr fun id hid => ?_
  obtain ⟨spelling, hspelling, heq | heq⟩ := ofString?_eq_some_iff.mp hid
  · refine absurd ?_ hspelling.underscore_notMem
    rw [← heq, htext]
    simp
  · exact h (EntityKind.eq_of_tagged (heq.symm.trans htext))

/-- **Three texts, one identifier.** Its display form, its key and its JSON form are read as the
identifier, and no other identifier of its kind has its key. The texts that are accepted are the
spellings, and an identifier that is read, displayed and read again is the same one. The display
form is accepted as an identifier of its own kind and of no other. -/
theorem texts_of_identifier (kind : EntityKind) :
    (∀ id : Id kind, ofString? id.display = some id ∧ ofString? id.key = some id ∧
      (Draft.ofText id.toJson.compact).toOption.bind ofDraft? = some id) ∧
    (∀ id id' : Id kind, id.key = id'.key ↔ id = id') ∧
    (∀ (text : String) (id : Id kind), ofString? text = some id ↔ id.SpelledBy text.toList) ∧
    (∀ text : String, (ofString? text).bind (fun id : Id kind => ofString? id.display)
      = (ofString? text : Option (Id kind))) ∧
    ∀ (other : EntityKind) (id : Id kind),
      (ofString? id.display : Option (Id other)).isSome = true ↔ other = kind := by
  refine ⟨fun id => ⟨ofString?_display id, ofString?_key id, ?_⟩,
    fun id id' => ⟨key_injective, congrArg key⟩, fun text id => ofString?_eq_some_iff,
    fun text => ?_, fun other id => ⟨fun h => ?_, ?_⟩⟩
  · rw [ofText_toJson, Except.toOption, Option.bind_some, ofDraft?_key]
  · cases ofString? text with
    | none => rfl
    | some id => exact ofString?_display id
  · by_contra hne
    rw [ofString?_of_other_tag hne id.toList_display] at h
    cases h
  · rintro rfl
    rw [ofString?_display]
    rfl

end Id

end Bulletin
