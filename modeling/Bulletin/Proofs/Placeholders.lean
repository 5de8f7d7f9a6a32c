import Bulletin.Proofs.Tables
import Bulletin.Sql.Placeholder
import Mathlib.Data.List.TakeWhile

/-!
# Placeholders in a text

Where placeholders stand in a text is said here without a scan: one stands at a position if its
text starts there. No two of them meet, since neither the name nor the braces hold a dollar sign.
So there is one way only to cut a text into its placeholders and the characters between them, and
what is sent is the text cut in this way with the values in place of the placeholders that have
one.

* `StandsAt.apart` — placeholders are apart from each other
* `exists_cut` — the one cut of a text, and what the scan makes of it
* `placeholders_filled` — the two together, and which values count
-/

namespace Bulletin.Sql

variable {text rest name name' : List Char} {position position' : Nat} {c : Char}

/-! ## Names -/

/-- A letter of ASCII or an underscore. -/
def IsNameStart (c : Char) : Prop := ('a' ≤ c ∧ c ≤ 'z') ∨ ('A' ≤ c ∧ c ≤ 'Z') ∨ c = '_'

/-- A letter or a digit of ASCII, or an underscore. -/
def IsNamePart (c : Char) : Prop := IsNameStart c ∨ ('0' ≤ c ∧ c ≤ '9')

/-- What may stand in the braces of a placeholder. -/
inductive IsName : List Char → Prop
  | mk {c : Char} {others : List Char} (hc : IsNameStart c) (hothers : ∀ d ∈ others, IsNamePart d) :
    IsName (c :: others)

theorem startsName_iff : startsName c = true ↔ IsNameStart c := by
  have hletter : startsName c
      = (decide ('A' ≤ c ∧ c ≤ 'Z') || (decide ('a' ≤ c) && decide (c ≤ 'z')) || c == '_') := rfl
  simp only [hletter, IsNameStart, Bool.or_eq_true, Bool.and_eq_true, decide_eq_true_eq,
    beq_iff_eq]
  rw [or_assoc, or_left_comm]

theorem continuesName_iff : continuesName c = true ↔ IsNamePart c := by
  rw [IsNamePart, ← startsName_iff]
  simp only [continuesName, startsName, Char.isAlphanum, Char.isDigit, Bool.or_eq_true,
    Bool.and_eq_true, decide_eq_true_eq]
  rw [or_right_comm]
  exact Iff.rfl

theorem IsNamePart.ne_dollar (h : IsNamePart c) : c ≠ '$' := by
  rintro rfl
  exact absurd (continuesName_iff.mpr h) (by decide)

theorem IsName.isNamePart (h : IsName name) : ∀ d ∈ name, IsNamePart d := by
  cases h with
  | mk hc hothers => exact List.forall_mem_cons.mpr ⟨.inl hc, hothers⟩

/-! ## Placeholders -/

/-- The text of the placeholder with a name. -/
def written (name : List Char) : List Char := '$' :: '\x7b' :: (name ++ ['\x7d'])

theorem length_written (name : List Char) : (written name).length = name.length + 3 := by
  simp [written]

theorem IsName.dollar_notMem (h : IsName name) : '$' ∉ '\x7b' :: (name ++ ['\x7d']) := by
  simp only [List.mem_cons, List.mem_append, List.not_mem_nil, or_false]
  rintro (hbrace | hname | hbrace)
  · exact absurd hbrace (by decide)
  · exact (h.isNamePart _ hname).ne_dollar rfl
  · exact absurd hbrace (by decide)

/-- A placeholder starts with the only dollar sign in it. -/
theorem IsName.dollar_iff {i : Nat} (h : IsName name) : (written name)[i]? = some '$' ↔ i = 0 := by
  refine ⟨fun hi => ?_, by rintro rfl; rfl⟩
  cases i with
  | zero => rfl
  | succ i =>
    have hmem : '$' ∈ '\x7b' :: (name ++ ['\x7d']) := List.mem_of_getElem? hi
    exact absurd hmem h.dollar_notMem

/-- A placeholder stands at a position of a text. -/
def StandsAt (text : List Char) (position : Nat) (name : List Char) : Prop :=
  IsName name ∧ written name <+: text.drop position

theorem placeholder?_written (h : IsName name) (rest : List Char) :
    placeholder? (written name ++ rest) = some name := by
  cases h with
  | @mk c others hc hothers =>
    have hall : ∀ d ∈ others, continuesName d = true :=
      fun d hd => continuesName_iff.mpr (hothers d hd)
    have htext : written (c :: others) ++ rest
        = '$' :: '\x7b' :: c :: (others ++ '\x7d' :: rest) := by
      simp [written]
    have hdrop : (others ++ '\x7d' :: rest).dropWhile continuesName = '\x7d' :: rest := by
      rw [List.dropWhile_append_of_pos hall]
      rfl
    have htake : (others ++ '\x7d' :: rest).takeWhile continuesName = others := by
      rw [List.takeWhile_append_of_pos hall]
      simp [show continuesName '\x7d' = false by decide]
    simp only [htext, placeholder?, if_pos (startsName_iff.mpr hc), hdrop, htake]

/-- The scan finds the placeholder with which a text begins. -/
theorem placeholder?_eq_some_iff : placeholder? text = some name ↔ StandsAt text 0 name := by
  constructor
  · intro h
    unfold placeholder? at h
    split at h
    · next c rest =>
      split at h
      · next hc =>
        split at h
        · next behind hbehind =>
          cases h
          have hrest : rest.takeWhile continuesName ++ '\x7d' :: behind = rest := by
            rw [← hbehind]
            exact List.takeWhile_append_dropWhile
          refine ⟨.mk (startsName_iff.mp hc) fun d hd =>
            continuesName_iff.mp (List.mem_takeWhile_imp hd), behind, ?_⟩
          simp [written, hrest]
        · cases h
      · cases h
    · cases h
  · rintro ⟨hname, behind, hbehind⟩
    rw [List.drop_zero] at hbehind
    rw [← hbehind]
    exact placeholder?_written hname behind

theorem standsAt_drop {n : Nat} : StandsAt (text.drop n) position name
    ↔ StandsAt text (n + position) name := by
  rw [StandsAt, List.drop_drop, StandsAt]

theorem StandsAt.dollar (h : StandsAt text position name) : text[position]? = some '$' := by
  obtain ⟨-, behind, hbehind⟩ := h
  rw [← Nat.add_zero position, ← List.getElem?_drop, ← hbehind]
  rfl

/-- One placeholder stands at a position. -/
theorem StandsAt.unique (h : StandsAt text position name) (h' : StandsAt text position name') :
    name = name' := by
  have hfirst : placeholder? (text.drop position) = some name :=
    placeholder?_eq_some_iff.mpr (standsAt_drop.mpr h)
  have hfirst' : placeholder? (text.drop position) = some name' :=
    placeholder?_eq_some_iff.mpr (standsAt_drop.mpr h')
  exact Option.some.inj (hfirst.symm.trans hfirst')

/-- A placeholder has ended where another one starts behind it. -/
theorem StandsAt.le_of_lt (h : StandsAt text position name) (h' : StandsAt text position' name')
    (hlt : position < position') : position + (written name).length ≤ position' := by
  by_contra hmeet
  obtain ⟨i, rfl⟩ : ∃ i, position' = position + i := Nat.exists_eq_add_of_le hlt.le
  obtain ⟨hname, behind, hbehind⟩ := h
  have hdollar := h'.dollar
  rw [← List.getElem?_drop, ← hbehind, List.getElem?_append_left (by omega), hname.dollar_iff]
    at hdollar
  omega

/-- Placeholders are apart from each other. -/
theorem StandsAt.apart (h : StandsAt text position name) (h' : StandsAt text position' name') :
    position = position' ∧ name = name' ∨ position + (written name).length ≤ position' ∨
      position' + (written name').length ≤ position := by
  rcases Nat.lt_trichotomy position position' with hlt | rfl | hgt
  · exact .inr (.inl (h.le_of_lt h' hlt))
  · exact .inl ⟨rfl, h.unique h'⟩
  · exact .inr (.inr (h'.le_of_lt h hgt))

/-! ## Pieces -/

/-- A piece of a text. -/
inductive Piece where
  /-- a character that is in no placeholder -/
  | kept (c : Char)
  | placeholder (name : List Char)

namespace Piece

def chars : Piece → List Char
  | kept c => [c]
  | placeholder name => written name

/-- What a piece becomes: a placeholder that has a value becomes the plain text of the value, and
nothing else changes. -/
def filled (parameters : Fields Json) : Piece → List Char
  | kept c => [c]
  | placeholder name =>
    match parameters.get? (String.ofList name) with
    | some v => v.plain.toList
    | none => written name

theorem chars_ne_nil (piece : Piece) : piece.chars ≠ [] := by
  cases piece with
  | kept | placeholder => exact List.cons_ne_nil _ _

theorem length_chars_pos (piece : Piece) : 0 < piece.chars.length :=
  List.length_pos_iff.mpr piece.chars_ne_nil

end Piece

variable {piece : Piece} {pieces others : List Piece}

/-- A placeholder is among some pieces, with so many characters in front of it. -/
def PieceAt (pieces : List Piece) (position : Nat) (name : List Char) : Prop :=
  ∃ before after, pieces = before ++ .placeholder name :: after ∧
    (before.flatMap Piece.chars).length = position

theorem pieceAt_nil : ¬ PieceAt [] position name := by
  rintro ⟨before, after, hnil, -⟩
  exact List.append_ne_nil_of_right_ne_nil before (List.cons_ne_nil _ after) hnil.symm

theorem pieceAt_cons : PieceAt (piece :: pieces) position name ↔
    (position = 0 ∧ piece = .placeholder name) ∨
      ∃ i, position = piece.chars.length + i ∧ PieceAt pieces i name := by
  constructor
  · rintro ⟨_ | ⟨first, before⟩, after, hpieces, rfl⟩
    · exact .inl ⟨rfl, List.head_eq_of_cons_eq hpieces⟩
    · obtain ⟨rfl, rfl⟩ := List.cons.inj hpieces
      exact .inr ⟨_, by rw [List.flatMap_cons, List.length_append], before, after, rfl, rfl⟩
  · rintro (⟨rfl, rfl⟩ | ⟨i, rfl, before, after, rfl, rfl⟩)
    · exact ⟨[], pieces, rfl, rfl⟩
    · exact ⟨piece :: before, after, rfl, by rw [List.flatMap_cons, List.length_append]⟩

/-- Within the first piece. -/
theorem pieceAt_cons_of_lt (h : position < piece.chars.length) :
    PieceAt (piece :: pieces) position name ↔ position = 0 ∧ piece = .placeholder name := by
  rw [pieceAt_cons, or_iff_left]
  rintro ⟨i, hi, -⟩
  omega

/-- Behind the first piece. -/
theorem pieceAt_cons_add :
    PieceAt (piece :: pieces) (piece.chars.length + position) name
      ↔ PieceAt pieces position name := by
  have hpos := piece.length_chars_pos
  rw [pieceAt_cons, or_iff_right (by omega)]
  refine ⟨fun ⟨i, hi, h⟩ => ?_, fun h => ⟨position, rfl, h⟩⟩
  obtain rfl : position = i := by omega
  exact h

/-! ## Cuts -/

/-- A text is cut into its placeholders, all of them, and the characters between them. -/
structure Cut (text : List Char) (pieces : List Piece) : Prop where
  whole : pieces.flatMap Piece.chars = text
  placeholders : ∀ position name, StandsAt text position name ↔ PieceAt pieces position name

theorem standsAt_nil : ¬ StandsAt [] position name := by
  intro h
  cases h.dollar

theorem standsAt_append (text : List Char) :
    StandsAt (text ++ rest) (text.length + position) name ↔ StandsAt rest position name := by
  rw [← standsAt_drop, List.drop_left]

/-- Cutting off the first piece. -/
theorem cut_cons (piece : Piece) : Cut (piece.chars ++ text) (piece :: pieces) ↔
    (∀ i < piece.chars.length, ∀ name,
      StandsAt (piece.chars ++ text) i name ↔ i = 0 ∧ piece = .placeholder name) ∧
    Cut text pieces := by
  constructor
  · rintro ⟨hwhole, hplaceholders⟩
    refine ⟨fun i hi name => (hplaceholders i name).trans (pieceAt_cons_of_lt hi), ?_, ?_⟩
    · rw [List.flatMap_cons] at hwhole
      exact List.append_cancel_left hwhole
    · intro position name
      rw [← standsAt_append piece.chars, hplaceholders, pieceAt_cons_add]
  · rintro ⟨hfirst, hwhole, hplaceholders⟩
    refine ⟨by rw [List.flatMap_cons, hwhole], fun position name => ?_⟩
    rcases Nat.lt_or_ge position piece.chars.length with hlt | hge
    · rw [hfirst position hlt, pieceAt_cons_of_lt hlt]
    · obtain ⟨i, rfl⟩ := Nat.exists_eq_add_of_le hge
      rw [standsAt_append, hplaceholders, pieceAt_cons_add]

theorem cut_nil : Cut [] pieces ↔ pieces = [] := by
  constructor
  · rintro ⟨hwhole, -⟩
    cases pieces with
    | nil => rfl
    | cons piece others =>
      rw [List.flatMap_cons] at hwhole
      exact absurd (List.append_eq_nil_iff.mp hwhole).1 piece.chars_ne_nil
  · rintro rfl
    exact ⟨rfl, fun _ _ => iff_of_false standsAt_nil pieceAt_nil⟩

/-- Where no placeholder begins, a character is cut off. -/
theorem cut_kept (h : placeholder? (c :: text) = none) :
    Cut (c :: text) pieces ↔ ∃ others, pieces = .kept c :: others ∧ Cut text others := by
  have hnone : ∀ name, ¬ StandsAt (c :: text) 0 name := by
    intro name hname
    rw [placeholder?_eq_some_iff.mpr hname] at h
    cases h
  constructor
  · intro hcut
    cases pieces with
    | nil => exact absurd hcut.whole (by simp)
    | cons piece others =>
      cases piece with
      | placeholder name =>
        exact absurd ((hcut.placeholders 0 name).mpr (pieceAt_cons.mpr (.inl ⟨rfl, rfl⟩)))
          (hnone name)
      | kept d =>
        obtain rfl : d = c := List.head_eq_of_cons_eq hcut.whole
        exact ⟨others, rfl, ((cut_cons (.kept d)).mp hcut).2⟩
  · rintro ⟨others, rfl, hothers⟩
    refine (cut_cons (.kept c)).mpr ⟨fun i hi name => iff_of_false ?_ ?_, hothers⟩
    · obtain rfl : i = 0 := Nat.lt_one_iff.mp hi
      exact hnone name
    · rintro ⟨-, hpiece⟩
      cases hpiece

/-- Where a placeholder begins, it is cut off. -/
theorem cut_written (h : IsName name) :
    Cut (written name ++ text) pieces
      ↔ ∃ others, pieces = .placeholder name :: others ∧ Cut text others := by
  have hstands : StandsAt (written name ++ text) 0 name := ⟨h, text, rfl⟩
  constructor
  · intro hcut
    cases pieces with
    | nil => exact absurd ((hcut.placeholders 0 name).mp hstands) pieceAt_nil
    | cons piece others =>
      obtain ⟨-, rfl⟩ := (pieceAt_cons_of_lt piece.length_chars_pos).mp
        ((hcut.placeholders 0 name).mp hstands)
      exact ⟨others, rfl, ((cut_cons (.placeholder name)).mp hcut).2⟩
  · rintro ⟨others, rfl, hothers⟩
    refine (cut_cons (.placeholder name)).mpr ⟨fun i hi name' => ⟨fun h' => ?_, ?_⟩, hothers⟩
    · have hdollar := h'.dollar
      rw [List.getElem?_append_left hi] at hdollar
      obtain rfl := h.dollar_iff.mp hdollar
      exact ⟨rfl, congrArg _ (hstands.unique h')⟩
    · rintro ⟨rfl, hpiece⟩
      cases hpiece
      exact hstands

/-! ## The scan -/

variable {parameters : Fields Json}

theorem substituteFrom_covered (n : Nat) (text : List Char) :
    substituteFrom parameters n text = substituteFrom parameters 0 (text.drop n) := by
  induction text generalizing n with
  | nil => simp [substituteFrom]
  | cons c rest ih =>
    cases n with
    | zero => rfl
    | succ n => exact ih n

theorem placeholder?_of_ne_dollar (h : c ≠ '$') : placeholder? (c :: text) = none := by
  cases hfirst : placeholder? (c :: text) with
  | none => rfl
  | some name =>
    exact absurd (Option.some.inj (placeholder?_eq_some_iff.mp hfirst).dollar) h

theorem substituteFrom_kept (h : placeholder? (c :: text) = none) :
    substituteFrom parameters 0 (c :: text) = c :: substituteFrom parameters 0 text := by
  rw [substituteFrom, h]

/-- Without a dollar sign there is nothing to replace. -/
theorem substituteFrom_append (h : '$' ∉ text) :
    substituteFrom parameters 0 (text ++ rest) = text ++ substituteFrom parameters 0 rest := by
  induction text with
  | nil => rfl
  | cons c text ih =>
    have hc : c ≠ '$' := fun hc => h (hc ▸ List.mem_cons_self)
    rw [List.cons_append, substituteFrom_kept (placeholder?_of_ne_dollar hc),
      ih fun hmem => h (List.mem_cons_of_mem _ hmem), List.cons_append]

/-- A placeholder becomes what its name says, and the scan goes on behind it. -/
theorem substituteFrom_written (h : IsName name) (rest : List Char) :
    substituteFrom parameters 0 (written name ++ rest)
      = (Piece.placeholder name).filled parameters ++ substituteFrom parameters 0 rest := by
  have hfirst := placeholder?_written h rest
  rw [written, List.cons_append] at hfirst ⊢
  rw [substituteFrom, hfirst, Piece.filled]
  cases hvalue : parameters.get? (String.ofList name) with
  | none =>
    simp only [hvalue]
    rw [substituteFrom_append h.dollar_notMem]
    rfl
  | some v =>
    simp only [hvalue]
    rw [substituteFrom_covered, List.drop_left' (by simp)]

/-- There is one way to cut a text, and the scan replaces the placeholders among the pieces. -/
theorem exists_cut (text : List Char) :
    ∃ pieces, (∀ others, Cut text others ↔ others = pieces) ∧
      ∀ parameters,
        substituteFrom parameters 0 text = pieces.flatMap (Piece.filled parameters) := by
  -- a placeholder is cut off in one go, so the induction is on the length of what is left
  induction hn : text.length using Nat.strong_induction_on generalizing text with
  | _ n ih =>
    cases text with
    | nil => exact ⟨[], fun _ => cut_nil, fun _ => rfl⟩
    | cons c rest =>
      cases hfirst : placeholder? (c :: rest) with
      | none =>
        obtain ⟨pieces, hcut, hscan⟩ := ih rest.length (by simp [← hn]) rest rfl
        refine ⟨.kept c :: pieces, fun others => ?_, fun parameters => ?_⟩
        · simp only [cut_kept hfirst, hcut, exists_eq_right]
        · rw [substituteFrom_kept hfirst, hscan]
          rfl
      | some name =>
        obtain ⟨hname, behind, hbehind⟩ := placeholder?_eq_some_iff.mp hfirst
        rw [List.drop_zero] at hbehind
        rw [← hbehind] at hn ⊢
        have hlength : behind.length < n := by
          rw [← hn, List.length_append, length_written]
          omega
        obtain ⟨pieces, hcut, hscan⟩ := ih behind.length hlength behind rfl
        refine ⟨.placeholder name :: pieces, fun others => ?_, fun parameters => ?_⟩
        · simp only [cut_written hname, hcut, exists_eq_right]
        · rw [substituteFrom_written hname, hscan, List.flatMap_cons]

/-! ## Queries -/

/-- **Placeholders filled in.** The placeholders of a query are apart from each other. There is one
way to cut the query into its placeholders and single characters; what is sent are the pieces in
their order, each placeholder that has a value as the plain text of the value and all else as it
stands. Only the values of names that stand in the query matter, and not in which order they are
given. -/
theorem placeholders_filled (query : String) (parameters : Fields Json) :
    (∀ i j name name', StandsAt query.toList i name → StandsAt query.toList j name' →
      i = j ∧ name = name' ∨ i + (written name).length ≤ j ∨ j + (written name').length ≤ i) ∧
    (∃ pieces, (∀ others, Cut query.toList others ↔ others = pieces) ∧
      (substitute query parameters).toList = pieces.flatMap (Piece.filled parameters)) ∧
    ∀ parameters' : Fields Json,
      (∀ name v, (∃ position, StandsAt query.toList position name) →
        ((String.ofList name, v) ∈ parameters.entries
          ↔ (String.ofList name, v) ∈ parameters'.entries)) →
      substitute query parameters' = substitute query parameters := by
  obtain ⟨pieces, hcut, hscan⟩ := exists_cut query.toList
  refine ⟨fun i j name name' h h' => h.apart h', ⟨pieces, hcut, ?_⟩, fun parameters' hsame => ?_⟩
  · rw [substitute, String.toList_ofList, hscan]
  · have hstands := ((hcut pieces).mpr rfl).placeholders
    have hfilled : ∀ piece ∈ pieces, piece.filled parameters' = piece.filled parameters := by
      rintro (c | name) hmem
      · rfl
      · obtain ⟨before, after, hpieces⟩ := List.append_of_mem hmem
        have hvalue : parameters'.get? (String.ofList name)
            = parameters.get? (String.ofList name) := by
          refine Option.ext fun v => ?_
          rw [Fields.get?_eq_some_iff, Fields.get?_eq_some_iff]
          exact (hsame name v ⟨_, (hstands _ name).mpr ⟨before, after, hpieces, rfl⟩⟩).symm
        rw [Piece.filled, Piece.filled, hvalue]
    rw [substitute, substitute, hscan, hscan, List.flatMap_def, List.flatMap_def,
      List.map_congr_left hfilled]

/-- Dollar signs side by side and in braces, a value that reads like a placeholder, and values in
another order with one more under something that is no name. -/
theorem placeholders_filled_of_nested :
    let query := "$$\x7ba\x7d$\x7b$\x7bb\x7d\x7d\u00e9$\x7b1\x7d$\x7bc\x7d$\x7ba"
    let parameters := Fields.ofList [("a", Json.string "$\x7bb\x7d"), ("b", Json.nat 7)]
    let parameters' := Fields.ofList
      [("1", Json.null), ("b", Json.nat 7), ("a", Json.string "$\x7bb\x7d")]
    (∀ name v, (∃ position, StandsAt query.toList position name) →
      ((String.ofList name, v) ∈ parameters.entries
        ↔ (String.ofList name, v) ∈ parameters'.entries)) ∧
      substitute query parameters' = substitute query parameters ∧
      substitute query parameters
        = "$$\x7bb\x7d$\x7b7\x7d\u00e9$\x7b1\x7d$\x7bc\x7d$\x7ba" := by
  intro query parameters parameters'
  have hsame : ∀ name v, (∃ position, StandsAt query.toList position name) →
      ((String.ofList name, v) ∈ parameters.entries
        ↔ (String.ofList name, v) ∈ parameters'.entries) := by
    rintro name v ⟨position, hname, -⟩
    have hdigit : String.ofList name ≠ "1" := by
      intro h
      rw [show name = ['1'] from String.ofList_injective h] at hname
      cases hname with
      | mk hc _ => exact absurd (startsName_iff.mpr hc) (by decide)
    have hentries : parameters.entries
        = [("a", Json.string "$\x7bb\x7d"), ("b", Json.nat 7)] := rfl
    have hentries' : parameters'.entries
        = [("1", Json.null), ("b", Json.nat 7), ("a", Json.string "$\x7bb\x7d")] := rfl
    rw [hentries, hentries']
    simp [hdigit, or_comm]
  exact ⟨hsame, (placeholders_filled query parameters).2.2 parameters' hsame, by decide⟩

end Bulletin.Sql
