import Bulletin.Proofs.NumberText
import Bulletin.Proofs.Trimming
import Bulletin.Sql.Query

/-!
# Balanced query texts

A text is balanced if every parenthesis outside strings has its partner and every string is
closed. A balanced text does not change what is outside: whatever stands behind it is as deep as
what stands in front of it. A balanced text cut at a position outside gives two balanced texts,
and literals, predicates and their conjunctions are balanced.

* `Balanced.through?` — a balanced text at any depth
* `Balanced.of_outer` — a balanced text cut in two
* `Balanced.inside` — nothing of a balanced text in parentheses is outside
* `balanced_conjunction` — the conditions of filters
-/

namespace Bulletin.Sql

/-! ## The scan of a text -/

namespace Scan

/-- The state behind a text. -/
def after (scan : Scan) (text : List Char) : Scan := text.foldl next scan

/-- The state behind a text, if no parenthesis is closed in it that was not opened. -/
def through? : Scan → List Char → Option Scan
  | scan, [] => some scan
  | scan, c :: rest => if c = ')' ∧ scan.outer then none else (scan.next c).through? rest

variable {scan scan' : Scan} {text text' : List Char}

@[simp] theorem after_nil : scan.after [] = scan := rfl

@[simp] theorem after_cons (c : Char) : scan.after (c :: text) = (scan.next c).after text := rfl

@[simp] theorem after_append : scan.after (text ++ text') = (scan.after text).after text' :=
  List.foldl_append

theorem outer_iff : scan.outer = true ↔ scan = start := by
  obtain ⟨depth, inString⟩ := scan
  simp [outer, start]

theorem through?_append :
    scan.through? (text ++ text') = (scan.through? text).bind (·.through? text') := by
  induction text generalizing scan with
  | nil => rfl
  | cons c text ih =>
    rw [List.cons_append, through?, through?]
    split
    · rfl
    · exact ih

theorem after_of_through? (h : scan.through? text = some scan') : scan.after text = scan' := by
  induction text generalizing scan with
  | nil => exact Option.some.inj h
  | cons c text ih =>
    rw [through?] at h
    split at h
    · cases h
    · exact ih h

/-- The same position with more parentheses around it. -/
def deeper (scan : Scan) (depth : Nat) : Scan := { scan with depth := scan.depth + depth }

theorem outer_of_deeper {depth : Nat} (h : (scan.deeper depth).outer = true) :
    scan.outer = true := by
  have h := outer_iff.mp h
  rw [outer_iff]
  obtain ⟨d, q⟩ := scan
  simp only [deeper, start, mk.injEq] at h ⊢
  exact ⟨by omega, h.2⟩

/-- A closing parenthesis takes off one level, which must be there. -/
theorem next_deeper {c : Char} (h : ¬ (c = ')' ∧ scan.outer)) (depth : Nat) :
    (scan.deeper depth).next c = (scan.next c).deeper depth := by
  obtain ⟨d, q⟩ := scan
  cases q with
  | true => by_cases hc : c = '\'' <;> simp [next, deeper, hc]
  | false =>
    by_cases hc : c = ')'
    · have hd : d ≠ 0 := by
        rintro rfl
        exact h ⟨hc, rfl⟩
      simp only [next, deeper, hc]
      simp
      omega
    · by_cases hquote : c = '\''
      · simp [next, deeper, hquote]
      · by_cases hopen : c = '('
        · simp [next, deeper, hopen]
          omega
        · simp [next, deeper, hc, hquote, hopen]

/-- More parentheses around a text do not matter to it. -/
theorem through?_deeper (depth : Nat) (h : scan.through? text = some scan') :
    (scan.deeper depth).through? text = some (scan'.deeper depth) := by
  induction text generalizing scan with
  | nil => exact congrArg some (congrArg (deeper · depth) (Option.some.inj h))
  | cons c text ih =>
    rw [through?] at h ⊢
    split at h
    · cases h
    · next hc =>
      rw [if_neg fun h' => hc ⟨h'.1, outer_of_deeper h'.2⟩, next_deeper hc]
      exact ih h

end Scan

/-! ## Balanced texts -/

/-- Every parenthesis outside strings has its partner and every string is closed. -/
def Balanced (text : List Char) : Prop := Scan.start.through? text = some Scan.start

instance (text : List Char) : Decidable (Balanced text) :=
  inferInstanceAs (Decidable (Scan.start.through? text = some Scan.start))

variable {text text' : List Char}

theorem balanced_nil : Balanced [] := rfl

/-- A balanced text does not change the depth. -/
theorem Balanced.through? (h : Balanced text) (depth : Nat) :
    (Scan.mk depth false).through? text = some ⟨depth, false⟩ := by
  have h := Scan.through?_deeper depth h
  simpa [Scan.deeper, Scan.start] using h

theorem Balanced.after (h : Balanced text) (depth : Nat) :
    (Scan.mk depth false).after text = ⟨depth, false⟩ :=
  Scan.after_of_through? (h.through? depth)

theorem Balanced.append (h : Balanced text) (h' : Balanced text') : Balanced (text ++ text') := by
  rw [Balanced, Scan.through?_append, h]
  exact h'

/-- A text in parentheses. -/
theorem Balanced.enclosed (h : Balanced text) : Balanced ('(' :: text ++ [')']) := by
  rw [Balanced, Scan.through?_append]
  have hopen : Scan.start.through? ('(' :: text) = some ⟨1, false⟩ := h.through? 1
  rw [hopen]
  rfl

/-- A balanced text that is cut outside gives two balanced texts. -/
theorem Balanced.of_outer (h : Balanced (text ++ text'))
    (ho : (Scan.start.after text).outer = true) : Balanced text ∧ Balanced text' := by
  rw [Balanced, Scan.through?_append, Option.bind_eq_some_iff] at h
  obtain ⟨scan, hscan, hrest⟩ := h
  rw [Scan.after_of_through? hscan, Scan.outer_iff] at ho
  subst ho
  exact ⟨hscan, hrest⟩

/-- What follows a balanced text is balanced if the whole is. -/
theorem Balanced.of_append (h : Balanced text) (h' : Balanced (text ++ text')) :
    Balanced text' :=
  (h'.of_outer (Scan.outer_iff.mpr (h.after 0))).2

/-- Nothing of a balanced text in parentheses is outside. -/
theorem Balanced.inside (h : Balanced (text ++ text')) :
    ((Scan.mk 1 false).after text).outer = false := by
  rw [Balanced, Scan.through?_append, Option.bind_eq_some_iff] at h
  obtain ⟨scan, hscan, -⟩ := h
  have hdeep := Scan.through?_deeper 1 hscan
  rw [show Scan.start.deeper 1 = ⟨1, false⟩ from rfl] at hdeep
  rw [Scan.after_of_through? hdeep]
  simp [Scan.outer, Scan.deeper]

/-! ## Texts without marks -/

/-- A text without quotes and parentheses. -/
def Unmarked (text : List Char) : Prop := ∀ c ∈ text, c ≠ '\'' ∧ c ≠ '(' ∧ c ≠ ')'

instance (text : List Char) : Decidable (Unmarked text) := List.decidableBAll _ text

theorem Unmarked.through? (h : Unmarked text) (scan : Scan) : scan.through? text = some scan := by
  induction text generalizing scan with
  | nil => rfl
  | cons c text ih =>
    obtain ⟨hquote, hopen, hclose⟩ := h c List.mem_cons_self
    have hnext : scan.next c = scan := by simp [Scan.next, hquote, hopen, hclose]
    rw [Scan.through?, if_neg fun hc => hclose hc.1, hnext]
    exact ih (fun d hd => h d (List.mem_cons_of_mem _ hd)) scan

theorem Unmarked.balanced (h : Unmarked text) : Balanced text := h.through? _

theorem unmarked_of_blank (h : Text.Blank text) : Unmarked text := by
  intro c hc
  have hblank := h c hc
  refine ⟨?_, ?_, ?_⟩ <;> rintro rfl <;> exact absurd hblank (by decide)

/-- Text without marks at the ends does not matter. -/
theorem Balanced.of_unmarked {lead gap : List Char} (hlead : Unmarked lead) (hgap : Unmarked gap)
    (h : Balanced (lead ++ (text ++ gap))) : Balanced text := by
  have hrest : Scan.start.through? (text ++ gap) = some Scan.start := hlead.balanced.of_append h
  rw [Scan.through?_append, Option.bind_eq_some_iff] at hrest
  obtain ⟨scan, hscan, hend⟩ := hrest
  rw [hgap.through? scan] at hend
  rw [Balanced, hscan, hend]

/-! ## Literals and predicates -/

/-- A quoted text is closed by its last quote, because its own quotes are doubled. -/
theorem balanced_quoted (text : List Char) : Balanced (quoted text) := by
  have hinside : (Scan.mk 0 true).through?
      (text.flatMap (fun c => if c = '\'' then ['\'', '\''] else [c]) ++ ['\''])
        = some Scan.start := by
    induction text with
    | nil => rfl
    | cons c text ih =>
      rw [List.flatMap_cons, List.append_assoc, Scan.through?_append]
      by_cases hc : c = '\''
      · rw [if_pos hc]
        exact ih
      · have hstep : (Scan.mk 0 true).through? [c] = some ⟨0, true⟩ := by
          simp [Scan.through?, Scan.outer, Scan.next, hc]
        rw [if_neg hc, hstep]
        exact ih
  exact hinside

theorem unmarked_number (n : Json.Number) : Unmarked n.text := by
  intro c hc
  have h := Json.Number.isNumeral hc
  refine ⟨?_, ?_, ?_⟩ <;> rintro rfl <;> exact absurd h (by decide)

theorem balanced_literal (v : Json) : Balanced (literal v) := by
  match v with
  | .null | .bool true | .bool false => decide
  | .number n => exact (unmarked_number n).balanced
  | .string _ | .array _ | .object _ => exact balanced_quoted _

theorem balanced_joined {separator : List Char} (hs : Balanced separator) {texts : List (List Char)}
    (h : ∀ text ∈ texts, Balanced text) : Balanced (joined separator texts) := by
  induction texts with
  | nil => exact balanced_nil
  | cons text texts ih =>
    have htext := h text List.mem_cons_self
    have hrest := ih fun other ho => h other (List.mem_cons_of_mem _ ho)
    cases texts with
    | nil => exact htext
    | cons next texts => exact (htext.append hs).append hrest

theorem balanced_predicate {field : String} (h : Unmarked field.toList) (v : Json) :
    Balanced (predicate field v) := by
  match v with
  | .null => exact h.balanced.append (by decide)
  | .array [] => exact (by decide : Balanced "1 = 0".toList)
  | .array (v :: items) =>
    have hlist : Balanced (joined ", ".toList ((v :: items).map literal)) := by
      refine balanced_joined (by decide) fun text ht => ?_
      obtain ⟨item, -, rfl⟩ := List.mem_map.mp ht
      exact balanced_literal item
    have hpredicate : predicate field (.array (v :: items))
        = field.toList ++ " IN ".toList
          ++ ('(' :: joined ", ".toList ((v :: items).map literal) ++ [')']) := by
      simp [predicate]
    rw [hpredicate]
    exact (h.balanced.append (by decide)).append hlist.enclosed
  | .bool _ | .number _ | .string _ | .object _ =>
    exact (h.balanced.append (by decide)).append (balanced_literal _)

/-- The conditions of filters whose names have no marks. -/
theorem balanced_conjunction {filters : Fields Json}
    (h : ∀ name ∈ filters.keys, Unmarked name.toList) : Balanced (conjunction filters) := by
  refine balanced_joined (by decide) fun text ht => ?_
  obtain ⟨entry, he, rfl⟩ := List.mem_map.mp ht
  exact balanced_predicate (h entry.1 (List.mem_map_of_mem he)) entry.2

end Bulletin.Sql
