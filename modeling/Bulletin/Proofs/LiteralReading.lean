import Bulletin.Proofs.DistinctTexts
import Bulletin.Proofs.Trimming
import Bulletin.Sql.Predicate

/-!
# Reading literals as a database does

A reader that knows nothing of how values are written. A string runs from a quote to the next quote
that is not doubled, and a doubled quote stands for one. Anything else that stands in a list is a
word, which ends at a quote, a parenthesis, a comma or white space. Whatever a user asks for in a
filter, it is read back as one literal for each value: nothing in a value ends its string.

* `readLiteral?_quoted` — a string and what follows it
* `readLiteral?_literal` — the literal of any value
* `readItems?_joined` — a list
* `literals_read_back` — values, lists of values, and lists of strings told apart
-/

namespace Bulletin.Sql

variable {text rest rest' behind : List Char} {v w : Json}

/-! ## The reader -/

/-- What a database finds in a list. -/
inductive Literal where
  | string (content : List Char)
  | word (text : List Char)
deriving DecidableEq

/-- Whether a character is in no word: a quote, a parenthesis, a comma, or white space. -/
def isMark (c : Char) : Bool :=
  c == '\'' || c == '(' || c == ')' || c == ',' || Text.isBlank c

/-- The rest of a string up to the first quote that is not doubled, and what follows. -/
def readContent? : List Char → Option (List Char × List Char)
  | [] => none
  | '\'' :: '\'' :: rest => (readContent? rest).map fun read => ('\'' :: read.1, read.2)
  | c :: rest =>
    if c = '\'' then some ([], rest)
    else (readContent? rest).map fun read => (c :: read.1, read.2)

/-- The literal with which a text begins, and what follows. -/
def readLiteral? : List Char → Option (Literal × List Char)
  | [] => none
  | c :: rest =>
    if c = '\'' then (readContent? rest).map fun read => (.string read.1, read.2)
    else if isMark c then none
    else some (.word ((c :: rest).takeWhile (!isMark ·)), (c :: rest).dropWhile (!isMark ·))

theorem readContent?_suffix {content : List Char} (h : readContent? text = some (content, rest)) :
    rest <:+ text := by
  fun_induction readContent? text generalizing content with
  | case1 => cases h
  | case2 text ih =>
    obtain ⟨read, hread, hpair⟩ := Option.map_eq_some_iff.mp h
    cases hpair
    exact (ih hread).trans ((List.suffix_cons _ _).trans (List.suffix_cons _ _))
  | case3 text _ =>
    cases h
    exact List.suffix_cons _ _
  | case4 c text _ _ ih =>
    obtain ⟨read, hread, hpair⟩ := Option.map_eq_some_iff.mp h
    cases hpair
    exact (ih hread).trans (List.suffix_cons _ _)

theorem readLiteral?_suffix {literal : Literal} (h : readLiteral? text = some (literal, rest)) :
    rest <:+ text := by
  cases text with
  | nil => cases h
  | cons c text =>
    rw [readLiteral?] at h
    split at h
    · obtain ⟨read, hread, hpair⟩ := Option.map_eq_some_iff.mp h
      cases hpair
      exact (readContent?_suffix hread).trans (List.suffix_cons _ _)
    · split at h
      · cases h
      · cases h
        exact List.dropWhile_suffix _

/-- The literals of a list up to its closing parenthesis, with commas between them and white space
around them, and what follows. -/
def readItems? (text : List Char) : Option (List Literal × List Char) :=
  match _hliteral : readLiteral? (Text.trimStart text) with
  | none => none
  | some (literal, behind) =>
    match _hbehind : Text.trimStart behind with
    | ',' :: rest => (readItems? rest).map fun read => (literal :: read.1, read.2)
    | ')' :: rest => some ([literal], rest)
    | _ => none
termination_by text.length
decreasing_by
  have hrest : (',' :: rest).length ≤ behind.length :=
    _hbehind ▸ (List.dropWhile_suffix Text.isBlank (l := behind)).length_le
  have hread : behind.length ≤ text.length := ((readLiteral?_suffix _hliteral).trans
    (List.dropWhile_suffix Text.isBlank)).length_le
  exact Nat.lt_of_lt_of_le hrest hread

/-- The literals of a list in parentheses, and what follows. -/
def readList? : List Char → Option (List Literal × List Char)
  | '(' :: text => readItems? text
  | _ => none

theorem readItems?_of_literal {literal : Literal}
    (h : readLiteral? (Text.trimStart text) = some (literal, behind)) :
    readItems? text = match Text.trimStart behind with
      | ',' :: rest => (readItems? rest).map fun read => (literal :: read.1, read.2)
      | ')' :: rest => some ([literal], rest)
      | _ => none := by
  rw [readItems?]
  split
  · next hnone => cases h.symm.trans hnone
  · next hsome =>
    cases h.symm.trans hsome
    split <;> simp only [*]

/-! ## Strings -/

/-- A text with its quotes doubled is read up to the quote behind it. -/
theorem readContent?_doubled (h : rest.head? ≠ some '\'') :
    readContent? (text.flatMap (fun c => if c = '\'' then ['\'', '\''] else [c]) ++ '\'' :: rest)
      = some (text, rest) := by
  induction text with
  | nil =>
    cases rest with
    | nil => rfl
    | cons c rest =>
      have hc : c ≠ '\'' := fun hc => h (congrArg some hc)
      simp [readContent?, hc]
  | cons c text ih =>
    rw [List.flatMap_cons, List.append_assoc]
    by_cases hc : c = '\''
    · simp [readContent?, hc, ih]
    · simp [readContent?, hc, ih]

theorem quoted_append (text rest : List Char) :
    quoted text ++ rest = '\'' ::
      (text.flatMap (fun c => if c = '\'' then ['\'', '\''] else [c]) ++ '\'' :: rest) := by
  simp [quoted]

theorem readLiteral?_quoted (h : rest.head? ≠ some '\'') :
    readLiteral? (quoted text ++ rest) = some (.string text, rest) := by
  rw [quoted_append, readLiteral?, if_pos rfl, readContent?_doubled h]
  rfl

/-! ## Words -/

/-- What may stand behind a literal. -/
def EndsLiteral (text : List Char) : Prop := ∀ c ∈ text.head?, c = ',' ∨ c = ')'

theorem EndsLiteral.not_quote (h : EndsLiteral rest) : rest.head? ≠ some '\'' := by
  intro hc
  rcases h _ hc with hc | hc <;> cases hc

theorem isMark_of_isNumeral {c : Char} (h : Json.IsNumeral c) : isMark c = false := by
  rcases h with hdigit | hother
  · have hne : ∀ d : Char, d.isDigit = false → (c == d) = false := by
      intro d hd
      rw [beq_eq_false_iff_ne]
      rintro rfl
      rw [hdigit] at hd
      cases hd
    rw [isMark, hne _ rfl, hne _ rfl, hne _ rfl, hne _ rfl, Text.isBlank_of_isDigit hdigit]
    rfl
  · simp only [List.mem_cons, List.not_mem_nil, or_false] at hother
    rcases hother with rfl | rfl | rfl | rfl <;> decide

theorem readLiteral?_word (hne : text ≠ []) (hword : ∀ c ∈ text, isMark c = false)
    (h : EndsLiteral rest) : readLiteral? (text ++ rest) = some (.word text, rest) := by
  have hall : ∀ c ∈ text, (!isMark c) = true := fun c hc => by rw [hword c hc]; rfl
  have hstop : ∀ c ∈ rest.head?, ¬ (!isMark c) = true := by
    intro c hc
    rcases h c hc with rfl | rfl <;> decide
  have htake : (text ++ rest).takeWhile (!isMark ·) = text := by
    rw [List.takeWhile_append_of_pos hall]
    cases rest with
    | nil => exact List.append_nil _
    | cons c rest =>
      rw [List.takeWhile_cons_of_neg (p := (!isMark ·)) (hstop c rfl), List.append_nil]
  have hdrop : (text ++ rest).dropWhile (!isMark ·) = rest := by
    rw [List.dropWhile_append_of_pos hall]
    cases rest with
    | nil => rfl
    | cons c rest => exact List.dropWhile_cons_of_neg (hstop c rfl)
  cases text with
  | nil => exact absurd rfl hne
  | cons c text =>
    have hc := hword c List.mem_cons_self
    have hquote : c ≠ '\'' := by
      rintro rfl
      cases hc
    rw [List.cons_append] at htake hdrop ⊢
    rw [readLiteral?, if_neg hquote, if_neg (by rw [hc]; decide), htake, hdrop]

/-! ## Literals -/

/-- What a value is read back as: a text as itself, an array or an object as its compact text, and
anything else as a word. -/
def Literal.ofJson : Json → Literal
  | .null => .word "NULL".toList
  | .bool b => .word (if b then "TRUE" else "FALSE").toList
  | .number n => .word n.text
  | .string s => .string s.toList
  | .array items => .string (Json.array items).compact.toList
  | .object members => .string (Json.object members).compact.toList

/-- The literal of a value is a text in quotes or a word. -/
theorem literal_cases (v : Json) :
    (∃ content, Literal.ofJson v = .string content ∧ literal v = quoted content) ∨
      (Literal.ofJson v = .word (literal v) ∧ literal v ≠ [] ∧
        ∀ c ∈ literal v, isMark c = false) := by
  match v with
  | .null | .bool true | .bool false =>
    refine .inr ⟨rfl, by decide, fun c hc => ?_⟩
    have hunmarked := (List.all_eq_true (p := (!isMark ·))).mp (by decide) c hc
    exact Bool.eq_false_of_not_eq_true' hunmarked
  | .number n =>
    obtain ⟨c, text, hc, -⟩ := (Json.number n).chars_starts
    refine .inr ⟨rfl, fun hnil => List.cons_ne_nil c text (hc.symm.trans hnil), fun d hd => ?_⟩
    exact isMark_of_isNumeral (Json.Number.isNumeral hd)
  | .string s => exact .inl ⟨_, rfl, rfl⟩
  | .array items => exact .inl ⟨_, rfl, by simp [literal, Json.compact]⟩
  | .object members => exact .inl ⟨_, rfl, by simp [literal, Json.compact]⟩

/-- The literal of a value, read in front of a comma, a parenthesis or the end. -/
theorem readLiteral?_literal (v : Json) (h : EndsLiteral rest) :
    readLiteral? (literal v ++ rest) = some (Literal.ofJson v, rest) := by
  rcases literal_cases v with ⟨content, hv, hquoted⟩ | ⟨hv, hne, hword⟩
  · rw [hv, hquoted, readLiteral?_quoted h.not_quote]
  · rw [hv, readLiteral?_word hne hword h]

/-- Two values with one literal are read back as the same. -/
theorem literal_eq_iff : literal v = literal w ↔ Literal.ofJson v = Literal.ofJson w := by
  constructor
  · intro h
    have hends : EndsLiteral [] := by rintro c ⟨⟩
    have hv := readLiteral?_literal v hends
    rw [h, readLiteral?_literal w hends] at hv
    exact (Prod.mk.inj (Option.some.inj hv)).1.symm
  · intro h
    rcases literal_cases v with ⟨content, hv, hquoted⟩ | ⟨hv, -⟩ <;>
      rcases literal_cases w with ⟨content', hw, hquoted'⟩ | ⟨hw, -⟩ <;>
      rw [hv, hw] at h
    · rw [hquoted, hquoted', Literal.string.inj h]
    · cases h
    · cases h
    · exact Literal.word.inj h

theorem trimStart_literal (v : Json) (rest : List Char) :
    Text.trimStart (literal v ++ rest) = literal v ++ rest := by
  rcases literal_cases v with ⟨content, -, hquoted⟩ | ⟨-, hne, hword⟩
  · rw [hquoted, quoted_append]
    exact Text.trimStart_cons (by decide) _
  · obtain ⟨c, text, hc⟩ := List.exists_cons_of_ne_nil hne
    have hblank : Text.isBlank c = false :=
      (Bool.or_eq_false_iff.mp (hword c (hc ▸ List.mem_cons_self))).2
    rw [hc, List.cons_append, Text.trimStart_cons hblank]

/-! ## Lists -/

/-- What stands behind the first of some joined texts. -/
def behindText (separator : List Char) : List (List Char) → List Char → List Char
  | [], rest => rest
  | text :: texts, rest => separator ++ (joined separator (text :: texts) ++ rest)

theorem joined_append (separator text rest : List Char) (texts : List (List Char)) :
    joined separator (text :: texts) ++ rest = text ++ behindText separator texts rest := by
  cases texts <;> simp [joined, behindText]

theorem endsLiteral_behindText (texts : List (List Char)) (rest : List Char) :
    EndsLiteral (behindText ", ".toList texts (')' :: rest)) := by
  cases texts with
  | nil => rintro c ⟨⟩; exact .inr rfl
  | cons text texts => rintro c ⟨⟩; exact .inl rfl

/-- A list is read item by item, with white space in front of it or not. -/
theorem readItems?_joined {first : Json} {others : List Json}
    (h : Text.trimStart text
      = joined ", ".toList ((first :: others).map literal) ++ ')' :: rest) :
    readItems? text = some ((first :: others).map Literal.ofJson, rest) := by
  induction others generalizing first text with
  | nil =>
    rw [List.map_cons, joined_append] at h
    have hfirst := readLiteral?_literal first (endsLiteral_behindText [] rest)
    have hclose : Text.trimStart (behindText ", ".toList [] (')' :: rest)) = ')' :: rest :=
      Text.trimStart_cons (by decide) rest
    rw [readItems?_of_literal ((congrArg readLiteral? h).trans hfirst), hclose]
    rfl
  | cons next others ih =>
    rw [List.map_cons, joined_append] at h
    have hfirst := readLiteral?_literal first
      (endsLiteral_behindText ((next :: others).map literal) rest)
    -- behind the first item stand a comma, a space and the list of the others
    have hcomma : Text.trimStart
        (behindText ", ".toList ((next :: others).map literal) (')' :: rest))
          = ',' :: ' ' :: (joined ", ".toList ((next :: others).map literal) ++ ')' :: rest) :=
      Text.trimStart_cons (by decide) _
    have hothers : Text.trimStart
        (' ' :: (joined ", ".toList ((next :: others).map literal) ++ ')' :: rest))
          = joined ", ".toList ((next :: others).map literal) ++ ')' :: rest := by
      rw [List.map_cons, joined_append]
      exact trimStart_literal next _
    rw [readItems?_of_literal ((congrArg readLiteral? h).trans hfirst), hcomma]
    show Option.map _ (readItems? _) = _
    rw [ih hothers]
    rfl

/-- The text of a list in parentheses. -/
theorem readList?_joined (first : Json) (others : List Json) (rest : List Char) :
    readList? ('(' :: (joined ", ".toList ((first :: others).map literal) ++ ')' :: rest))
      = some ((first :: others).map Literal.ofJson, rest) := by
  refine readItems?_joined ?_
  rw [List.map_cons, joined_append]
  exact trimStart_literal first _

/-- One text of a list, one list of literals. -/
theorem map_ofJson_of_joined {first first' : Json} {others others' : List Json}
    (h : joined ", ".toList ((first :: others).map literal) ++ ')' :: rest
      = joined ", ".toList ((first' :: others').map literal) ++ ')' :: rest') :
    (first :: others).map Literal.ofJson = (first' :: others').map Literal.ofJson := by
  have hread := readList?_joined first others rest
  rw [h, readList?_joined] at hread
  exact (Prod.mk.inj (Option.some.inj hread)).1.symm

theorem predicate_list (field : String) (first : Json) (others : List Json) :
    predicate field (.array (first :: others)) = field.toList ++ " IN ".toList
      ++ '(' :: (joined ", ".toList ((first :: others).map literal) ++ [')']) := by
  simp [predicate]

/-- The filter of an empty list is written differently from that of any other list. -/
theorem predicate_list_ne_never (field : String) (first : Json) (others : List Json) :
    predicate field (.array (first :: others)) ≠ predicate field (.array []) := by
  intro h
  have hlast : (predicate field (.array (first :: others))).getLast? = some ')' :=
    List.getLast?_concat
  rw [h] at hlast
  cases hlast

/-! ## Filters -/

theorem isMark_eq_false_iff {c : Char} :
    isMark c = false ↔ c ∉ ['\'', '(', ')', ','] ∧ Text.isBlank c = false := by
  simp [isMark, and_assoc]

theorem map_ofJson_string (strings : List String) :
    (strings.map Json.string).map Literal.ofJson = strings.map fun s => .string s.toList := by
  rw [List.map_map]
  rfl

/-- **Literals read back.** The literal of any value is read as one literal and nothing behind it:
as a string for a text, an array or an object, with the text or the compact text as its content,
and as a word for anything else, which has no quote, parenthesis, comma or white space in it. The
list of a filter is read, whatever follows it, as one literal for each item, in their order. So
filters that ask for different lists of texts are written differently. -/
theorem literals_read_back :
    (∀ v, readLiteral? (literal v) = some (Literal.ofJson v, [])) ∧
    (∀ v text, Literal.ofJson v = .word text →
      literal v = text ∧ ∀ c ∈ text, c ∉ ['\'', '(', ')', ','] ∧ Text.isBlank c = false) ∧
    (∀ field first others, ∃ list : List Char,
      predicate field (.array (first :: others)) = field.toList ++ " IN ".toList ++ list ∧
      ∀ rest, readList? (list ++ rest) = some ((first :: others).map Literal.ofJson, rest)) ∧
    ∀ field (strings strings' : List String),
      predicate field (.array (strings.map .string))
          = predicate field (.array (strings'.map .string)) ↔ strings = strings' := by
  refine ⟨fun v => ?_, fun v text hv => ?_, fun field first others => ?_,
    fun field strings strings' => ⟨fun h => ?_, by rintro rfl; rfl⟩⟩
  · have hends : EndsLiteral [] := by rintro c ⟨⟩
    simpa using readLiteral?_literal v hends
  · rcases literal_cases v with ⟨content, hstring, -⟩ | ⟨hword, -, hplain⟩
    · cases hstring.symm.trans hv
    · cases hword.symm.trans hv
      exact ⟨rfl, fun c hc => isMark_eq_false_iff.mp (hplain c hc)⟩
  · refine ⟨_, predicate_list field first others, fun rest => ?_⟩
    rw [← readList?_joined first others rest]
    simp
  · cases strings with
    | nil =>
      cases strings' with
      | nil => rfl
      | cons s strings' => exact absurd h.symm (predicate_list_ne_never field _ _)
    | cons s strings =>
      cases strings' with
      | nil => exact absurd h (predicate_list_ne_never field _ _)
      | cons s' strings' =>
        rw [List.map_cons, List.map_cons, predicate_list, predicate_list] at h
        have hitems :=
          map_ofJson_of_joined (List.tail_eq_of_cons_eq (List.append_cancel_left h))
        rw [← List.map_cons, ← List.map_cons, map_ofJson_string, map_ofJson_string] at hitems
        exact (List.map_inj_right fun _ _ hs =>
          String.toList_inj.mp (Literal.string.inj hs)).mp hitems

end Bulletin.Sql
