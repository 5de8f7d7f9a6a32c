import Bulletin.Document.Render
import Bulletin.Proofs.IdentText
import Bulletin.Proofs.InstantText

/-!
# The layout of a document

A document says where its parts are: a table gives the position of each object, the end of the file
gives the position of the table, and an object with a stream gives the length of the stream. The
positions count bytes, and they are computed while texts of any length are written one behind the
other. Here they are compared with the bytes of the finished file.

What is written of any objects has the right positions, as long as these have ten digits at most.
The page itself is one object of five, and its strings are read by their brackets.

* `bytes_of_ascii` — characters are counted like bytes
* `Layout`, `layout_place` — the positions in a file of some objects
* `strings?_stream` — the lines of a page
* `document_layout`
-/

namespace Bulletin.Pdf

/-! ## Bytes -/

/-- The bytes of an ASCII text. -/
def ascii (text : List Char) : List UInt8 := text.map Char.toUInt8

def Ascii (text : List Char) : Prop := ∀ c ∈ text, c.toNat < 128

instance (text : List Char) : Decidable (Ascii text) := List.decidableBAll _ text

variable {text text' : List Char}

theorem Ascii.append (h : Ascii text) (h' : Ascii text') : Ascii (text ++ text') :=
  List.forall_mem_append.mpr ⟨h, h'⟩

theorem ascii_of_isDigit (h : ∀ c ∈ text, c.isDigit = true) : Ascii text := by
  intro c hc
  have hdigit := h c hc
  simp only [Char.isDigit, Bool.and_eq_true, decide_eq_true_eq] at hdigit
  have hle : c.toNat ≤ 57 := UInt32.le_iff_toNat_le.mp hdigit.2
  omega

theorem ascii_natText (n : Nat) : Ascii (natText n) :=
  ascii_of_isDigit (Json.isDigits_natText n).2

theorem bytes_of_ascii (h : Ascii text) : (Document.bytes text).data.toList = ascii text := by
  have hone : ∀ c ∈ text, String.utf8EncodeChar c = [c.toUInt8] := by
    intro c hc
    have hsize : c.utf8Size = 1 := by
      rw [Char.utf8Size_eq_one_iff, UInt32.le_iff_toNat_le]
      exact Nat.le_of_lt_succ (h c hc)
    exact String.utf8EncodeChar_eq_singleton hsize
  have hencode : text.flatMap String.utf8EncodeChar = ascii text := by
    rw [List.flatMap_def, List.map_congr_left hone, ← List.flatMap_def, ← List.map_eq_flatMap]
    rfl
  unfold Document.bytes
  rw [String.toUTF8_eq_toByteArray, String.toByteArray_ofList, List.utf8Encode, hencode]
  simp

/-! ## Parts of a file -/

section Parts

variable {α β : Type} {all part more : List α} {start stop : Nat}

/-- A part fills a file from one position up to another one. -/
def Lies (all : List α) (start stop : Nat) (part : List α) : Prop :=
  ∃ before after, all = before ++ part ++ after ∧ before.length = start ∧
    start + part.length = stop

/-- What stands behind a text does not move its parts. -/
theorem Lies.append (h : Lies all start stop part) (more : List α) :
    Lies (all ++ more) start stop part := by
  obtain ⟨before, after, rfl, hstart, hstop⟩ := h
  exact ⟨before, after ++ more, by simp, hstart, hstop⟩

/-- What stands in front of a text moves its parts. -/
theorem Lies.prepend (h : Lies all start stop part) (front : List α) :
    Lies (front ++ all) (front.length + start) (front.length + stop) part := by
  obtain ⟨before, after, rfl, rfl, rfl⟩ := h
  exact ⟨front ++ before, after, by simp, by simp, by simp [Nat.add_assoc]⟩

theorem Lies.map (h : Lies all start stop part) (f : α → β) :
    Lies (all.map f) start stop (part.map f) := by
  obtain ⟨before, after, rfl, hstart, hstop⟩ := h
  exact ⟨before.map f, after.map f, by simp, by simp [hstart], by simp [hstop]⟩

theorem Lies.congr {start' stop' : Nat} (h : Lies all start stop part) (hstart : start = start')
    (hstop : stop = stop') : Lies all start' stop' part := hstart ▸ hstop ▸ h

/-- A text with another one behind it. -/
theorem lies_append (part more : List α) : Lies (part ++ more) 0 part.length part :=
  ⟨[], more, rfl, rfl, Nat.zero_add _⟩

/-- Rows of one width stand at the multiples of the width. -/
theorem lies_flatMap {write : β → List α} {width i : Nat} {bs : List β} {b : β}
    (hwidth : ∀ b ∈ bs, (write b).length = width) (h : bs[i]? = some b) :
    Lies (bs.flatMap write) (width * i) (width * (i + 1)) (write b) := by
  induction bs generalizing i with
  | nil => simp at h
  | cons first bs ih =>
    obtain ⟨hfirst, hbs⟩ := List.forall_mem_cons.mp hwidth
    cases i with
    | zero =>
      have hsame : first = b := by simpa using h
      have hlies := lies_append (write first) (bs.flatMap write)
      rw [hfirst, hsame] at hlies
      rwa [List.flatMap_cons, hsame, Nat.mul_zero, Nat.zero_add, Nat.mul_one]
    | succ i =>
      have hlies := (ih hbs h).prepend (write first)
      have hsucc : ∀ k, width + width * k = width * (k + 1) := fun k => by
        rw [Nat.mul_succ, Nat.add_comm]
      rwa [hfirst, hsucc, hsucc, ← List.flatMap_cons] at hlies

theorem length_flatMap_of_width {write : β → List α} {width : Nat} {bs : List β}
    (hwidth : ∀ b ∈ bs, (write b).length = width) :
    (bs.flatMap write).length = width * bs.length := by
  rw [List.length_flatMap, List.map_congr_left hwidth, List.map_const', List.sum_replicate_nat,
    Nat.mul_comm]

end Parts

/-! ## Positions of objects -/

/-- The line in front of the rows of the table. -/
def tableHeading (rows : Nat) : List Char := "xref\n0 ".toList ++ natText rows ++ "\n".toList

/-- The row of no object. -/
def freeRow : List Char := "0000000000 65535 f \n".toList

/-- What stands behind the rows of the table. -/
def fileEnding (rows tableAt : Nat) : List Char :=
  "trailer\n<< /Size ".toList ++ natText rows ++ " /Root 1 0 R >>\nstartxref\n".toList
    ++ natText tableAt ++ "\n%%EOF\n".toList

/-- The positions and lengths that a file states are those of its parts. -/
structure Layout (file : List UInt8) (bodies : List (List Char)) (positions : List Nat)
    (tableAt rowsAt : Nat) : Prop where
  /-- a position for each object -/
  length_positions : positions.length = bodies.length
  /-- the objects stand behind the first line -/
  first : ∀ position, (positions ++ [tableAt])[0]? = some position →
    Lies file 0 position (ascii "%PDF-1.4\n".toList)
  /-- an object, with its number, is all there is from its position to the next one, and the table
  comes behind the last object -/
  object : ∀ (i position next : Nat) (body : List Char), positions[i]? = some position →
    (positions ++ [tableAt])[i + 1]? = some next → bodies[i]? = some body →
    Lies file position next
      (ascii (natText (i + 1) ++ " 0 obj\n".toList ++ body ++ "\nendobj\n".toList))
  /-- the table begins with the number of its rows -/
  heading : Lies file tableAt rowsAt (ascii (tableHeading (bodies.length + 1)))
  /-- the first row is that of no object -/
  free : Lies file rowsAt (rowsAt + 20) (ascii freeRow)
  /-- the next rows give the positions in ten digits -/
  row : ∀ i position, positions[i]? = some position → ∃ digits : List Char,
    digits.length = 10 ∧ Json.IsDigits digits ∧ digitsValue digits = position ∧
      Lies file (rowsAt + 20 * (i + 1)) (rowsAt + 20 * (i + 2))
        (ascii (digits ++ " 00000 n \n".toList))
  /-- the end of the file gives the number of the rows and the position of the table -/
  ending : Lies file (rowsAt + 20 * (bodies.length + 1)) file.length
    (ascii (fileEnding (bodies.length + 1) tableAt))

section Place

variable {number : Nat} {before : List Char} {bodies : List (List Char)}

theorem prefix_place (number : Nat) (before : List Char) (bodies : List (List Char)) :
    before <+: (place number before bodies).1 := by
  induction bodies generalizing number before with
  | nil => exact List.prefix_refl before
  | cons body bodies ih => exact (List.prefix_append before _).trans (ih _ _)

theorem length_place (number : Nat) (before : List Char) (bodies : List (List Char)) :
    (place number before bodies).2.length = bodies.length := by
  induction bodies generalizing number before with
  | nil => rfl
  | cons body bodies ih => exact congrArg (· + 1) (ih _ _)

/-- No position lies behind the objects. -/
theorem le_length_place {position : Nat} (h : position ∈ (place number before bodies).2) :
    position ≤ (place number before bodies).1.length := by
  induction bodies generalizing number before with
  | nil => cases h
  | cons body bodies ih =>
    rcases List.mem_cons.mp h with rfl | h
    · exact (prefix_place number before (body :: bodies)).length_le
    · exact ih h

/-- Where the next part begins, an object or whatever stands behind the objects. -/
theorem getElem?_zero_place (number : Nat) (before : List Char) (bodies : List (List Char)) :
    ((place number before bodies).2 ++ [(place number before bodies).1.length])[0]?
      = some before.length := by
  cases bodies <;> rfl

/-- Each object lies between its position and the next one. -/
theorem lies_place {i position next : Nat} {body : List Char}
    (hposition : (place number before bodies).2[i]? = some position)
    (hnext : ((place number before bodies).2
      ++ [(place number before bodies).1.length])[i + 1]? = some next)
    (hbody : bodies[i]? = some body) :
    Lies (place number before bodies).1 position next (numbered (number + i) body) := by
  induction bodies generalizing number before i with
  | nil => simp at hbody
  | cons first bodies ih =>
    cases i with
    | zero =>
      have hfirst : first = body := by simpa using hbody
      have hat : before.length = position := by simpa [place] using hposition
      have hend : (before ++ numbered number first).length = next := by
        have hzero := getElem?_zero_place (number + 1) (before ++ numbered number first) bodies
        exact Option.some.inj (hzero.symm.trans hnext)
      obtain ⟨after, hafter⟩ :=
        prefix_place (number + 1) (before ++ numbered number first) bodies
      subst hfirst hat hend
      exact ⟨before, after, hafter.symm, rfl, List.length_append.symm⟩
    | succ i =>
      have hrest : Lies (place (number + 1) (before ++ numbered number first) bodies).1
          position next (numbered (number + 1 + i) body) := ih hposition hnext hbody
      rw [Nat.add_assoc, Nat.add_comm 1 i] at hrest
      exact hrest

end Place

section Closing

variable {positions : List Nat} {tableAt : Nat}

/-- The parts of the text behind the objects. -/
theorem closing_eq (positions : List Nat) (tableAt : Nat) : closing positions tableAt
    = tableHeading (positions.length + 1) ++ (freeRow
      ++ (positions.flatMap positionEntry ++ fileEnding (positions.length + 1) tableAt)) := by
  have hfree : "\n0000000000 65535 f \n".toList = "\n".toList ++ freeRow := rfl
  unfold closing tableHeading fileEnding
  rw [hfree]
  simp only [List.append_assoc]

theorem lies_tableHeading : Lies (closing positions tableAt) 0
    (tableHeading (positions.length + 1)).length (tableHeading (positions.length + 1)) := by
  rw [closing_eq]
  exact lies_append _ _

theorem lies_freeRow : Lies (closing positions tableAt) (tableHeading (positions.length + 1)).length
    ((tableHeading (positions.length + 1)).length + 20) freeRow := by
  rw [closing_eq]
  exact (lies_append _ _).prepend _

theorem length_positionEntry {position : Nat} (h : position < 10 ^ 10) :
    (positionEntry position).length = 20 := by
  rw [positionEntry, List.length_append, length_paddedText (by decide) h]
  rfl

variable (h : ∀ position ∈ positions, (positionEntry position).length = 20)
include h

theorem lies_positionEntry {i position : Nat} (hposition : positions[i]? = some position) :
    Lies (closing positions tableAt) ((tableHeading (positions.length + 1)).length + 20 * (i + 1))
      ((tableHeading (positions.length + 1)).length + 20 * (i + 2)) (positionEntry position) := by
  have hfree : freeRow.length = 20 := rfl
  have hrow := (lies_flatMap h hposition).append (fileEnding (positions.length + 1) tableAt)
  rw [closing_eq]
  exact ((hrow.prepend freeRow).prepend _).congr (by omega) (by omega)

theorem lies_fileEnding : Lies (closing positions tableAt)
    ((tableHeading (positions.length + 1)).length + 20 * (positions.length + 1))
    (closing positions tableAt).length (fileEnding (positions.length + 1) tableAt) := by
  have hfree : freeRow.length = 20 := rfl
  have hrows := length_flatMap_of_width h
  have hend := lies_append (fileEnding (positions.length + 1) tableAt) []
  rw [List.append_nil] at hend
  rw [closing_eq]
  refine (((hend.prepend _).prepend freeRow).prepend _).congr (by omega) ?_
  simp only [List.length_append]

end Closing

/-- Objects that are written one behind the other have the right positions, if ten digits are
enough for them. -/
theorem layout_place (bodies : List (List Char)) :
    let placed := place 1 "%PDF-1.4\n".toList bodies
    placed.1.length < 10 ^ 10 → ∃ rowsAt,
      Layout (ascii (placed.1 ++ closing placed.2 placed.1.length)) bodies placed.2
        placed.1.length rowsAt := by
  intro placed hsize
  have hlength : placed.2.length = bodies.length := length_place 1 _ bodies
  have hfits : ∀ position ∈ placed.2, position < 10 ^ 10 := fun position h =>
    Nat.lt_of_le_of_lt (le_length_place h) hsize
  have hwidth : ∀ position ∈ placed.2, (positionEntry position).length = 20 := fun position h =>
    length_positionEntry (hfits position h)
  refine ⟨placed.1.length + (tableHeading (bodies.length + 1)).length, ?_⟩
  rw [← hlength]
  constructor
  case length_positions => exact hlength
  case first =>
    intro position hposition
    have hfirst := getElem?_zero_place 1 "%PDF-1.4\n".toList bodies
    obtain rfl : "%PDF-1.4\n".toList.length = position :=
      Option.some.inj (hfirst.symm.trans hposition)
    obtain ⟨after, hafter⟩ := prefix_place 1 "%PDF-1.4\n".toList bodies
    have hlies := lies_append "%PDF-1.4\n".toList after
    rw [hafter] at hlies
    exact (hlies.append _).map _
  case object =>
    intro i position next body hposition hnext hbody
    have hlies := lies_place hposition hnext hbody
    rw [Nat.add_comm 1 i] at hlies
    exact (hlies.append _).map _
  case heading =>
    rw [← hlength]
    exact (lies_tableHeading.prepend placed.1).map _
  case free => exact ((lies_freeRow.prepend placed.1).map _).congr rfl (by omega)
  case row =>
    intro i position hposition
    have hmem := List.mem_of_getElem? hposition
    refine ⟨paddedText 10 position, length_paddedText (by decide) (hfits position hmem),
      isDigits_paddedText 10 position, digitsValue_paddedText 10 position, ?_⟩
    exact (((lies_positionEntry hwidth hposition).prepend placed.1).map _).congr
      (by omega) (by omega)
  case ending =>
    rw [← hlength]
    refine (((lies_fileEnding hwidth).prepend placed.1).map _).congr (by omega) ?_
    simp only [ascii, List.length_map, List.length_append]

/-! ## Strings of a page -/

/-- The strings of a content stream, from outside of all strings or from within one, behind some of
its characters and with some brackets open in it. In a string a backslash takes away the meaning of
a bracket or a backslash. -/
def stringsFrom? : Option (Nat × List Char) → List Char → Option (List (List Char))
  | none, [] => some []
  | some _, [] => none
  | none, c :: rest =>
    if c = '(' then stringsFrom? (some (0, [])) rest
    else if c = ')' then none
    else stringsFrom? none rest
  | some (depth, text), '\\' :: c :: rest =>
    if c = '\\' ∨ c = '(' ∨ c = ')' then stringsFrom? (some (depth, text ++ [c])) rest else none
  | some (depth, text), '(' :: rest => stringsFrom? (some (depth + 1, text ++ ['('])) rest
  | some (0, text), ')' :: rest => (stringsFrom? none rest).map (text :: ·)
  | some (depth + 1, text), ')' :: rest => stringsFrom? (some (depth, text ++ [')'])) rest
  | some (depth, text), c :: rest => stringsFrom? (some (depth, text ++ [c])) rest

/-- The strings of a content stream. -/
def strings? (stream : List Char) : Option (List (List Char)) := stringsFrom? none stream

theorem stringsFrom?_escapeChar (c : Char) (rest : List Char) :
    stringsFrom? (some (0, text)) (escapeChar c ++ rest)
      = stringsFrom? (some (0, text ++ [c])) rest := by
  unfold escapeChar
  by_cases h : c = '\\' ∨ c = '(' ∨ c = ')'
  · rw [if_pos h]
    exact if_pos h
  · rw [if_neg h]
    rw [not_or, not_or] at h
    obtain ⟨hbackslash, hopening, hclosing⟩ := h
    rw [List.cons_append, List.nil_append, stringsFrom?] <;> simp [hbackslash, hopening, hclosing]

/-- An escaped line is read to its end. -/
theorem stringsFrom?_escape (line rest : List Char) :
    stringsFrom? (some (0, text)) (line.flatMap escapeChar ++ rest)
      = stringsFrom? (some (0, text ++ line)) rest := by
  induction line generalizing text with
  | nil => rw [List.append_nil]; rfl
  | cons c line ih =>
    rw [List.flatMap_cons, List.append_assoc, stringsFrom?_escapeChar, ih, List.append_assoc]
    rfl

/-- There are no strings in a text without brackets. -/
theorem stringsFrom?_outside (h : '(' ∉ text ∧ ')' ∉ text) (rest : List Char) :
    stringsFrom? none (text ++ rest) = stringsFrom? none rest := by
  induction text with
  | nil => rfl
  | cons c text ih =>
    simp only [List.mem_cons, not_or] at h
    rw [List.cons_append, stringsFrom?, if_neg (Ne.symm h.1.1), if_neg (Ne.symm h.2.1)]
    exact ih ⟨h.1.2, h.2.2⟩

theorem stringsFrom?_shown (line rest : List Char) :
    stringsFrom? none (shown line ++ rest) = (stringsFrom? none rest).map (line :: ·) := by
  unfold shown
  rw [List.cons_append, List.cons_append, stringsFrom?, if_pos rfl, List.append_assoc,
    stringsFrom?_escape]
  exact congrArg (Option.map _) (stringsFrom?_outside (by decide) rest)

/-- A page is read line by line. -/
theorem strings?_stream {front behind : List Char} (hfront : '(' ∉ front ∧ ')' ∉ front)
    (hbehind : '(' ∉ behind ∧ ')' ∉ behind) (lines : List (List Char)) :
    strings? (front ++ lines.flatMap shown ++ behind) = some lines := by
  have hlines : stringsFrom? none (lines.flatMap shown ++ behind) = some lines := by
    induction lines with
    | nil =>
      have hend := stringsFrom?_outside hbehind []
      rwa [List.append_nil] at hend
    | cons line lines ih =>
      rw [List.flatMap_cons, List.append_assoc, stringsFrom?_shown, ih]
      rfl
  rw [strings?, List.append_assoc, stringsFrom?_outside hfront, hlines]

/-! ## How much there is to write -/

/-- An ASCII text that is not longer than a limit. -/
def Fits (limit : Nat) (text : List Char) : Prop := Ascii text ∧ text.length ≤ limit

instance (limit : Nat) (text : List Char) : Decidable (Fits limit text) :=
  inferInstanceAs (Decidable (Ascii text ∧ text.length ≤ limit))

section Fits

variable {limit limit' : Nat}

theorem Fits.append (h : Fits limit text) (h' : Fits limit' text') :
    Fits (limit + limit') (text ++ text') := by
  refine ⟨h.1.append h'.1, ?_⟩
  rw [List.length_append]
  exact Nat.add_le_add h.2 h'.2

theorem Fits.mono (h : Fits limit text) (hle : limit ≤ limit') : Fits limit' text :=
  ⟨h.1, h.2.trans hle⟩

theorem Fits.flatMap {α : Type} {write : α → List Char} {as : List α}
    (h : ∀ a ∈ as, Fits limit (write a)) : Fits (limit * as.length) (as.flatMap write) := by
  induction as with
  | nil => exact ⟨fun c hc => absurd hc List.not_mem_nil, Nat.zero_le _⟩
  | cons a as ih =>
    obtain ⟨ha, has⟩ := List.forall_mem_cons.mp h
    rw [List.flatMap_cons, List.length_cons, Nat.mul_succ, Nat.add_comm]
    exact ha.append (ih has)

theorem fits_natText {n : Nat} (hlimit : 0 < limit) (h : n < 10 ^ limit) :
    Fits limit (natText n) :=
  ⟨ascii_natText n, (Nat.length_toDigits_le_iff (by decide) hlimit).mpr h⟩

theorem fits_word (n : UInt64) : Fits 20 (natText n.toNat) := by
  have hlt := n.toNat_lt
  exact fits_natText (by decide) (by omega)

theorem ascii_hexDigits (count n : Nat) : Ascii (Uuid.hexDigits count n) := by
  have hdigit : ∀ n : Fin 16, (Json.hexDigit n.val).toNat < 128 := by decide
  induction count with
  | zero => exact fun c hc => absurd hc List.not_mem_nil
  | succ count ih => exact List.forall_mem_cons.mpr ⟨hdigit ⟨_, Nat.mod_lt _ (by decide)⟩, ih⟩

theorem fits_keyChars (u : Uuid) : Fits 36 u.keyChars := by
  have hdigits := ascii_hexDigits 32 u.value.toNat
  refine ⟨fun c hc => ?_, (Uuid.length_hyphenate (Uuid.length_hexDigits 32 _)).le⟩
  by_cases hhyphen : c = '-'
  · subst hhyphen
    decide
  · -- all other characters of a key are its digits
    have hmem : c ∈ u.keyChars.filter (· ≠ '-') :=
      List.mem_filter.mpr ⟨hc, decide_eq_true hhyphen⟩
    rw [Uuid.keyChars, Uuid.filter_hyphenate fun _ => Uuid.ne_hyphen_of_mem_hexDigits] at hmem
    exact hdigits c hmem

/-- The lines are short, whatever they count. -/
theorem fits_lines (execution : ExecutionId) (rows charts : UInt64) :
    ∀ line ∈ lines execution rows.toNat charts.toNat, Fits 48 line := by
  have hkey : execution.key.toList = execution.uuid.keyChars := String.toList_ofList
  have hdisplay : execution.display.toList = "exec_".toList ++ execution.uuid.keyChars := by
    rw [Id.display, String.toList_append, String.toList_append, hkey]
    rfl
  have hreport : Fits 12 ("Report ".toList ++ "exec_".toList) := by decide
  have hrows : Fits 6 "Rows: ".toList := by decide
  have hcharts : Fits 8 "Charts: ".toList := by decide
  intro line hline
  simp only [lines, hdisplay, List.mem_cons, List.not_mem_nil, or_false] at hline
  rcases hline with rfl | rfl | rfl
  · rw [← List.append_assoc]
    exact hreport.append (fits_keyChars _)
  · exact (hrows.append (fits_word rows)).mono (by decide)
  · exact (hcharts.append (fits_word charts)).mono (by decide)

theorem fits_escapeChar {c : Char} (h : c.toNat < 128) : Fits 2 (escapeChar c) := by
  unfold escapeChar Fits Ascii
  split <;> simp [h]

theorem fits_shown (h : Fits limit text) : Fits (2 * limit + 9) (shown text) := by
  have hescape := Fits.flatMap fun c hc => fits_escapeChar (h.1 c hc)
  have hopening : Fits 1 ['('] := by decide
  have hbehind : Fits 8 ") Tj T*\n".toList := by decide
  have hle := h.2
  exact ((hopening.append hescape).append hbehind).mono (by omega)

theorem fits_content (execution : ExecutionId) (rows charts : UInt64) :
    Fits 1000 (content execution rows.toNat charts.toNat) := by
  have hfront : Fits 29 "BT /F1 12 Tf 16 TL 72 720 Td\n".toList := by decide
  have hlines := Fits.flatMap fun line hline =>
    fits_shown (fits_lines execution rows charts line hline)
  have hbehind : Fits 3 "ET\n".toList := by decide
  have hthree : (lines execution rows.toNat charts.toNat).length = 3 := rfl
  exact ((hfront.append hlines).append hbehind).mono (by rw [hthree]; decide)

theorem fits_objects {stream : List Char} (h : Fits 1000 stream) :
    ∀ body ∈ objects stream, Fits 1100 body := by
  have hlength : Fits 4 (natText stream.length) := fits_natText (by decide) (by have := h.2; omega)
  have hfront : Fits 11 "<< /Length ".toList := by decide
  have hmiddle : Fits 11 " >>\nstream\n".toList := by decide
  have hbehind : Fits 9 "endstream".toList := by decide
  have hcontent := (((hfront.append hlength).append hmiddle).append h).append hbehind
  have hpage : Fits 110 ("<< /Type /Page /Parent 2 0 R /MediaBox [0 0 612 792] " ++
      "/Contents 4 0 R /Resources << /Font << /F1 5 0 R >> >> >>").toList := by
    rw [String.toList_append]
    decide
  unfold objects
  simp only [List.forall_mem_cons]
  exact ⟨by decide, by decide, hpage.mono (by decide), hcontent.mono (by decide), by decide,
    fun body hbody => absurd hbody List.not_mem_nil⟩

theorem fits_numbered {number : Nat} (hnumber : number < 10 ^ 20) (h : Fits limit text) :
    Fits (limit + 35) (numbered number text) := by
  have htext : Fits 20 (natText number) := fits_natText (by decide) hnumber
  have hfront : Fits 7 " 0 obj\n".toList := by decide
  have hbehind : Fits 8 "\nendobj\n".toList := by decide
  exact (((htext.append hfront).append h).append hbehind).mono (by omega)

/-- A few short objects do not fill a file. -/
theorem fits_place {number : Nat} {before : List Char} {bodies : List (List Char)}
    (hbefore : Fits limit' before) (hnumber : number + bodies.length ≤ 10 ^ 20)
    (h : ∀ body ∈ bodies, Fits limit body) :
    Fits (limit' + bodies.length * (limit + 35)) (place number before bodies).1 := by
  induction bodies generalizing number before limit' with
  | nil => exact hbefore.mono (Nat.le_add_right _ _)
  | cons body bodies ih =>
    obtain ⟨hbody, hbodies⟩ := List.forall_mem_cons.mp h
    rw [List.length_cons] at hnumber
    have hsmall : number < 10 ^ 20 := by omega
    have hfirst := hbefore.append (fits_numbered hsmall hbody)
    refine (ih hfirst (by omega) hbodies).mono ?_
    rw [List.length_cons, Nat.succ_mul]
    omega

theorem ascii_closing (positions : List Nat) (tableAt : Nat) :
    Ascii (closing positions tableAt) := by
  have hrows : Ascii (positions.flatMap positionEntry) := by
    refine List.forall_mem_flatMap.mpr fun position _ => ?_
    exact Ascii.append (ascii_of_isDigit (isDigits_paddedText 10 position).2) (by decide)
  have hheading : Ascii (tableHeading (positions.length + 1)) :=
    (Ascii.append (by decide) (ascii_natText _)).append (by decide)
  have hending : Ascii (fileEnding (positions.length + 1) tableAt) :=
    (((Ascii.append (by decide) (ascii_natText _)).append (by decide)).append
      (ascii_natText _)).append (by decide)
  have hfree : Ascii freeRow := by decide
  rw [closing_eq]
  exact hheading.append (hfree.append (hrows.append hending))

end Fits

/-- **The layout of a document.** In the file for any execution and any counts, every position and
every length is right. Five objects stand at the positions that the rows of the table give, the end
of the file gives the number of the rows, one more than there are objects, and the position of the
table. The fourth object states the length of its stream, in which the strings are the lines of the
page. -/
theorem document_layout (execution : ExecutionId) (rows charts : UInt64) :
    ∃ bodies positions tableAt rowsAt stream,
      Layout (Document.bytes (encode execution rows.toNat charts.toNat)).data.toList
        bodies positions tableAt rowsAt ∧
      bodies.length = 5 ∧
      bodies[3]? = some ("<< /Length ".toList ++ natText (ascii stream).length
        ++ " >>\nstream\n".toList ++ stream ++ "endstream".toList) ∧
      strings? stream = some (lines execution rows.toNat charts.toNat) := by
  have hbody : Fits (9 + 5 * (1100 + 35)) (place 1 "%PDF-1.4\n".toList
      (objects (content execution rows.toNat charts.toNat))).1 := by
    have hheader : Fits 9 "%PDF-1.4\n".toList := by decide
    exact fits_place hheader (show 1 + 5 ≤ 10 ^ 20 by decide)
      (fits_objects (fits_content execution rows charts))
  have hsize := hbody.2.trans_lt (show 9 + 5 * (1100 + 35) < 10 ^ 10 by decide)
  have hencode : Ascii (encode execution rows.toNat charts.toNat) :=
    hbody.1.append (ascii_closing _ _)
  obtain ⟨rowsAt, hlayout⟩ := layout_place _ hsize
  rw [bytes_of_ascii hencode]
  refine ⟨_, _, _, rowsAt, content execution rows.toNat charts.toNat, hlayout, rfl, ?_, ?_⟩
  · rw [ascii, List.length_map]
    rfl
  · exact strings?_stream (by decide) (by decide) _

end Bulletin.Pdf
