import Bulletin.Proofs.WrittenForms

/-!
# Reading text with tags

The usual reader of a text with tags, which knows nothing of who wrote it. It takes the text apart
in front of every tag, keeps the elements that are open, and decodes the entities of the texts
between the tags. A tag that closes another element than the innermost one is refused, and so are
an entity that is not known and an element that stays open.

What is read of a text can be put together from its parts, element by element.

* `Marks` — a text stands for some nodes, wherever it stands
* `Marks.append`, `Marks.flatMap`, `marks_instruction`, `Marks.element` — texts put together
* `Marks.read?` — the reader finds the nodes
-/

namespace Bulletin.Markup

/-! ## Pieces -/

/-- A tag without its brackets, and the text behind it up to the next tag. -/
structure Piece where
  tag : List Char
  text : List Char

/-- Reads a piece from behind its first bracket. -/
def piece? (text : List Char) : Option Piece :=
  match text.dropWhile (· ≠ '>') with
  | [] => none
  | _ :: behind => some ⟨text.takeWhile (· ≠ '>'), behind⟩

/-- The pieces of a text that begins with a tag. -/
def pieces? (text : List Char) : Option (List Piece) :=
  match text.splitOn '<' with
  | [] :: parts => parts.mapM piece?
  | _ => none

/-- A piece as it is written. -/
def Piece.chars (piece : Piece) : List Char := '<' :: (piece.tag ++ '>' :: piece.text)

/-- There are no brackets in a piece but those around the tag. -/
structure Piece.Plain (piece : Piece) : Prop where
  tag : ∀ c ∈ piece.tag, c ≠ '<' ∧ c ≠ '>'
  text : '<' ∉ piece.text

theorem Piece.Plain.piece? {piece : Piece} (h : piece.Plain) :
    piece? (piece.tag ++ '>' :: piece.text) = some piece := by
  have htag : ∀ c ∈ piece.tag, decide (c ≠ '>') = true := fun c hc =>
    decide_eq_true (h.tag c hc).2
  unfold Markup.piece?
  rw [List.dropWhile_append_of_pos htag, List.takeWhile_append_of_pos htag]
  simp

theorem splitOn_flatMap_chars {pieces : List Piece} (h : ∀ piece ∈ pieces, piece.Plain)
    (first : List Char) (hfirst : '<' ∉ first) :
    (first ++ pieces.flatMap Piece.chars).splitOn '<'
      = first :: pieces.map fun piece => piece.tag ++ '>' :: piece.text := by
  have hne : ∀ {text : List Char}, '<' ∉ text → ∀ c ∈ text, (c == '<') = false :=
    fun htext c hc => beq_eq_false_iff_ne.mpr fun hsame => htext (hsame ▸ hc)
  induction pieces generalizing first with
  | nil =>
    rw [List.flatMap_nil, List.append_nil]
    exact List.splitOnP_eq_singleton (hne hfirst)
  | cons piece rest ih =>
    obtain ⟨hpiece, hrest⟩ := List.forall_mem_cons.mp h
    rw [List.flatMap_cons, Piece.chars, List.cons_append]
    have hbody : '<' ∉ piece.tag ++ '>' :: piece.text := by
      simp only [List.mem_append, List.mem_cons, not_or]
      exact ⟨fun hc => (hpiece.tag _ hc).1 rfl, by decide, hpiece.text⟩
    refine (List.splitOnP_append_cons_of_forall_mem (hne hfirst) '<' rfl _).trans ?_
    exact congrArg (first :: ·) (ih hrest _ hbody)

/-- Pieces are found again in their text. -/
theorem pieces?_flatMap_chars {pieces : List Piece} (h : ∀ piece ∈ pieces, piece.Plain) :
    pieces? (pieces.flatMap Piece.chars) = some pieces := by
  have hsplit := splitOn_flatMap_chars h [] List.not_mem_nil
  rw [List.nil_append] at hsplit
  unfold pieces?
  rw [hsplit]
  dsimp only
  rw [List.mapM_map]
  refine (Draft.mapM_eq_some_map (g := id) fun piece hpiece => (h piece hpiece).piece?).trans ?_
  rw [List.map_id]

/-! ## Texts between tags -/

/-- The text with its entities decoded. -/
def unescape? : List Char → Option (List Char)
  | [] => some []
  | '&' :: 'a' :: 'm' :: 'p' :: ';' :: rest => (unescape? rest).map ('&' :: ·)
  | '&' :: 'l' :: 't' :: ';' :: rest => (unescape? rest).map ('<' :: ·)
  | '&' :: 'g' :: 't' :: ';' :: rest => (unescape? rest).map ('>' :: ·)
  | '&' :: 'q' :: 'u' :: 'o' :: 't' :: ';' :: rest => (unescape? rest).map ('"' :: ·)
  | '&' :: '#' :: '1' :: '0' :: ';' :: rest => (unescape? rest).map ('\n' :: ·)
  | c :: rest => if c = '&' then none else (unescape? rest).map (c :: ·)

theorem unescape?_plain {c : Char} (h : c ≠ '&') (rest : List Char) :
    unescape? (c :: rest) = (unescape? rest).map (c :: ·) := by
  rw [unescape?, if_neg h] <;> simp [h]

/-! ## Nodes -/

/-- What stands in an element: texts and elements. The tag of an element holds its name and its
attributes. -/
inductive Node where
  | text (content : List Char)
  | element (tag : List Char) (children : List Node)

/-- The nodes of a text without tags: there is none for the empty text. -/
def textNodes? (text : List Char) : Option (List Node) :=
  if text = [] then some [] else (unescape? text).map fun content => [.text content]

/-- The name in a tag. -/
def tagName (tag : List Char) : List Char := tag.takeWhile (· ≠ ' ')

/-- An open element: its tag, and the nodes that stand before it in the element around it. -/
structure Frame where
  before : List Node
  tag : List Char

/-- Where the reader stands: the nodes so far of the innermost open element, and the open elements,
the innermost first. -/
structure Reading where
  nodes : List Node
  frames : List Frame

/-- Reads a tag. An instruction is passed over. -/
def Reading.readTag? (reading : Reading) (tag : List Char) : Option Reading :=
  match tag with
  | '?' :: _ => some reading
  | '/' :: name =>
    match reading.frames with
    | [] => none
    | frame :: frames =>
      if tagName frame.tag = name then
        some ⟨frame.before ++ [.element frame.tag reading.nodes], frames⟩
      else none
  | tag => some ⟨[], ⟨reading.nodes, tag⟩ :: reading.frames⟩

/-- Reads a text between tags. -/
def Reading.readText? (reading : Reading) (text : List Char) : Option Reading :=
  (textNodes? text).map fun nodes => { reading with nodes := reading.nodes ++ nodes }

/-- Reads a piece. -/
def Reading.read? (reading : Reading) (piece : Piece) : Option Reading :=
  (reading.readTag? piece.tag).bind fun reading => reading.readText? piece.text

/-- The nodes of a text that begins with a tag. -/
def read? (text : List Char) : Option (List Node) := do
  let pieces ← pieces? text
  let reading ← pieces.foldlM Reading.read? ⟨[], []⟩
  if reading.frames = [] then some reading.nodes else none

/-! ## Texts that stand for nodes -/

/-- Wherever some pieces are read, they add some nodes. -/
def Adds (pieces : List Piece) (nodes : List Node) : Prop :=
  ∀ before frames, pieces.foldlM Reading.read? ⟨before, frames⟩
    = some ⟨before ++ nodes, frames⟩

/-- A text stands for some nodes. -/
def Marks (text : List Char) (nodes : List Node) : Prop :=
  ∃ pieces : List Piece, text = pieces.flatMap Piece.chars ∧
    (∀ piece ∈ pieces, piece.Plain) ∧ Adds pieces nodes

variable {text text' tag behind : List Char} {nodes nodes' later : List Node}

theorem marks_nil : Marks [] [] := by
  refine ⟨[], rfl, by simp, fun before frames => ?_⟩
  rw [List.append_nil]
  rfl

theorem Marks.append (h : Marks text nodes) (h' : Marks text' nodes') :
    Marks (text ++ text') (nodes ++ nodes') := by
  obtain ⟨pieces, rfl, hplain, hadds⟩ := h
  obtain ⟨pieces', rfl, hplain', hadds'⟩ := h'
  refine ⟨pieces ++ pieces', List.flatMap_append.symm, ?_, fun before frames => ?_⟩
  · exact List.forall_mem_append.mpr ⟨hplain, hplain'⟩
  · rw [List.foldlM_append, hadds, ← List.append_assoc]
    exact hadds' _ frames

theorem Marks.flatMap {α : Type} {write : α → List Char} {node : α → List Node} (as : List α)
    (h : ∀ a ∈ as, Marks (write a) (node a)) : Marks (as.flatMap write) (as.flatMap node) := by
  induction as with
  | nil => exact marks_nil
  | cons a as ih =>
    obtain ⟨ha, has⟩ := List.forall_mem_cons.mp h
    exact ha.append (ih has)

/-- A text that needs no tag to be read. -/
def Between (text : List Char) (nodes : List Node) : Prop :=
  '<' ∉ text ∧ textNodes? text = some nodes

/-- A tag is read, and then the text behind it. -/
theorem read?_piece {before nodes later : List Node} {frames frames' : List Frame}
    (htag : Reading.readTag? ⟨before, frames⟩ tag = some ⟨nodes, frames'⟩)
    (hbehind : Between behind later) :
    Reading.read? ⟨before, frames⟩ ⟨tag, behind⟩ = some ⟨nodes ++ later, frames'⟩ := by
  unfold Reading.read? Reading.readText?
  rw [htag, Option.bind_some, hbehind.2]
  rfl

/-- A text without brackets. -/
def NoBracket (text : List Char) : Prop := '<' ∉ text ∧ '>' ∉ text

instance (text : List Char) : Decidable (NoBracket text) :=
  inferInstanceAs (Decidable ('<' ∉ text ∧ '>' ∉ text))

theorem NoBracket.ne (h : NoBracket text) : ∀ c ∈ text, c ≠ '<' ∧ c ≠ '>' :=
  fun _ hc => ⟨fun he => h.1 (he ▸ hc), fun he => h.2 (he ▸ hc)⟩

/-- An instruction stands for nothing. -/
theorem marks_instruction (tag : List Char) (htag : NoBracket tag)
    (hbehind : Between behind later) : Marks ('<' :: '?' :: (tag ++ '>' :: behind)) later := by
  refine ⟨[⟨'?' :: tag, behind⟩], by simp [Piece.chars], ?_, fun before frames => ?_⟩
  · refine List.forall_mem_singleton.mpr ⟨List.forall_mem_cons.mpr ⟨by decide, htag.ne⟩, hbehind.1⟩
  · have hread : Reading.readTag? ⟨before, frames⟩ ('?' :: tag) = some ⟨before, frames⟩ := rfl
    rw [List.foldlM_cons, read?_piece hread hbehind]
    rfl

/-- A tag that opens an element. -/
structure Opens (tag name : List Char) : Prop where
  plain : NoBracket tag
  first : tag.head? ≠ some '?' ∧ tag.head? ≠ some '/'
  name : tagName tag = name

theorem Opens.readTag? {name : List Char} (h : Opens tag name) (before : List Node)
    (frames : List Frame) :
    Reading.readTag? ⟨before, frames⟩ tag = some ⟨[], ⟨before, tag⟩ :: frames⟩ := by
  obtain ⟨-, ⟨hinstruction, hclosing⟩, -⟩ := h
  unfold Reading.readTag?
  split
  · exact absurd rfl hinstruction
  · exact absurd rfl hclosing
  · rfl

/-- An element from the tag that opens it to the tag that closes it, and the text behind it. -/
theorem Marks.element {name first : List Char} {firsts : List Node} (h : Marks text nodes)
    (htag : Opens tag name) (hfirst : Between first firsts) (hbehind : Between behind later) :
    Marks ('<' :: (tag ++ '>' :: (first ++ (text ++ '<' :: '/' :: (name ++ '>' :: behind)))))
      (.element tag (firsts ++ nodes) :: later) := by
  obtain ⟨pieces, rfl, hplain, hadds⟩ := h
  have hname : ∀ c ∈ name, c ≠ '<' ∧ c ≠ '>' := fun c hc =>
    htag.plain.ne c ((List.takeWhile_prefix _).subset (htag.name ▸ hc))
  refine ⟨⟨tag, first⟩ :: pieces ++ [⟨'/' :: name, behind⟩], by simp [Piece.chars], ?_,
    fun before frames => ?_⟩
  · have hopening : (Piece.mk tag first).Plain := ⟨htag.plain.ne, hfirst.1⟩
    have hclosing : (Piece.mk ('/' :: name) behind).Plain :=
      ⟨List.forall_mem_cons.mpr ⟨by decide, hname⟩, hbehind.1⟩
    exact List.forall_mem_append.mpr ⟨List.forall_mem_cons.mpr ⟨hopening, hplain⟩,
      List.forall_mem_singleton.mpr hclosing⟩
  · have hopen : Reading.read? ⟨before, frames⟩ ⟨tag, first⟩
        = some ⟨firsts, ⟨before, tag⟩ :: frames⟩ :=
      read?_piece (htag.readTag? before frames) hfirst
    have hclose : Reading.read? ⟨firsts ++ nodes, ⟨before, tag⟩ :: frames⟩ ⟨'/' :: name, behind⟩
        = some ⟨before ++ [.element tag (firsts ++ nodes)] ++ later, frames⟩ :=
      read?_piece (if_pos htag.name) hbehind
    simp only [List.cons_append, List.foldlM_cons, List.foldlM_append, List.foldlM_nil,
      Option.bind_eq_bind, Option.bind_some, hopen, hadds firsts, hclose]
    simp

/-- The reader finds the nodes of a text. -/
theorem Marks.read? (h : Marks text nodes) : read? text = some nodes := by
  obtain ⟨pieces, rfl, hplain, hadds⟩ := h
  unfold Markup.read?
  rw [pieces?_flatMap_chars hplain]
  change ((pieces.foldlM Reading.read? ⟨[], []⟩).bind _) = _
  rw [hadds]
  rfl

end Bulletin.Markup
