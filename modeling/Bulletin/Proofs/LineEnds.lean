import Bulletin.Proofs.MarkupReading

/-!
# Characters and line ends of a text with tags

What a reader of XML does before it looks at a tag. It refuses a text with a character that XML 1.0
does not allow, and it takes every line end for a line feed: a carriage return with a line feed
behind it, and a carriage return alone. A character that is written as an entity is not touched.

Nothing in the reader of the tags tells a carriage return from a line feed. So a text whose carriage
returns have become line feeds is read as before, with line feeds in the nodes.

* `normalize` — line ends as line feeds
* `Alone` — a text whose line ends do not depend on what follows it
* `read?_map_normalChar` — the reader of the tags and the line ends
-/

namespace Bulletin.Markup

/-! ## The reader in front of the tags -/

/-- The characters of XML 1.0. There are no surrogates among Unicode's scalar values. -/
def Allowed (c : Char) : Prop :=
  c = '\t' ∨ c = '\n' ∨ c = '\r' ∨ ' ' ≤ c ∧ c ≠ '\uFFFE' ∧ c ≠ '\uFFFF'

instance (c : Char) : Decidable (Allowed c) :=
  inferInstanceAs
    (Decidable (c = '\t' ∨ c = '\n' ∨ c = '\r' ∨ ' ' ≤ c ∧ c ≠ '\uFFFE' ∧ c ≠ '\uFFFF'))

/-- A text that is not refused for one of its characters. -/
def Accepted (text : List Char) : Prop := ∀ c ∈ text, Allowed c

instance (text : List Char) : Decidable (Accepted text) := List.decidableBAll Allowed text

/-- The text with a line feed for every line end. -/
def normalize : List Char → List Char
  | '\r' :: '\n' :: rest => '\n' :: normalize rest
  | '\r' :: rest => '\n' :: normalize rest
  | c :: rest => c :: normalize rest
  | [] => []

/-- The text that the reader of the tags is given. -/
def received? (text : List Char) : Option (List Char) :=
  if Accepted text then some (normalize text) else none

/-! ## Line ends -/

/-- A carriage return as a line feed. -/
def normalChar (c : Char) : Char := if c = '\r' then '\n' else c

variable {text text' : List Char} {c d : Char}

theorem normalChar_of_ne (h : c ≠ '\r') : normalChar c = c := if_neg h

/-- A character that ends no line stands where it stood before. -/
theorem normalChar_eq_iff (hfeed : d ≠ '\n') (hreturn : d ≠ '\r') :
    normalChar c = d ↔ c = d := by
  unfold normalChar
  split
  · rename_i h
    subst h
    exact ⟨fun he => absurd he.symm hfeed, fun he => absurd he.symm hreturn⟩
  · exact Iff.rfl

theorem normalize_cons (h : c ≠ '\r') (rest : List Char) :
    normalize (c :: rest) = c :: normalize rest := by
  rw [normalize]
  · rintro - rfl
    exact absurd rfl h
  · exact h

/-- A carriage return with no line feed behind it. -/
theorem normalize_return (h : c ≠ '\n') (rest : List Char) :
    normalize ('\r' :: c :: rest) = '\n' :: normalize (c :: rest) := by
  rw [normalize]
  rintro rest' he
  exact absurd (List.cons.inj he).1 h

/-- Wherever the text stands, its line ends are its own carriage returns and line feeds. -/
def Alone (text : List Char) : Prop :=
  ∀ rest, normalize (text ++ rest) = text.map normalChar ++ normalize rest

theorem Alone.normalize (h : Alone text) : normalize text = text.map normalChar := by
  have := h []
  rwa [List.append_nil, Markup.normalize, List.append_nil] at this

theorem alone_nil : Alone [] := fun _ => rfl

theorem Alone.append (h : Alone text) (h' : Alone text') : Alone (text ++ text') := fun rest => by
  rw [List.append_assoc, h, h', List.map_append, List.append_assoc]

theorem Alone.cons (h : Alone text) (hc : c ≠ '\r') : Alone (c :: text) := fun rest => by
  rw [List.cons_append, normalize_cons hc, h, List.map_cons, normalChar_of_ne hc]
  rfl

theorem alone_of_not_mem (h : '\r' ∉ text) : Alone text := by
  induction text with
  | nil => exact alone_nil
  | cons c text ih =>
    rw [List.mem_cons, not_or] at h
    exact (ih h.2).cons (Ne.symm h.1)

/-- A text without line feeds, with some other character behind it. -/
theorem alone_concat (h : '\n' ∉ text) (hfeed : c ≠ '\n') (hreturn : c ≠ '\r') :
    Alone (text ++ [c]) := by
  induction text with
  | nil => exact alone_nil.cons hreturn
  | cons d text ih =>
    rw [List.mem_cons, not_or] at h
    have hrest := ih h.2
    by_cases hd : d = '\r'
    · subst hd
      -- the next character is another one of the text, or the one behind it
      obtain ⟨e, more, he, hne⟩ : ∃ e more, text ++ [c] = e :: more ∧ e ≠ '\n' := by
        cases text with
        | nil => exact ⟨c, [], rfl, hfeed⟩
        | cons e text =>
          exact ⟨e, text ++ [c], rfl, fun he => h.2 (he ▸ List.mem_cons_self)⟩
      intro rest
      have htail := hrest rest
      rw [he] at htail
      rw [List.cons_append, he, List.cons_append, List.cons_append, normalize_return hne,
        ← List.cons_append, htail]
      rfl
    · exact hrest.cons hd

/-! ## The reader of the tags and the line ends -/

/-- A text that ends no line. -/
def OneLine (text : List Char) : Prop := '\n' ∉ text ∧ '\r' ∉ text

instance (text : List Char) : Decidable (OneLine text) :=
  inferInstanceAs (Decidable ('\n' ∉ text ∧ '\r' ∉ text))

theorem map_eq_self_iff {α : Type} {change : α → α} {as : List α} :
    as.map change = as ↔ ∀ a ∈ as, change a = a := by
  simpa using List.map_inj_left (g := id)

theorem map_normalChar_eq_self_iff : text.map normalChar = text ↔ '\r' ∉ text := by
  rw [map_eq_self_iff]
  constructor
  · intro h hc
    exact absurd (h _ hc) (by decide)
  · intro h c hc
    exact normalChar_of_ne fun he => h (he ▸ hc)

theorem OneLine.map_normalChar (h : OneLine text) : text.map normalChar = text :=
  map_normalChar_eq_self_iff.mpr h.2

/-- Whether a text begins with one that ends no line can be told without the line ends. -/
theorem OneLine.isPrefixOf_map (h : OneLine text) (rest : List Char) :
    text.isPrefixOf (rest.map normalChar) = text.isPrefixOf rest := by
  induction text generalizing rest with
  | nil => cases rest <;> rfl
  | cons d text ih =>
    obtain ⟨hfeed, hreturn⟩ := h
    rw [List.mem_cons, not_or] at hfeed hreturn
    cases rest with
    | nil => rfl
    | cons c rest =>
      have hhead : (d == normalChar c) = (d == c) := by
        rw [beq_eq_beq, eq_comm, normalChar_eq_iff (Ne.symm hfeed.1) (Ne.symm hreturn.1), eq_comm]
      rw [List.map_cons, List.isPrefixOf, List.isPrefixOf, hhead, ih ⟨hfeed.2, hreturn.2⟩]

theorem ne_comp_normalChar (hfeed : d ≠ '\n') (hreturn : d ≠ '\r') :
    (fun c => decide (c ≠ d)) ∘ normalChar = fun c => decide (c ≠ d) := by
  funext c
  exact decide_eq_decide.mpr (not_congr (normalChar_eq_iff hfeed hreturn))

/-- A text falls into the same parts at a character that ends no line. -/
theorem splitOn_map_normalChar (hfeed : d ≠ '\n') (hreturn : d ≠ '\r') (text : List Char) :
    (text.map normalChar).splitOn d = (text.splitOn d).map (List.map normalChar) := by
  induction text with
  | nil => simp
  | cons c text ih =>
    rw [List.map_cons, List.splitOn_cons_eq_if_modifyHead, List.splitOn_cons_eq_if_modifyHead, ih]
    by_cases h : c = d
    · subst h
      have hsame : normalChar c = c := normalChar_of_ne hreturn
      simp [hsame]
    · have hne : normalChar c ≠ d := fun he => h ((normalChar_eq_iff hfeed hreturn).mp he)
      obtain ⟨first, rest, hparts⟩ := List.exists_cons_of_ne_nil (List.splitOn_ne_nil d text)
      simp [h, hne, hparts]

/-- What is read of each thing is changed as the thing is. -/
theorem mapM_map_of_some {α α' β β' : Type} {f : α → Option β} {f' : α' → Option β'}
    {change : α → α'} {change' : β → β'}
    (h : ∀ a b, f a = some b → f' (change a) = some (change' b)) {as : List α} {bs : List β}
    (hread : as.mapM f = some bs) : (as.map change).mapM f' = some (bs.map change') := by
  induction as generalizing bs with
  | nil =>
    cases hread
    rfl
  | cons a as ih =>
    rw [List.mapM_cons] at hread
    obtain ⟨b, hb, hread⟩ := Option.bind_eq_some_iff.mp hread
    obtain ⟨rest, hrest, hread⟩ := Option.bind_eq_some_iff.mp hread
    cases hread
    rw [List.map_cons, List.mapM_cons, h a b hb, ih hrest]
    rfl

/-- The piece with its carriage returns as line feeds. -/
def Piece.normal (piece : Piece) : Piece :=
  ⟨piece.tag.map normalChar, piece.text.map normalChar⟩

theorem piece?_map_normalChar {piece : Piece} (h : piece? text = some piece) :
    piece? (text.map normalChar) = some piece.normal := by
  have hcomp := ne_comp_normalChar (d := '>') (by decide) (by decide)
  unfold piece? at h ⊢
  rw [List.dropWhile_map, List.takeWhile_map, hcomp]
  split at h
  · cases h
  · rename_i behind hdrop
    cases h
    rw [hdrop]
    rfl

theorem pieces?_map_normalChar {pieces : List Piece} (h : pieces? text = some pieces) :
    pieces? (text.map normalChar) = some (pieces.map Piece.normal) := by
  unfold pieces? at h ⊢
  rw [splitOn_map_normalChar (by decide) (by decide)]
  split at h
  · rename_i parts hparts
    rw [hparts]
    exact mapM_map_of_some (fun _ _ => piece?_map_normalChar) h
  · cases h

theorem unescape?_map_normalChar {content : List Char} (h : unescape? text = some content) :
    unescape? (text.map normalChar) = some (content.map normalChar) := by
  fun_induction unescape? text generalizing content with
  | case1 =>
    cases h
    rfl
  | case7 => cases h
  | case8 c rest _ _ _ _ _ hamp ih =>
    obtain ⟨tail, htail, rfl⟩ := Option.map_eq_some_iff.mp h
    have hne : normalChar c ≠ '&' := fun he =>
      hamp ((normalChar_eq_iff (by decide) (by decide)).mp he)
    rw [List.map_cons, unescape?_plain hne, ih htail]
    rfl
  | case2 rest ih | case3 rest ih | case4 rest ih | case5 rest ih | case6 rest ih =>
    obtain ⟨tail, htail, rfl⟩ := Option.map_eq_some_iff.mp h
    exact congrArg (Option.map _) (ih htail)

mutual

/-- The node with its carriage returns as line feeds. -/
def Node.normal : Node → Node
  | .text content => .text (content.map normalChar)
  | .element tag children => .element (tag.map normalChar) (normalNodes children)

def normalNodes : List Node → List Node
  | [] => []
  | node :: rest => node.normal :: normalNodes rest

end

theorem normalNodes_append (nodes nodes' : List Node) :
    normalNodes (nodes ++ nodes') = normalNodes nodes ++ normalNodes nodes' := by
  induction nodes with
  | nil => rfl
  | cons node nodes ih => rw [List.cons_append, normalNodes, ih]; rfl

theorem textNodes?_map_normalChar {nodes : List Node} (h : textNodes? text = some nodes) :
    textNodes? (text.map normalChar) = some (normalNodes nodes) := by
  unfold textNodes? at h ⊢
  by_cases hempty : text = []
  · rw [if_pos hempty] at h
    cases h
    rw [hempty]
    rfl
  · rw [if_neg hempty] at h
    obtain ⟨content, hcontent, rfl⟩ := Option.map_eq_some_iff.mp h
    rw [if_neg (mt List.map_eq_nil_iff.mp hempty), unescape?_map_normalChar hcontent]
    rfl

theorem tagName_map_normalChar (tag : List Char) :
    tagName (tag.map normalChar) = (tagName tag).map normalChar := by
  unfold tagName
  rw [List.takeWhile_map, ne_comp_normalChar (by decide) (by decide)]

def Frame.normal (frame : Frame) : Frame := ⟨normalNodes frame.before, frame.tag.map normalChar⟩

def Reading.normal (reading : Reading) : Reading :=
  ⟨normalNodes reading.nodes, reading.frames.map Frame.normal⟩

variable {reading reading' : Reading}

theorem Reading.readTag?_map_normalChar {tag : List Char}
    (h : reading.readTag? tag = some reading') :
    reading.normal.readTag? (tag.map normalChar) = some reading'.normal := by
  unfold Reading.readTag? at h
  split at h
  · cases h
    rfl
  · rename_i name
    split at h
    · cases h
    · rename_i frame frames hframes
      split at h
      · rename_i hname
        cases h
        have hnormal : tagName frame.normal.tag = name.map normalChar :=
          (tagName_map_normalChar frame.tag).trans (congrArg _ hname)
        have hread : reading.normal.readTag? ('/' :: name.map normalChar)
            = some ⟨frame.normal.before ++ [.element frame.normal.tag (normalNodes reading.nodes)],
              frames.map Frame.normal⟩ := by
          unfold Reading.normal Reading.readTag?
          rw [hframes]
          exact if_pos hnormal
        refine hread.trans (congrArg some ?_)
        unfold Reading.normal
        rw [normalNodes_append]
        rfl
      · cases h
  · rename_i hinstruction hclosing
    cases h
    -- the first character of the tag is still neither a question mark nor a slash
    have hopens : ∀ (d : Char), d ≠ '\n' → d ≠ '\r' → (∀ rest, tag = d :: rest → False) →
        ∀ rest, tag.map normalChar = d :: rest → False := by
      intro d hfeed hreturn hne rest hmap
      obtain ⟨c, tail, rfl, hc, -⟩ := List.map_eq_cons_iff.mp hmap
      exact hne tail (by rw [(normalChar_eq_iff hfeed hreturn).mp hc])
    unfold Reading.readTag?
    split
    · exact absurd ‹_› (hopens '?' (by decide) (by decide) hinstruction _)
    · exact absurd ‹_› (hopens '/' (by decide) (by decide) hclosing _)
    · rfl

theorem Reading.read?_normal {piece : Piece} (h : reading.read? piece = some reading') :
    reading.normal.read? piece.normal = some reading'.normal := by
  obtain ⟨opened, htag, htext⟩ := Option.bind_eq_some_iff.mp h
  obtain ⟨nodes, hnodes, rfl⟩ := Option.map_eq_some_iff.mp htext
  refine Option.bind_eq_some_iff.mpr ⟨opened.normal, readTag?_map_normalChar htag, ?_⟩
  refine Option.map_eq_some_iff.mpr ⟨_, textNodes?_map_normalChar hnodes, ?_⟩
  unfold Reading.normal
  rw [normalNodes_append]

theorem foldlM_read?_normal {pieces : List Piece}
    (h : pieces.foldlM Reading.read? reading = some reading') :
    (pieces.map Piece.normal).foldlM Reading.read? reading.normal = some reading'.normal := by
  induction pieces generalizing reading with
  | nil =>
    cases h
    rfl
  | cons piece pieces ih =>
    obtain ⟨next, hnext, hrest⟩ := Option.bind_eq_some_iff.mp h
    rw [List.map_cons, List.foldlM_cons, Reading.read?_normal hnext]
    exact ih hrest

/-- A text with line feeds for its carriage returns is read with line feeds in its nodes. -/
theorem read?_map_normalChar {nodes : List Node} (h : read? text = some nodes) :
    read? (text.map normalChar) = some (normalNodes nodes) := by
  obtain ⟨pieces, hpieces, hread⟩ := Option.bind_eq_some_iff.mp h
  obtain ⟨reading, hreading, hframes⟩ := Option.bind_eq_some_iff.mp hread
  have hfold := foldlM_read?_normal hreading
  split at hframes
  · rename_i hclosed
    cases hframes
    refine Option.bind_eq_some_iff.mpr ⟨_, pieces?_map_normalChar hpieces, ?_⟩
    refine Option.bind_eq_some_iff.mpr ⟨_, hfold, if_pos ?_⟩
    rw [Reading.normal, hclosed]
    rfl
  · cases hframes

end Bulletin.Markup
