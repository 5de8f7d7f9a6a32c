import Bulletin.Proofs.LineEnds
import Bulletin.Proofs.WorkbookReading
import Mathlib.Data.List.Infix

/-!
# The characters of a workbook

A workbook is a text of XML, so its reader refuses a file with a character that XML does not allow,
and takes every carriage return in it for a line feed. The writer makes an entity of a line feed,
and of nothing else that ends a line. So a workbook can be read if and only if the cells have
allowed characters only, and what is read of a cell is its text with line feeds in place of the
carriage returns.

* `read?_map_normalChar` — the reader of workbooks and the line ends
* `Carries` — what a text has to do with the cells that are written in it
* `workbook_characters`
-/

namespace Bulletin.Workbook

open Markup (Node OneLine Alone Accepted normalChar normalNodes)

/-- The sheets of a file, from which a reader of XML takes the text first. -/
def load? (file : List Char) : Option (List Sheet) := (Markup.received? file).bind read?

/-! ## Line ends in a workbook -/

/-- The cell with its carriage returns as line feeds. -/
def Cell.normal (cell : Cell) : Cell := ⟨cell.type.map normalChar, cell.text.map normalChar⟩

def Sheet.normal (sheet : Sheet) : Sheet :=
  ⟨sheet.name.map normalChar, sheet.rows.map (List.map Cell.normal)⟩

/-- An element as its tag and its nodes. -/
def normalElement (element : List Char × List Node) : List Char × List Node :=
  (element.1.map normalChar, normalNodes element.2)

section Reading

variable {name : String} {tag : List Char} {nodes : List Node}

theorem attribute?_map_normalChar (hname : OneLine name.toList) (tag : List Char) :
    attribute? name (tag.map normalChar) = (attribute? name tag).map (List.map normalChar) := by
  have hpattern : OneLine (' ' :: (name.toList ++ ['=', '"'])) := by
    obtain ⟨hfeed, hreturn⟩ := hname
    constructor <;> simp [hfeed, hreturn]
  have hbegins : (fun rest => (' ' :: (name.toList ++ ['=', '"'])).isPrefixOf rest) ∘
      List.map normalChar = fun rest => (' ' :: (name.toList ++ ['=', '"'])).isPrefixOf rest :=
    funext hpattern.isPrefixOf_map
  unfold attribute?
  rw [List.map_tails, List.find?_map, hbegins, Option.map_map, Option.map_map]
  refine congrArg (Option.map · _) (funext fun rest => ?_)
  rw [Function.comp, Function.comp, ← List.map_drop, List.takeWhile_map,
    Markup.ne_comp_normalChar (by decide) (by decide)]

theorem all_isBlank_map_normalChar {content : List Char} (h : content.all Text.isBlank) :
    (content.map normalChar).all Text.isBlank := by
  rw [List.all_eq_true] at h
  rw [List.all_map, List.all_eq_true]
  intro c hc
  show Text.isBlank (normalChar c) = true
  unfold normalChar
  split
  · decide
  · exact h c hc

theorem elements?_normalNodes (hname : OneLine name.toList)
    {elements : List (List Char × List Node)} (h : elements? name nodes = some elements) :
    elements? name (normalNodes nodes) = some (elements.map normalElement) := by
  fun_induction elements? name nodes generalizing elements with
  | case1 =>
    cases h
    rfl
  | case2 content rest hblank ih =>
    exact (if_pos (all_isBlank_map_normalChar hblank)).trans (ih h)
  | case4 tag children rest htag ih =>
    obtain ⟨others, hothers, rfl⟩ := Option.map_eq_some_iff.mp h
    have hnormal : Markup.tagName (tag.map normalChar) = name.toList := by
      rw [Markup.tagName_map_normalChar, htag, hname.map_normalChar]
    refine (elements?_cons hnormal).trans ?_
    rw [ih hothers]
    rfl
  | case3 | case5 => cases h

theorem element?_normalNodes (hname : OneLine name.toList) {element : List Char × List Node}
    (h : element? name nodes = some element) :
    element? name (normalNodes nodes) = some (normalElement element) := by
  unfold element? at h ⊢
  split at h
  · rename_i only honly
    cases h
    rw [elements?_normalNodes hname honly]
    rfl
  · cases h

theorem content?_normalNodes {content : List Char} (h : content? nodes = some content) :
    content? (normalNodes nodes) = some (content.map normalChar) := by
  unfold content? at h
  split at h
  · cases h
    rfl
  · cases h
    rfl
  · cases h

theorem oneLine_type : OneLine "ss:Type".toList := by decide

theorem oneLine_name : OneLine "ss:Name".toList := by decide

theorem oneLine_row : OneLine "Row".toList := by decide

theorem cell?_normalNodes {cell : Cell} (h : cell? nodes = some cell) :
    cell? (normalNodes nodes) = some cell.normal := by
  obtain ⟨⟨tag, content⟩, hdata, h⟩ := Option.bind_eq_some_iff.mp h
  obtain ⟨type, htype, h⟩ := Option.bind_eq_some_iff.mp h
  obtain ⟨text, htext, h⟩ := Option.bind_eq_some_iff.mp h
  cases h
  unfold cell?
  rw [element?_normalNodes (by decide) hdata]
  simp only [normalElement, Option.bind_eq_bind, Option.bind_some, content?_normalNodes htext,
    attribute?_map_normalChar oneLine_type, htype, Option.map_some]
  rfl

theorem row?_normalNodes {cells : List Cell} (h : row? nodes = some cells) :
    row? (normalNodes nodes) = some (cells.map Cell.normal) := by
  obtain ⟨elements, helements, h⟩ := Option.bind_eq_some_iff.mp h
  have hread : (elements.map normalElement).mapM (fun element => cell? element.2)
      = some (cells.map Cell.normal) := by
    refine Markup.mapM_map_of_some ?_ h
    exact fun _ _ => cell?_normalNodes
  unfold row?
  rw [elements?_normalNodes (by decide) helements]
  exact hread

theorem sheet?_normalNodes {sheet : Sheet} (h : sheet? tag nodes = some sheet) :
    sheet? (tag.map normalChar) (normalNodes nodes) = some sheet.normal := by
  obtain ⟨⟨_, table⟩, htable, h⟩ := Option.bind_eq_some_iff.mp h
  obtain ⟨name, hname, h⟩ := Option.bind_eq_some_iff.mp h
  obtain ⟨elements, helements, h⟩ := Option.bind_eq_some_iff.mp h
  obtain ⟨rows, hrows, h⟩ := Option.bind_eq_some_iff.mp h
  cases h
  have hread : (elements.map normalElement).mapM (fun element => row? element.2)
      = some (rows.map (List.map Cell.normal)) := by
    refine Markup.mapM_map_of_some ?_ hrows
    exact fun _ _ => row?_normalNodes
  unfold sheet?
  rw [element?_normalNodes (by decide) htable]
  simp only [normalElement, Option.bind_eq_bind, Option.bind_some,
    attribute?_map_normalChar oneLine_name, hname, Option.map_some,
    elements?_normalNodes oneLine_row helements, hread]
  rfl

/-- A workbook with line feeds for its carriage returns is read with line feeds in its cells. -/
theorem read?_map_normalChar {text : List Char} {sheets : List Sheet}
    (h : read? text = some sheets) :
    read? (text.map normalChar) = some (sheets.map Sheet.normal) := by
  obtain ⟨nodes, hnodes, h⟩ := Option.bind_eq_some_iff.mp h
  obtain ⟨⟨_, children⟩, hbook, h⟩ := Option.bind_eq_some_iff.mp h
  obtain ⟨elements, helements, h⟩ := Option.bind_eq_some_iff.mp h
  have hread : (elements.map normalElement).mapM (fun element => sheet? element.1 element.2)
      = some (sheets.map Sheet.normal) := by
    refine Markup.mapM_map_of_some ?_ h
    exact fun _ _ => sheet?_normalNodes
  unfold read?
  rw [Markup.read?_map_normalChar hnodes, Option.bind_eq_bind, Option.bind_some,
    element?_normalNodes (by decide) hbook, Option.bind_eq_bind, Option.bind_some]
  simp only [normalElement]
  rw [elements?_normalNodes (by decide) helements]
  exact hread

end Reading

/-! ## Characters in a workbook -/

/-- The characters of the cells of a sheet. -/
def Sheet.characters (sheet : Sheet) : List Char := sheet.rows.flatten.flatMap Cell.text

/-- A text in which cells are written: only the cells can bring a character that is not allowed,
and no line end of the text depends on what stands behind it. -/
structure Carries (text : List Char) (cells : List Cell) : Prop where
  alone : Alone text
  accepted : Accepted text ↔ ∀ cell ∈ cells, Accepted cell.text

variable {text text' : List Char} {cells cells' : List Cell}

/-- There are no cells in a text of the writer's own. -/
theorem carries_nil (text : List Char) (h : '\r' ∉ text ∧ Accepted text) :
    Carries text [] := by
  constructor
  · exact Markup.alone_of_not_mem h.1
  · simpa using h.2

theorem Carries.append (h : Carries text cells) (h' : Carries text' cells') :
    Carries (text ++ text') (cells ++ cells') := by
  refine ⟨h.alone.append h'.alone, ?_⟩
  rw [Accepted, List.forall_mem_append, List.forall_mem_append]
  exact and_congr h.accepted h'.accepted

theorem Carries.flatMap {α : Type} {write : α → List Char} {cells : α → List Cell} (as : List α)
    (h : ∀ a, Carries (write a) (cells a)) : Carries (as.flatMap write) (as.flatMap cells) := by
  induction as with
  | nil => exact carries_nil [] (by decide)
  | cons a as ih => exact (h a).append ih

theorem not_mem_flatMap_escapeChar (text : List Char) : '\n' ∉ text.flatMap escapeChar := by
  rintro h
  obtain ⟨c, -, hc⟩ := List.mem_flatMap.mp h
  unfold escapeChar at hc
  split at hc
  case h_6 hfeed => exact hfeed (List.mem_singleton.mp hc).symm
  all_goals exact absurd hc (by decide)

theorem accepted_escapeChar (c : Char) : Accepted (escapeChar c) ↔ Markup.Allowed c := by
  unfold escapeChar
  split
  case h_6 => exact List.forall_mem_singleton
  all_goals decide

/-- The text of a cell up to the bracket behind it. -/
theorem carries_escape (cell : Cell) : Carries (cell.text.flatMap escapeChar ++ ['<']) [cell] := by
  refine ⟨Markup.alone_concat (not_mem_flatMap_escapeChar _) (by decide) (by decide), ?_⟩
  have hescape : Accepted (cell.text.flatMap escapeChar) ↔ Accepted cell.text :=
    List.forall_mem_flatMap.trans (forall₂_congr fun c _ => accepted_escapeChar c)
  rw [Accepted, List.forall_mem_append, List.forall_mem_singleton, List.forall_mem_singleton]
  exact (and_iff_left (by decide)).trans hescape

theorem carries_cell (v : Json) : Carries (cell v) [cellOf v] := by
  have htype : Carries (cellContent v).1 [] := by
    refine carries_nil _ ?_
    have hall : ∀ type ∈ ["Number".toList, "Boolean".toList, "String".toList],
        '\r' ∉ type ∧ Accepted type := by decide
    exact hall _ (cellType v)
  have hfront : Carries "<Cell><Data ss:Type=\"".toList [] := carries_nil _ (by decide)
  have hmiddle : Carries "\">".toList [] := carries_nil _ (by decide)
  have hback : Carries "/Data></Cell>".toList [] := carries_nil _ (by decide)
  have hcell := (((hfront.append htype).append hmiddle).append (carries_escape (cellOf v))).append
    hback
  refine (congrArg (Carries · [cellOf v]) ?_).mp hcell
  unfold cell
  simp only [List.append_assoc]
  rfl

theorem carries_row (cells : List Json) : Carries (row cells) (cells.map cellOf) := by
  have hcells := Carries.flatMap cells carries_cell
  rw [← List.map_eq_flatMap] at hcells
  have hrow := ((carries_nil "<Row>".toList (by decide)).append hcells).append
    (carries_nil "</Row>\n".toList (by decide))
  rwa [List.nil_append, List.append_nil] at hrow

theorem carries_sheet {name : String} (hname : Carries name.toList [])
    (rows : List (List Json)) : Carries (sheet name rows) (rows.map (List.map cellOf)).flatten := by
  have hrows : Carries (rows.flatMap row) (rows.map (List.map cellOf)).flatten := by
    rw [← List.flatMap_def]
    exact Carries.flatMap rows carries_row
  have hfront : Carries "<Worksheet ss:Name=\"".toList [] := carries_nil _ (by decide)
  have hmiddle : Carries "\"><Table>\n".toList [] := carries_nil _ (by decide)
  have hback : Carries "</Table></Worksheet>\n".toList [] := carries_nil _ (by decide)
  have hsheet := (((hfront.append hname).append hmiddle).append hrows).append hback
  rwa [List.nil_append, List.nil_append, List.nil_append, List.append_nil] at hsheet

/-- The sheets of a workbook. -/
def sheets (rows : List Record) (charts : Fields Chart) : List Sheet :=
  [⟨"Data".toList, (dataCells rows).map (List.map cellOf)⟩,
    ⟨"Visualizations".toList, (chartCells charts).map (List.map cellOf)⟩]

/-- Line by line. -/
theorem carries_opening : Carries opening [] := by
  unfold opening
  simp only [String.toList_append]
  have hxml : Carries "<?xml version=\"1.0\" encoding=\"UTF-8\"?>\n".toList [] :=
    carries_nil _ (by decide +kernel)
  have hprogram : Carries "<?mso-application progid=\"Excel.Sheet\"?>\n".toList [] :=
    carries_nil _ (by decide +kernel)
  exact ((hxml.append hprogram).append (carries_nil _ (by decide +kernel))).append
    (carries_nil _ (by decide +kernel))

theorem carries_encode (rows : List Record) (charts : Fields Chart) :
    Carries (encode rows charts)
      ((sheets rows charts).flatMap fun sheet => sheet.rows.flatten) := by
  have hopening := carries_opening
  have hdata := carries_sheet (carries_nil "Data".toList (by decide)) (dataCells rows)
  have hcharts := carries_sheet (carries_nil "Visualizations".toList (by decide))
    (chartCells charts)
  have hclosing : Carries "</Workbook>\n".toList [] := carries_nil _ (by decide)
  have hbook := ((hopening.append hdata).append hcharts).append hclosing
  rw [List.nil_append, List.append_nil] at hbook
  show Carries _ (_ ++ (_ ++ []))
  rwa [List.append_nil]

/-! ## What a reader of XML finds -/

/-- The line feeds of a workbook are all its own, so a carriage return stands alone. -/
theorem read?_normalize_encode (rows : List Record) (charts : Fields Chart) :
    read? (Markup.normalize (encode rows charts))
      = some ((sheets rows charts).map Sheet.normal) := by
  rw [(carries_encode rows charts).alone.normalize]
  exact read?_map_normalChar (read?_encode rows charts)

theorem accepted_encode (rows : List Record) (charts : Fields Chart) :
    Accepted (encode rows charts)
      ↔ Accepted ((sheets rows charts).flatMap Sheet.characters) := by
  rw [(carries_encode rows charts).accepted]
  simp only [Accepted, List.forall_mem_flatMap, Sheet.characters]

theorem load?_encode (rows : List Record) (charts : Fields Chart) :
    load? (encode rows charts) = if Accepted (encode rows charts)
      then some ((sheets rows charts).map Sheet.normal) else none := by
  unfold load? Markup.received?
  split
  · rw [Option.bind_some]
    exact read?_normalize_encode rows charts
  · rfl

/-- With no carriage return in its name and its types, a sheet is altered by one in its cells. -/
theorem Sheet.normal_eq_self_iff {sheet : Sheet} (hname : '\r' ∉ sheet.name)
    (htypes : ∀ cell ∈ sheet.rows.flatten, '\r' ∉ cell.type) :
    sheet.normal = sheet ↔ '\r' ∉ sheet.characters := by
  have hcell : ∀ cell ∈ sheet.rows.flatten, (cell.normal = cell ↔ '\r' ∉ cell.text) := by
    intro cell hcell
    have htype : cell.type.map normalChar = cell.type :=
      Markup.map_normalChar_eq_self_iff.mpr (htypes cell hcell)
    rw [← Markup.map_normalChar_eq_self_iff]
    unfold Cell.normal
    rw [htype]
    exact ⟨congrArg Cell.text, fun h => by rw [h]⟩
  have hrows : sheet.normal = sheet ↔ ∀ cell ∈ sheet.rows.flatten, cell.normal = cell := by
    have hflat : sheet.rows.map (List.map Cell.normal) = sheet.rows
        ↔ ∀ cell ∈ sheet.rows.flatten, cell.normal = cell := by
      simp only [Markup.map_eq_self_iff, List.forall_mem_flatten]
    rw [← hflat]
    unfold Sheet.normal
    rw [Markup.map_normalChar_eq_self_iff.mpr hname]
    exact ⟨congrArg Sheet.rows, fun h => by rw [h]⟩
  have hcharacters : '\r' ∉ sheet.characters
      ↔ ∀ cell ∈ sheet.rows.flatten, '\r' ∉ cell.text := by
    simp [Sheet.characters]
  rw [hrows, hcharacters]
  exact forall₂_congr hcell

theorem map_normal_sheets_iff (rows : List Record) (charts : Fields Chart) :
    (sheets rows charts).map Sheet.normal = sheets rows charts
      ↔ '\r' ∉ (sheets rows charts).flatMap Sheet.characters := by
  have htypes : ∀ rows : List (List Json), ∀ cell ∈ (rows.map (List.map cellOf)).flatten,
      '\r' ∉ cell.type := by
    intro rows cell hcell
    rw [← List.map_flatten] at hcell
    obtain ⟨v, -, rfl⟩ := List.mem_map.mp hcell
    have hall : ∀ type ∈ ["Number".toList, "Boolean".toList, "String".toList], '\r' ∉ type := by
      decide
    exact hall _ (cellType v)
  have hcharacters : '\r' ∉ (sheets rows charts).flatMap Sheet.characters
      ↔ ∀ sheet ∈ sheets rows charts, '\r' ∉ sheet.characters := by
    simp
  rw [Markup.map_eq_self_iff, hcharacters]
  have hdata : '\r' ∉ "Data".toList := by decide
  have hcharts : '\r' ∉ "Visualizations".toList := by decide
  refine forall₂_congr fun sheet hsheet => ?_
  simp only [sheets, List.mem_cons, List.not_mem_nil, or_false] at hsheet
  rcases hsheet with rfl | rfl
  · exact Sheet.normal_eq_self_iff hdata (htypes _)
  · exact Sheet.normal_eq_self_iff hcharts (htypes _)

/-- **What becomes of the characters.** The reader of XML accepts a workbook if and only if it
allows every character of the cells, and what it reads are the cells of the records and charts with
line feeds in place of the carriage returns. So it reads them unchanged if and only if there is no
other character and no carriage return in the cells. -/
theorem workbook_characters (records : List Record) (charts : Fields Chart) :
    ∃ names rows told sheets, sheets = [⟨"Data".toList, rows⟩, ⟨"Visualizations".toList,
        ["name", "type", "title", "rows", "config"].map Cell.ofText :: told⟩] ∧
      ShowsRecords records names rows ∧ List.Forall₂ ShowsChart charts.entries told ∧
      (Accepted (encode records charts) ↔ Accepted (sheets.flatMap Sheet.characters)) ∧
      read? (Markup.normalize (encode records charts)) = some (sheets.map Sheet.normal) ∧
      (load? (encode records charts) = some sheets
        ↔ Accepted (sheets.flatMap Sheet.characters)
          ∧ '\r' ∉ sheets.flatMap Sheet.characters) := by
  refine ⟨_, _, _, sheets records charts, rfl, showsRecords_dataCells records, ?_,
    accepted_encode records charts, read?_normalize_encode records charts, ?_⟩
  · rw [List.map_map, List.forall₂_map_right_iff, List.forall₂_same]
    exact fun entry _ => ⟨_, rfl, cellOf_nat⟩
  · have hload : load? (encode records charts) = some (sheets records charts)
        ↔ Accepted (encode records charts)
          ∧ (sheets records charts).map Sheet.normal = sheets records charts := by
      rw [load?_encode]
      split
      · rename_i hall
        rw [Option.some_inj]
        exact (and_iff_right hall).symm
      · rename_i hsome
        exact ⟨fun h => absurd h (by simp), fun h => absurd h.1 hsome⟩
    rw [hload, accepted_encode, map_normal_sheets_iff]

/-- The carriage return of a value is lost, and a control character makes the whole file
unreadable. -/
theorem workbook_alters_characters :
    let returned := [Fields.ofList [("a", Json.string "x\ry")]]
    let controlled := [Fields.ofList [("a", Json.string "\x01")]]
    (¬ ∃ names rows told, read? (Markup.normalize (encode returned ∅))
          = some [⟨"Data".toList, rows⟩, ⟨"Visualizations".toList,
            ["name", "type", "title", "rows", "config"].map Cell.ofText :: told⟩] ∧
        ShowsRecords returned names rows) ∧
      ¬ Accepted (encode controlled ∅) ∧ load? (encode controlled ∅) = none := by
  intro returned controlled
  have hcontrol : ¬ Accepted (encode controlled ∅) := by
    rw [accepted_encode]
    decide
  refine ⟨?_, hcontrol, (load?_encode controlled ∅).trans (if_neg hcontrol)⟩
  rintro ⟨names, rows, told, hread, hshows⟩
  have hrows : (Sheet.normal ⟨"Data".toList, (dataCells returned).map (List.map cellOf)⟩).rows
      = rows := by
    have hsheets := Option.some.inj ((read?_normalize_encode returned ∅).symm.trans hread)
    exact congrArg Sheet.rows (List.cons.inj hsheets).1
  have hname : "a" ∈ names :=
    (hshows.mem_names "a").mpr ⟨_, List.mem_cons_self, by decide⟩
  have hcell : Cell.ofText "x\ry" ∈ rows.flatten := by
    rw [hshows.rows]
    refine List.mem_flatten.mpr ⟨_, List.mem_cons_of_mem _ List.mem_cons_self, ?_⟩
    exact List.mem_map.mpr ⟨"a", hname, by decide⟩
  rw [← hrows] at hcell
  exact absurd hcell (by decide)

end Bulletin.Workbook
