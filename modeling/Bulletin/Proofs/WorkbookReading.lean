import Bulletin.Document.Workbook
import Bulletin.Proofs.CsvReading
import Bulletin.Proofs.MarkupReading
import Bulletin.Proofs.WholeComparisons

/-!
# Reading workbooks

A workbook is read by its tags: its sheets by name, their rows, and in each row the cells with their
types and texts. The reader refuses anything else, but for white space between the elements. What
the writer makes of rows and charts is read back sheet by sheet, row by row and cell by cell, so
nothing that a name, a value or a title contains can add a cell, hide one or give it another type.

* `unescape?_escape` — the text of a cell
* `marks_encode` — the elements of a workbook
* `workbook_read_back`
-/

namespace Bulletin.Workbook

open Markup (Node Marks Between Opens)

/-! ## The reader -/

/-- A cell as it is read. -/
structure Cell where
  type : List Char
  text : List Char
deriving DecidableEq

/-- A sheet as it is read. -/
structure Sheet where
  name : List Char
  rows : List (List Cell)

/-- The value of an attribute in a tag. -/
def attribute? (name : String) (tag : List Char) : Option (List Char) :=
  (tag.tails.find? fun rest => (' ' :: (name.toList ++ ['=', '"'])).isPrefixOf rest).map fun rest =>
    (rest.drop (name.length + 3)).takeWhile (· ≠ '"')

/-- The elements among some nodes, if all of them have one name and there is nothing else but white
space. -/
def elements? (name : String) : List Node → Option (List (List Char × List Node))
  | [] => some []
  | .text content :: rest => if content.all Text.isBlank then elements? name rest else none
  | .element tag children :: rest =>
    if Markup.tagName tag = name.toList then (elements? name rest).map ((tag, children) :: ·)
    else none

/-- The only element among some nodes. -/
def element? (name : String) (nodes : List Node) : Option (List Char × List Node) :=
  match elements? name nodes with
  | some [element] => some element
  | _ => none

/-- The text of an element without elements in it. -/
def content? : List Node → Option (List Char)
  | [] => some []
  | [.text content] => some content
  | _ => none

def cell? (children : List Node) : Option Cell := do
  let (tag, content) ← element? "Data" children
  return ⟨← attribute? "ss:Type" tag, ← content? content⟩

def row? (children : List Node) : Option (List Cell) := do
  (← elements? "Cell" children).mapM fun element => cell? element.2

def sheet? (tag : List Char) (children : List Node) : Option Sheet := do
  let (_, table) ← element? "Table" children
  return ⟨← attribute? "ss:Name" tag, ← (← elements? "Row" table).mapM fun element =>
    row? element.2⟩

/-- The sheets of a workbook. -/
def read? (text : List Char) : Option (List Sheet) := do
  let (_, sheets) ← element? "Workbook" (← Markup.read? text)
  (← elements? "Worksheet" sheets).mapM fun element => sheet? element.1 element.2

/-! ## Escaped texts -/

/-- Decoding the entities undoes the escaping. -/
theorem unescape?_escape (text : List Char) :
    Markup.unescape? (text.flatMap escapeChar) = some text := by
  induction text with
  | nil => rfl
  | cons c text ih =>
    rw [List.flatMap_cons]
    unfold escapeChar
    split
    case h_6 hamp _ _ _ _ =>
      exact (Markup.unescape?_plain hamp _).trans (congrArg (Option.map _) ih)
    all_goals exact congrArg (Option.map _) ih

theorem not_mem_escapeChar (c : Char) : '<' ∉ escapeChar c := by
  unfold escapeChar
  split
  case h_6 hlt _ _ _ => exact fun hc => hlt (List.mem_singleton.mp hc).symm
  all_goals decide

theorem escapeChar_ne_nil (c : Char) : escapeChar c ≠ [] := by
  unfold escapeChar
  split
  case h_6 => exact List.cons_ne_nil c []
  all_goals decide

/-- The nodes of a text. -/
def textNodes (text : List Char) : List Node := if text = [] then [] else [.text text]

theorem between_escape (text : List Char) : Between (text.flatMap escapeChar) (textNodes text) := by
  constructor
  · intro h
    obtain ⟨c, -, hc⟩ := List.mem_flatMap.mp h
    exact not_mem_escapeChar c hc
  · unfold Markup.textNodes? textNodes
    rw [unescape?_escape]
    cases text with
    | nil => rfl
    | cons c text =>
      have hne : (c :: text).flatMap escapeChar ≠ [] :=
        List.append_ne_nil_of_left_ne_nil (escapeChar_ne_nil c) _
      rw [if_neg hne, if_neg (List.cons_ne_nil c text)]
      rfl

theorem content?_textNodes (text : List Char) : content? (textNodes text) = some text := by
  cases text <;> rfl

/-! ## Elements of a workbook -/

theorem between_nil : Between [] [] := ⟨List.not_mem_nil, rfl⟩

theorem between_feed : Between ['\n'] [.text ['\n']] := ⟨by decide, rfl⟩

theorem opens_cell : Opens "Cell".toList "Cell".toList := ⟨by decide, by decide, by decide⟩

theorem opens_row : Opens "Row".toList "Row".toList := ⟨by decide, by decide, by decide⟩

theorem opens_table : Opens "Table".toList "Table".toList := ⟨by decide, by decide, by decide⟩

/-- There are three types of cells. -/
theorem cellType (v : Json) : (cellContent v).1 ∈
    ["Number".toList, "Boolean".toList, "String".toList] := by
  cases v with
  | number => exact List.mem_cons_self
  | bool => exact List.mem_cons_of_mem _ List.mem_cons_self
  | null | string | array | object =>
    exact List.mem_cons_of_mem _ (List.mem_cons_of_mem _ List.mem_cons_self)

/-- The tag of the content of a cell. -/
def dataTag (type : List Char) : List Char := "Data ss:Type=\"".toList ++ type ++ ['"']

theorem opens_dataTag : ∀ type ∈ ["Number".toList, "Boolean".toList, "String".toList],
    Opens (dataTag type) "Data".toList ∧ attribute? "ss:Type" (dataTag type) = some type := by
  rintro type htype
  simp only [List.mem_cons, List.not_mem_nil, or_false] at htype
  rcases htype with rfl | rfl | rfl <;>
    exact ⟨⟨by decide, by decide, by decide⟩, by decide⟩

/-- The element of a cell. -/
def cellNode (v : Json) : Node :=
  .element "Cell".toList
    [.element (dataTag (cellContent v).1) (textNodes (cellContent v).2)]

theorem marks_cell (v : Json) : Marks (cell v) [cellNode v] := by
  have hdata := Markup.marks_nil.element (opens_dataTag _ (cellType v)).1
    (between_escape (cellContent v).2) between_nil
  have hcell := hdata.element opens_cell between_nil between_nil
  rw [List.append_nil, List.nil_append] at hcell
  refine (congrArg (Marks · [cellNode v]) ?_).mp hcell
  unfold cell dataTag
  simp only [List.append_assoc, List.cons_append, List.nil_append]
  rfl

/-- The element of a row. -/
def rowNode (cells : List Json) : Node := .element "Row".toList (cells.map cellNode)

theorem marks_row (cells : List Json) : Marks (row cells) [rowNode cells, .text ['\n']] := by
  have hcells := Marks.flatMap cells fun v _ => marks_cell v
  have hrow := hcells.element opens_row between_nil between_feed
  rw [List.nil_append, List.nil_append, ← List.map_eq_flatMap] at hrow
  refine (congrArg (Marks · [rowNode cells, .text ['\n']]) ?_).mp hrow
  unfold row
  rw [List.append_assoc]
  rfl

/-- The element of a sheet. -/
def sheetTag (name : String) : List Char := "Worksheet ss:Name=\"".toList ++ name.toList ++ ['"']

def tableNode (rows : List (List Json)) : Node :=
  .element "Table".toList
    (.text ['\n'] :: rows.flatMap fun cells => [rowNode cells, .text ['\n']])

def sheetNode (name : String) (rows : List (List Json)) : Node :=
  .element (sheetTag name) [tableNode rows]

theorem marks_sheet {name : String} (hname : Opens (sheetTag name) "Worksheet".toList)
    (rows : List (List Json)) :
    Marks (sheet name rows) [sheetNode name rows, .text ['\n']] := by
  have hrows := Marks.flatMap rows fun cells _ => marks_row cells
  have htable := hrows.element opens_table between_feed between_nil
  have hsheet := htable.element hname between_nil between_feed
  refine (congrArg (Marks · [sheetNode name rows, .text ['\n']]) ?_).mp hsheet
  unfold sheet sheetTag
  simp only [List.append_assoc, List.cons_append, List.nil_append]
  rfl

/-- The name spaces of a workbook. -/
def namespaces : String :=
  "xmlns=\"urn:schemas-microsoft-com:office:spreadsheet\" " ++
    "xmlns:ss=\"urn:schemas-microsoft-com:office:spreadsheet\""

/-- The tag of a workbook. -/
def workbookTag : List Char := "Workbook".toList ++ ' ' :: namespaces.toList

theorem opens_workbook : Opens workbookTag "Workbook".toList :=
  ⟨by decide, by decide, rfl⟩

theorem opens_data : Opens (sheetTag "Data") "Worksheet".toList := ⟨by decide, by decide, by decide⟩

theorem opens_visualizations : Opens (sheetTag "Visualizations") "Worksheet".toList :=
  ⟨by decide, by decide, by decide⟩

/-- The instructions in front of a workbook, without their brackets and question marks in front. -/
def xmlTag : String := "xml version=\"1.0\" encoding=\"UTF-8\"?"

def programTag : String := "mso-application progid=\"Excel.Sheet\"?"

/-- Two instructions and the tag of the workbook stand in front of the sheets. -/
theorem opening_eq : opening
    = '<' :: '?' :: (xmlTag.toList ++ '>' :: ['\n'])
      ++ ('<' :: '?' :: (programTag.toList ++ '>' :: ['\n'])
        ++ '<' :: (workbookTag ++ '>' :: ['\n'])) := by
  -- the same text, with breaks at the brackets
  have htext : opening = ("<?" ++ xmlTag ++ ">\n" ++ "<?" ++ programTag ++ ">\n"
      ++ "<Workbook " ++ namespaces ++ ">\n").toList := congrArg String.toList (by decide +kernel)
  unfold workbookTag
  rw [htext]
  simp only [String.toList_append, List.append_assoc, List.cons_append, List.nil_append]
  generalize xmlTag.toList = xml, programTag.toList = program, namespaces.toList = attributes
  rfl

def sheetNodes (rows : List Record) (charts : Fields Chart) : List Node :=
  [.text ['\n'], sheetNode "Data" (dataCells rows), .text ['\n'],
    sheetNode "Visualizations" (chartCells charts), .text ['\n']]

/-- The nodes of a workbook. -/
def nodes (rows : List Record) (charts : Fields Chart) : List Node :=
  [.text ['\n'], .text ['\n'], .element workbookTag (sheetNodes rows charts), .text ['\n']]

theorem marks_encode (rows : List Record) (charts : Fields Chart) :
    Marks (encode rows charts) (nodes rows charts) := by
  have hsheets := (marks_sheet opens_data (dataCells rows)).append
    (marks_sheet opens_visualizations (chartCells charts))
  have hworkbook := hsheets.element opens_workbook between_feed between_feed
  have hxml := Markup.marks_instruction xmlTag.toList (by decide) between_feed
  have hprogram := Markup.marks_instruction programTag.toList (by decide) between_feed
  refine (congrArg (Marks · (nodes rows charts)) ?_).mp (hxml.append (hprogram.append hworkbook))
  unfold encode
  rw [opening_eq]
  simp only [List.append_assoc, List.cons_append, List.nil_append]
  rfl

/-! ## Reading the elements -/

theorem elements?_cons {name : String} {tag : List Char} {children rest : List Node}
    (htag : Markup.tagName tag = name.toList) :
    elements? name (.element tag children :: rest)
      = (elements? name rest).map ((tag, children) :: ·) := if_pos htag

theorem elements?_feed {name : String} {rest : List Node} :
    elements? name (.text ['\n'] :: rest) = elements? name rest := if_pos (by decide)

theorem element?_feed {name : String} {rest : List Node} :
    element? name (.text ['\n'] :: rest) = element? name rest := by
  unfold element?
  rw [elements?_feed]

/-- The only element of its name, with nothing but white space behind it. -/
theorem element?_first {name : String} {tag : List Char} {children rest : List Node}
    (htag : Markup.tagName tag = name.toList) (hrest : elements? name rest = some []) :
    element? name (.element tag children :: rest) = some (tag, children) := by
  unfold element?
  rw [elements?_cons htag, hrest]
  rfl

theorem elements?_cells (cells : List Json) :
    elements? "Cell" (cells.map cellNode) = some (cells.map fun v => ("Cell".toList,
      [.element (dataTag (cellContent v).1) (textNodes (cellContent v).2)])) := by
  induction cells with
  | nil => rfl
  | cons v cells ih => rw [List.map_cons, cellNode, elements?_cons opens_cell.name, ih]; rfl

theorem elements?_rows (rows : List (List Json)) :
    elements? "Row" (rows.flatMap fun cells => [rowNode cells, .text ['\n']])
      = some (rows.map fun cells => ("Row".toList, cells.map cellNode)) := by
  induction rows with
  | nil => rfl
  | cons cells rows ih =>
    rw [List.flatMap_cons, rowNode, List.cons_append, elements?_cons opens_row.name,
      List.cons_append, elements?_feed, List.nil_append, ih]
    rfl

/-- The cell that is read of a value. -/
def cellOf (v : Json) : Cell := ⟨(cellContent v).1, (cellContent v).2⟩

theorem cell?_cellNode (v : Json) :
    cell? [.element (dataTag (cellContent v).1) (textNodes (cellContent v).2)]
      = some (cellOf v) := by
  obtain ⟨hopens, htype⟩ := opens_dataTag _ (cellType v)
  unfold cell?
  rw [element?_first hopens.name rfl]
  simp [htype, content?_textNodes, cellOf]

theorem row?_cells (cells : List Json) :
    row? (cells.map cellNode) = some (cells.map cellOf) := by
  unfold row?
  rw [elements?_cells, Option.bind_eq_bind, Option.bind_some, List.mapM_map]
  exact Draft.mapM_eq_some_map fun v _ => cell?_cellNode v

theorem sheet?_table (name : String) (rows : List (List Json))
    (hname : attribute? "ss:Name" (sheetTag name) = some name.toList) :
    sheet? (sheetTag name) [tableNode rows]
      = some ⟨name.toList, rows.map (List.map cellOf)⟩ := by
  have hrows : (rows.map fun cells => ("Row".toList, cells.map cellNode)).mapM
      (fun element => row? element.2) = some (rows.map (List.map cellOf)) := by
    rw [List.mapM_map]
    exact Draft.mapM_eq_some_map fun cells _ => row?_cells cells
  unfold sheet? tableNode
  rw [element?_first opens_table.name rfl]
  simp only [Option.bind_eq_bind, Option.bind_some, hname, elements?_feed, elements?_rows, hrows]
  rfl

theorem read?_encode (rows : List Record) (charts : Fields Chart) :
    read? (encode rows charts)
      = some [⟨"Data".toList, (dataCells rows).map (List.map cellOf)⟩,
          ⟨"Visualizations".toList, (chartCells charts).map (List.map cellOf)⟩] := by
  have hworkbook : element? "Workbook" (nodes rows charts)
      = some (workbookTag, sheetNodes rows charts) := by
    unfold nodes
    rw [element?_feed, element?_feed]
    exact element?_first opens_workbook.name elements?_feed
  have hsheets : elements? "Worksheet" (sheetNodes rows charts)
      = some [(sheetTag "Data", [tableNode (dataCells rows)]),
          (sheetTag "Visualizations", [tableNode (chartCells charts)])] := by
    unfold sheetNodes sheetNode
    rw [elements?_feed, elements?_cons opens_data.name, elements?_feed,
      elements?_cons opens_visualizations.name, elements?_feed]
    rfl
  unfold read?
  rw [(marks_encode rows charts).read?]
  simp only [Option.bind_eq_bind, Option.bind_some, hworkbook, hsheets, List.mapM_cons,
    List.mapM_nil, sheet?_table "Data" (dataCells rows) (by decide),
    sheet?_table "Visualizations" (chartCells charts) (by decide)]
  rfl

/-! ## What a workbook shows -/

/-- A cell of text. -/
def Cell.ofText (text : String) : Cell := ⟨"String".toList, text.toList⟩

/-- The cell of a field: a number, a truth value as `1` or `0`, or text. There is no text for a
field that is missing or `null`, and an array or an object is shown as its JSON text. -/
def Cell.ofField : Option Json → Cell
  | none | some .null => .ofText ""
  | some (.bool b) => ⟨"Boolean".toList, [if b then '1' else '0']⟩
  | some (.number n) => ⟨"Number".toList, n.text⟩
  | some (.string s) => .ofText s
  | some (.array items) => .ofText (Json.array items).compact
  | some (.object members) => .ofText (Json.object members).compact

/-- The rows of a sheet show records under the names of their columns. -/
structure ShowsRecords (records : List Record) (names : List String)
    (rows : List (List Cell)) : Prop where
  /-- the columns are the field names of the records -/
  mem_names : ∀ name, name ∈ names ↔ ∃ record ∈ records, name ∈ record.keys
  /-- each name once -/
  nodup_names : names.Nodup
  /-- a name stands before another one if it comes first in the records -/
  in_order : names.Pairwise fun name name' =>
    (records.flatMap Fields.keys).idxOf name < (records.flatMap Fields.keys).idxOf name'
  /-- a row of names, and a row for each record with one cell for each name -/
  rows : rows = names.map Cell.ofText ::
    records.map fun record => names.map fun name => Cell.ofField (record.get? name)

/-- The cells of a row tell of a chart. The rows of a chart are counted by a machine word. -/
def ShowsChart (entry : String × Chart) (cells : List Cell) : Prop :=
  ∃ count, cells = [.ofText entry.1, .ofText entry.2.type.tag, .ofText entry.2.title, count,
      .ofText entry.2.layout.toJson.compact] ∧
    (entry.2.rows.length < 2 ^ 64 → count = ⟨"Number".toList, natText entry.2.rows.length⟩)

theorem cellOf_value (record : Record) (name : String) :
    cellOf (record.value name) = Cell.ofField (record.get? name) := by
  unfold Record.value
  cases record.get? name with
  | none => rfl
  | some v =>
    cases v with
    | bool b => cases b <;> rfl
    | null | number | string | array | object => rfl

theorem showsRecords_dataCells (records : List Record) :
    ShowsRecords records (columns records) ((dataCells records).map (List.map cellOf)) := by
  obtain ⟨-, hnodup, horder⟩ := onceEach_columns records
  refine ⟨fun _ => mem_columns, hnodup, horder, ?_⟩
  unfold dataCells
  rw [List.map_cons, List.map_map, List.map_map]
  refine congrArg₂ _ (List.map_congr_left fun name _ => rfl) ?_
  refine List.map_congr_left fun record _ => ?_
  rw [Function.comp, List.map_map]
  exact List.map_congr_left fun name _ => cellOf_value record name

theorem cellOf_nat {n : Nat} (h : n < 2 ^ 64) :
    cellOf (.nat n) = ⟨"Number".toList, natText n⟩ := by
  have hfits : Json.FitsWord n := by
    unfold Json.FitsWord
    omega
  have hnat : Json.nat n = .number (.int n hfits) := Json.int_of_fits hfits
  have htext : intText n = natText n := by
    unfold intText
    rw [if_neg (by omega), Int.natAbs_natCast]
  rw [hnat, ← htext]
  rfl

/-- **Written and read back.** The workbook of any records and charts is read as two sheets. The
first one has a row with the names of the columns and then a row for each record, in their order,
with one cell for each column. The second one has a row of headings and then a row of five cells for
each chart, in their order. -/
theorem workbook_read_back (records : List Record) (charts : Fields Chart) :
    ∃ names rows told, read? (encode records charts) = some [⟨"Data".toList, rows⟩,
        ⟨"Visualizations".toList,
          ["name", "type", "title", "rows", "config"].map Cell.ofText :: told⟩] ∧
      ShowsRecords records names rows ∧ List.Forall₂ ShowsChart charts.entries told := by
  refine ⟨_, _, _, read?_encode records charts, showsRecords_dataCells records, ?_⟩
  rw [List.map_map, List.forall₂_map_right_iff, List.forall₂_same]
  exact fun entry _ => ⟨_, rfl, cellOf_nat⟩

end Bulletin.Workbook
