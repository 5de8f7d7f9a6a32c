import Bulletin.Chart.Payload

/-!
# Spreadsheet workbooks

An XML workbook of two sheets: the rows under their column names, and a list of the charts. A cell
is a number, a truth value (`1` or `0`) or text. In the text of a cell the four characters that
XML reserves and the line feed are written as entities.
-/

namespace Bulletin.Workbook

/-- One character of the content of a cell. -/
def escapeChar : Char → List Char
  | '&' => "&amp;".toList
  | '<' => "&lt;".toList
  | '>' => "&gt;".toList
  | '"' => "&quot;".toList
  | '\n' => "&#10;".toList
  | c => [c]

/-- The type of a cell and its text. -/
def cellContent : Json → List Char × List Char
  | .number n => ("Number".toList, n.text)
  | .bool b => ("Boolean".toList, if b then ['1'] else ['0'])
  | v => ("String".toList, v.plain.toList)

/-- One cell. -/
def cell (v : Json) : List Char :=
  let (type, text) := cellContent v
  "<Cell><Data ss:Type=\"".toList ++ type ++ "\">".toList ++ text.flatMap escapeChar
    ++ "</Data></Cell>".toList

/-- One row of cells on a line of its own. -/
def row (cells : List Json) : List Char :=
  "<Row>".toList ++ cells.flatMap cell ++ "</Row>\n".toList

/-- One sheet. -/
def sheet (name : String) (rows : List (List Json)) : List Char :=
  "<Worksheet ss:Name=\"".toList ++ name.toList ++ "\"><Table>\n".toList ++ rows.flatMap row
    ++ "</Table></Worksheet>\n".toList

/-- The cells of the sheet of rows: the column names, then the values. -/
def dataCells (rows : List Record) : List (List Json) :=
  let names := columns rows
  names.map .string :: rows.map fun r => names.map r.value

/-- The cells of the sheet of charts: what is told of each chart, then the charts. -/
def chartCells (charts : Fields Chart) : List (List Json) :=
  ["name", "type", "title", "rows", "config"].map .string ::
    charts.entries.map fun (name, chart) =>
      [.string name, .string chart.type.tag, .string chart.title, .nat chart.rows.length,
        .string chart.layout.toJson.compact]

/-- What stands in front of the sheets. -/
def opening : List Char :=
  ("<?xml version=\"1.0\" encoding=\"UTF-8\"?>\n" ++
    "<?mso-application progid=\"Excel.Sheet\"?>\n" ++
    "<Workbook xmlns=\"urn:schemas-microsoft-com:office:spreadsheet\" " ++
    "xmlns:ss=\"urn:schemas-microsoft-com:office:spreadsheet\">\n").toList

/-- The whole workbook. -/
def encode (rows : List Record) (charts : Fields Chart) : List Char :=
  opening ++ sheet "Data" (dataCells rows) ++ sheet "Visualizations" (chartCells charts)
    ++ "</Workbook>\n".toList

end Bulletin.Workbook
