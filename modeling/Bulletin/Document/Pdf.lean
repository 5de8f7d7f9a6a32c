import Bulletin.Ident

/-!
# A one-page document

A page of three lines that says which execution made it and how much it holds. All of it is
ASCII, so characters and bytes are counted alike.

The document ends with a table of the positions of its objects. The positions are computed from
the texts in front of each object.
-/

namespace Bulletin.Pdf

/-- One character inside a shown string. -/
def escapeChar (c : Char) : List Char :=
  if c = '\\' ∨ c = '(' ∨ c = ')' then ['\\', c] else [c]

/-- The operator that shows one line. -/
def shown (line : List Char) : List Char :=
  '(' :: line.flatMap escapeChar ++ ") Tj T*\n".toList

/-- The lines of the page. -/
def lines (execution : ExecutionId) (rows charts : Nat) : List (List Char) :=
  ["Report ".toList ++ execution.display.toList, "Rows: ".toList ++ natText rows,
    "Charts: ".toList ++ natText charts]

/-- The content stream of the page. -/
def content (execution : ExecutionId) (rows charts : Nat) : List Char :=
  "BT /F1 12 Tf 16 TL 72 720 Td\n".toList ++ (lines execution rows charts).flatMap shown
    ++ "ET\n".toList

/-- The objects of the document, in the order of their numbers. -/
def objects (stream : List Char) : List (List Char) :=
  ["<< /Type /Catalog /Pages 2 0 R >>".toList,
    "<< /Type /Pages /Kids [3 0 R] /Count 1 >>".toList,
    ("<< /Type /Page /Parent 2 0 R /MediaBox [0 0 612 792] " ++
      "/Contents 4 0 R /Resources << /Font << /F1 5 0 R >> >> >>").toList,
    "<< /Length ".toList ++ natText stream.length ++ " >>\nstream\n".toList ++ stream
      ++ "endstream".toList,
    "<< /Type /Font /Subtype /Type1 /BaseFont /Helvetica >>".toList]

/-- An object with its number. -/
def numbered (number : Nat) (object : List Char) : List Char :=
  natText number ++ " 0 obj\n".toList ++ object ++ "\nendobj\n".toList

/-- Writes objects behind a text, and gives the position of each. -/
def place : (number : Nat) → (before : List Char) → List (List Char) → List Char × List Nat
  | _, before, [] => (before, [])
  | number, before, object :: rest =>
    let (text, positions) := place (number + 1) (before ++ numbered number object) rest
    (text, before.length :: positions)

/-- One entry of the table of positions. -/
def positionEntry (position : Nat) : List Char := paddedText 10 position ++ " 00000 n \n".toList

/-- The table of positions and the end of the document. -/
def closing (positions : List Nat) (tableAt : Nat) : List Char :=
  let size := natText (positions.length + 1)
  "xref\n0 ".toList ++ size ++ "\n0000000000 65535 f \n".toList ++ positions.flatMap positionEntry
    ++ "trailer\n<< /Size ".toList ++ size ++ " /Root 1 0 R >>\nstartxref\n".toList
    ++ natText tableAt ++ "\n%%EOF\n".toList

/-- The whole document. -/
def encode (execution : ExecutionId) (rows charts : Nat) : List Char :=
  let (body, positions) :=
    place 1 "%PDF-1.4\n".toList (objects (content execution rows charts))
  body ++ closing positions body.length

end Bulletin.Pdf
