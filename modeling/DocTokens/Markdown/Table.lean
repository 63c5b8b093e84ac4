import DocTokens.Markdown.Line
import DocTokens.Markdown.Node

/-! # Tables

A paragraph holds a table when one of its lines is a line of delimiters with as many columns as the
line before it has cells. Cells are divided by vertical bars that no backslash protects.
-/

namespace DocTokens.Markdown.Table

def bar : UInt8 := ascii '|'

/-- A line of blanks, hyphens, bars and colons. -/
def isDelimiterLine (line : Bytes) : Bool :=
  line.all fun b => Bytes.isSpace b || b == ascii '-' || b == bar || b == ascii ':'

/-- The delimiter of a column: hyphens, with an optional colon on each side, between blanks. -/
def isDelimiter (column : Bytes) : Bool :=
  let s := Bytes.trimRight (column.dropWhile Bytes.isSpace)
  let s := if s.head? == some (ascii ':') then s.tail else s
  let s := if s.getLast? == some (ascii ':') then s.dropLast else s
  !s.isEmpty && s.all (· == ascii '-')

/-- The number of columns of a line of delimiters. -/
def columnCount? (line : Bytes) : Option Nat :=
  if isDelimiterLine line then
    let columns := Bytes.splitAt bar line
    let columns := if (columns.head?.map Bytes.isBlank).getD false then columns.tail else columns
    let columns :=
      if (columns.getLast?.map Bytes.isBlank).getD false then columns.dropLast else columns
    if columns.all isDelimiter && !columns.isEmpty then some columns.length else none
  else none

/-- Reads on at `pos` in a cell that starts at `start`. Cells end at a bar that no backslash
protects, or at the end of the row. -/
def cutCells (src : Source) (start pos : Nat) : Bytes → List Segment
  | [] => if start < pos then [⟨start, pos⟩] else []
  | b :: rest =>
    if b = bar && !(0 < pos && src.at? (pos - 1) (· == ascii '\\')) then
      ⟨start, pos⟩ :: cutCells src (pos + 1) (pos + 1) rest
    else cutCells src start (pos + 1) rest

/-- The cells of a row, untrimmed. A bar at either end of the row divides nothing. -/
def rawCells (src : Source) (line : Segment) : List Segment :=
  let row := src.trim line
  let text := src.slice row.start row.stop
  let start := if text.head? == some bar then row.start + 1 else row.start
  let stop := if text.getLast? == some bar then row.stop - 1 else row.stop
  cutCells src start start (src.slice start stop)

/-- The node of a cell. -/
def cell (src : Source) (s : Segment) : Node := .mk .tableCell [src.trim s] []

/-- The node of a row with the given number of columns. Missing cells are empty, surplus cells are
dropped. -/
def row (src : Source) (kind : Kind) (columns : Nat) (line : Segment) : Node :=
  let cells := ((rawCells src line).take columns).map (cell src)
  .mk kind [] (cells ++ List.replicate (columns - cells.length) (.mk .tableCell [] []))

/-- A table found in the lines of a paragraph, and the lines before it. -/
structure Found where
  before : List Segment
  table : Node

/-- The number of columns if a line of a paragraph is a line of delimiters. Its indentation is at
most three columns. -/
def columnsOf? (src : Source) (line : ParagraphLine) : Option Nat :=
  if line.indent ≤ 3 then columnCount? (src.slice line.text.start line.text.stop) else none

/-- The lines before a table, given last one first, without the line feed that ends them. -/
def linesBefore : List Segment → List Segment
  | [] => []
  | last :: earlier => (⟨last.start, last.stop - 1⟩ :: earlier).reverse

/-- Searches for a line of delimiters; `before` holds the lines already passed, last one first. The
first such line decides whether there is a table. -/
def findFrom? (src : Source) : (before : List Segment) → List ParagraphLine → Option Found
  | _, [] => none
  | [], line :: rest => findFrom? src [line.text] rest
  | header :: earlier, line :: rest =>
    match columnsOf? src line with
    | none => findFrom? src (line.text :: header :: earlier) rest
    | some columns =>
      let cells := max (rawCells src header).length columns
      if cells = columns then
        let rows := rest.map fun l => row src .tableRow columns l.text
        some ⟨linesBefore earlier, .mk .table [] (row src .tableHeader columns header :: rows)⟩
      else none

/-- The table in the lines of a paragraph. -/
def find? (src : Source) (lines : List ParagraphLine) : Option Found := findFrom? src [] lines

end DocTokens.Markdown.Table
