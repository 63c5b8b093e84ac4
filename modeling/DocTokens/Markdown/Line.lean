import DocTokens.Markdown.Extent

/-! # Lines and columns

The unread part of a line during block parsing. A tab reaches to the next column that is a multiple
of four; when a container takes only part of a tab, what is left of it is `padding`, read as spaces.
-/

namespace DocTokens.Markdown

/-- The columns a tab takes at a column. -/
def tabWidth (column : Nat) : Nat := 4 - column % 4

/-- The width in columns and the length in bytes of the spaces and tabs at the front of a text that
starts at the given column. -/
def indentWidth (column : Nat) : Bytes → Nat × Nat
  | [] => (0, 0)
  | b :: rest =>
    let step := if b = ascii ' ' then 1 else if b = ascii '\t' then tabWidth column else 0
    if step = 0 then (0, 0)
    else
      let (width, length) := indentWidth (column + step) rest
      (step + width, length + 1)

/-- How many bytes of a text at the given column make up `width` columns of blanks, and how many
columns the last of them reaches too far. -/
def indentPosition? (column : Nat) : (width : Nat) → Bytes → Option (Nat × Nat)
  | 0, _ => some (0, 0)
  | _ + 1, [] => none
  | width + 1, b :: rest =>
    let step := if b = ascii ' ' then 1 else if b = ascii '\t' then tabWidth column else 0
    if step = 0 then none
    else if width + 1 ≤ step then some (1, step - (width + 1))
    else (indentPosition? (column + step) (width + 1 - step) rest).map fun (n, p) => (n + 1, p)

/-- The unread part `[start, stop)` of the line that begins at `head`, after `padding` spaces. -/
structure Line where
  head : Nat
  start : Nat
  padding : Nat
  stop : Nat
  deriving DecidableEq, Repr

namespace Line

def ofSegment (s : Segment) : Line := ⟨s.start, s.start, 0, s.stop⟩

/-- The unread bytes, padding included. -/
def bytes (src : Source) (l : Line) : Bytes :=
  List.replicate l.padding (ascii ' ') ++ src.slice l.start l.stop

/-- The column reached after the given bytes, from the given column on. -/
def columnAfter (column : Nat) (s : Bytes) : Nat :=
  s.foldl (fun c b => if b = ascii '\t' then c + tabWidth c else c + 1) column

/-- The column of the first unread byte. -/
def column (src : Source) (l : Line) : Nat := columnAfter 0 (src.slice l.head l.start) - l.padding

def segment (l : Line) : Segment := ⟨l.start, l.stop⟩

/-- Whether nothing of the source is left. -/
def atEnd (src : Source) (l : Line) : Bool := src.size ≤ l.start

/-- Reads `n` bytes, padding first. -/
def advance (l : Line) (n : Nat) : Line :=
  { l with start := l.start + (n - l.padding), padding := l.padding - n }

/-- Reads `n` bytes of which the last reaches `padding` columns too far. -/
def advancePadded (l : Line) (n padding : Nat) : Line :=
  let l := l.advance n
  { l with padding := max padding l.padding }

/-- Reads everything before the line feed. -/
def toLineEnd (src : Source) (l : Line) : Line :=
  { l with start := src.lineEnd l.start, padding := 0 }

def isBlank (src : Source) (l : Line) : Bool := Bytes.isBlank (src.slice l.start l.stop)

/-- The width and the length of the indentation. -/
def indent (src : Source) (l : Line) : Nat × Nat := indentWidth (l.column src) (l.bytes src)

end Line

/-- A line of an open paragraph: its text without the blanks at its front, and their width. -/
structure ParagraphLine where
  indent : Nat
  text : Segment
  deriving DecidableEq, Repr

end DocTokens.Markdown

namespace DocTokens.Source

open Markdown

/-- A segment without the blanks at its front. -/
def trimStart (src : Source) (s : Segment) : Segment :=
  ⟨s.start + Bytes.spanLength Bytes.isSpace (src.slice s.start s.stop), s.stop⟩

/-- A segment without the blanks at its end. -/
def trimEnd (src : Source) (s : Segment) : Segment :=
  ⟨s.start, s.start + (Bytes.trimRight (src.slice s.start s.stop)).length⟩

def trim (src : Source) (s : Segment) : Segment := src.trimEnd (src.trimStart s)

/-- The line of a paragraph that the unread part of a line makes. -/
def paragraphLine (src : Source) (l : Line) : ParagraphLine :=
  ⟨(indentWidth 0 (l.bytes src)).1, src.trimStart l.segment⟩

/-- The lengths of the pieces that end in a line feed, and of what follows the last one. -/
def lineLengths : Bytes → Nat → List Nat
  | [], 0 => []
  | [], n + 1 => [n + 1]
  | b :: rest, n => if b = newline then (n + 1) :: lineLengths rest 0 else lineLengths rest (n + 1)

/-- Consecutive segments of the given lengths. -/
def consecutive : List Nat → Nat → List Segment
  | [], _ => []
  | n :: rest, start => ⟨start, start + n⟩ :: consecutive rest (start + n)

/-- The lines of a source, line feeds included. -/
def lines (src : Source) : List Segment := consecutive (lineLengths src.toList 0) 0

end DocTokens.Source
