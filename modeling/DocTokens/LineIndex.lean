import DocTokens.Position
import DocTokens.Text.Bytes
import DocTokens.Wraparound

/-! # Line index

The lines of a text and the change of coordinates between offsets and positions. Lines are divided
by the line feed, which belongs to no line; the empty text has one empty line.
-/

namespace DocTokens

/-- The lines of a text, their lengths, and the number of bytes of the text. -/
structure LineIndex where
  lines : List Bytes
  lengths : List Nat
  size : Nat
  deriving Repr

namespace LineIndex

def ofBytes (text : Bytes) : LineIndex :=
  let lines := Bytes.splitAt newline text
  ⟨lines, lines.map List.length, text.length⟩

def count (idx : LineIndex) : Nat := idx.lines.length

/-- The text of a line counted from zero. -/
def line (idx : LineIndex) (i : Int) : Except RangeError Bytes :=
  if i < 0 then .error (.noLine i idx.count)
  else match idx.lines[i.toNat]? with
    | some l => .ok l
    | none => .error (.noLine i idx.count)

/-- The line and column of an offset, counted on from `line`, given the lengths of the lines from
there on. A line feed occupies one offset after its line. -/
def place : List Nat → Nat → Nat → Position
  | [], line, offset => ⟨line, offset + 1⟩
  | length :: rest, line, offset =>
    if offset ≤ length then ⟨line, offset + 1⟩ else place rest (line + 1) (offset - (length + 1))

/-- The position of an offset; the offset just past the last byte has one too. -/
def locate (idx : LineIndex) (offset : Int) : Except RangeError Position :=
  if offset < 0 ∨ idx.size < offset then .error (.noOffset offset idx.size)
  else .ok (place idx.lengths 1 offset.toNat)

/-- Where a span ends. An end at the start of a line that is not the first line of the span is moved
back to the end of the line before, so that the span does not touch a line it does not cover. -/
def spanEnd (idx : LineIndex) (start stop : Position) : Position :=
  if stop.column = 1 ∧ start.line < stop.line then
    let previous := stop.line - 1
    ⟨previous, (idx.lengths[(previous - 1).toNat]?.getD 0) + 1⟩
  else stop

/-- The positions of both ends of a span. -/
def locateSpan (idx : LineIndex) (span : Span) : Except RangeError (Position × Position) :=
  if span.stop < span.start then .error (.reversedSpan span.start span.stop)
  else match idx.locate span.start with
    | .error e => .error (.spanStart e)
    | .ok start =>
      match idx.locate span.stop with
      | .error e => .error (.spanEnd e)
      | .ok stop => .ok (start, idx.spanEnd start stop)

end LineIndex

namespace LineRange

/-- The ranges of a span from `column` of `line` over `more` further lines to the column before
`stopColumn` of the last one, given the lengths of the lines from `line` on. The lengths may be any
integers of 64 bits, so that only the rest of a line can leave their range. -/
def cover (stopColumn : Int) : Nat → Int → Int → List Int → Except RangeError (List LineRange)
  | 0, line, column, _ =>
    let length := stopColumn - 1 - column
    if length < 0 then .error (.pastLineEnd line column) else .ok [⟨line, column, length⟩]
  | more + 1, line, column, lengths =>
    let length := Integer.countDown (lengths.headD 0) column
    if length < 0 then .error (.pastLineEnd line column)
    else (cover stopColumn more (line + 1) 0 lengths.tail).map (⟨line, column, length⟩ :: ·)

/-- Splits the span between two positions into one range for each line it touches, in line order.
A span of length zero gives one range of length zero. -/
def decompose (start stop : Position) (lengths : List Int) : Except RangeError (List LineRange) :=
  if start.line < 1 ∨ start.column < 1 ∨ stop.column < 1 then .error (.badPositions start stop)
  else if stop.before start then .error (.reversedPositions start stop)
  else if lengths.length < stop.line then .error (.endLine stop.line lengths.length)
  else
    cover stop.column (stop.line - start.line).toNat (start.line - 1) (start.column - 1)
      (lengths.drop (start.line - 1).toNat)

end LineRange

namespace LineIndex

/-- The line ranges of a span of the indexed text. -/
def ranges (idx : LineIndex) (span : Span) :
    Except RangeError (Position × Position × List LineRange) := do
  let (start, stop) ← idx.locateSpan span
  let pieces ← LineRange.decompose start stop (idx.lengths.map Int.ofNat)
  return (start, stop, pieces)

end LineIndex

end DocTokens
