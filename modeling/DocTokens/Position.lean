import DocTokens.Span

/-! # Positions and line ranges

A `Position` is a line and a column counted from one. A `LineRange` is a piece of a single line,
with line and column counted from zero. `RangeError` lists every way in which offsets, lines and
columns can fail to exist in a text.
-/

namespace DocTokens

/-- A line and a column, both counted from one. -/
structure Position where
  line : Int
  column : Int
  deriving DecidableEq, Repr, Inhabited

namespace Position

/-- Strictly earlier in the text. -/
def before (p q : Position) : Bool :=
  if p.line = q.line then p.column < q.column else p.line < q.line

def render (p : Position) : String := s!"{p.line}:{p.column}"

end Position

/-- A piece of one line; line and column are counted from zero. -/
structure LineRange where
  line : Int
  column : Int
  length : Int
  deriving DecidableEq, Repr, Inhabited

namespace LineRange

def render (r : LineRange) : String := s!"{r.line}:{r.column}+{r.length}"

end LineRange

/-- Why a place does not exist in a text. -/
inductive RangeError where
  /-- There is no such line. -/
  | noLine (line : Int) (count : Nat)
  /-- The offset is negative or past the end. -/
  | noOffset (offset : Int) (size : Nat)
  /-- A span whose end lies before its start. -/
  | reversedSpan (start stop : Int)
  /-- The start of a span cannot be located. -/
  | spanStart (cause : RangeError)
  /-- The end of a span cannot be located. -/
  | spanEnd (cause : RangeError)
  /-- A line or column below one. -/
  | badPositions (start stop : Position)
  /-- The end position lies before the start position. -/
  | reversedPositions (start stop : Position)
  /-- The end position lies on a line that does not exist. -/
  | endLine (line : Int) (count : Nat)
  /-- The range starts past the end of its line. -/
  | pastLineEnd (line column : Int)
  deriving DecidableEq, Repr

namespace RangeError

/-- What is wrong, without the common ending. -/
def detail : RangeError → String
  | noLine line count => s!"line {line} of {count}"
  | noOffset offset size => s!"offset {offset} in text of length {size}"
  | reversedSpan start stop => s!"span [{start},{stop}) ends before it starts"
  | spanStart cause => s!"locating span start: {cause.detail}"
  | spanEnd cause => s!"locating span end: {cause.detail}"
  | badPositions start stop => s!"invalid positions {start.render}..{stop.render}"
  | reversedPositions start stop => s!"span {start.render}..{stop.render} ends before it starts"
  | endLine line count => s!"span ends on line {line} of {count}"
  | pastLineEnd line column => s!"line {line}: column {column} is past the line end"

def message (e : RangeError) : String := s!"{e.detail}: offset out of range"

end RangeError

end DocTokens
