import DocTokens.Markdown.Node

/-! # Extents

Where a markdown node stands in its source: the hull of its lines and of what is below it, widened
over the delimiters, brackets and backquotes that belong to it.
-/

namespace DocTokens

namespace Source

/-- The start of the line that holds an offset. -/
def lineStartFrom (src : Source) : Nat → Nat
  | 0 => 0
  | p + 1 => if src[p]? = some newline then p + 1 else src.lineStartFrom p

def lineStart (src : Source) (pos : Nat) : Nat := src.lineStartFrom (min pos src.size)

/-- The offset of the first line feed among the next `fuel` bytes, or the offset after them. -/
def lineEndFrom (src : Source) : (fuel : Nat) → Nat → Nat
  | 0, p => p
  | fuel + 1, p => if src[p]? = some newline then p else src.lineEndFrom fuel (p + 1)

/-- The end of the line that holds an offset, before its line feed. -/
def lineEnd (src : Source) (pos : Nat) : Nat :=
  if pos < src.size then src.lineEndFrom (src.size - pos) pos else src.size

/-- Moves back over at most `limit` bytes that satisfy `p`. -/
def back (src : Source) (p : UInt8 → Bool) : (limit : Nat) → Nat → Nat
  | 0, pos => pos
  | limit + 1, pos => if 0 < pos && src.at? (pos - 1) p then src.back p limit (pos - 1) else pos

/-- Moves forward over at most `limit` bytes that satisfy `p`. -/
def forward (src : Source) (p : UInt8 → Bool) : (limit : Nat) → Nat → Nat
  | 0, pos => pos
  | limit + 1, pos => if src.at? pos p then src.forward p limit (pos + 1) else pos

/-- Drops a carriage return at the end of `[start, stop)`. -/
def trimReturn (src : Source) (start stop : Nat) : Nat :=
  if start < stop && src.at? (stop - 1) (· == ascii '\r') then stop - 1 else stop

/-- Drops a line break at the end of `[start, stop)`. -/
def trimNewline (src : Source) (start stop : Nat) : Nat :=
  let stop := min stop src.size
  let stop := if start < stop && src.at? (stop - 1) (· == newline) then stop - 1 else stop
  src.trimReturn start stop

end Source

namespace Markdown

def isEmphasisMark (b : UInt8) : Bool := b == ascii '*' || b == ascii '_'

def isTilde (b : UInt8) : Bool := b == ascii '~'

def isBackquote (b : UInt8) : Bool := b == 96

def isSpaceByte (b : UInt8) : Bool := b == ascii ' '

def isSpaceOrTab (b : UInt8) : Bool := b == ascii ' ' || b == ascii '\t'

/-- The bytes after the number of an ordered list item. -/
def isOrderedMarker (b : UInt8) : Bool := b == ascii '.' || b == ascii ')'

/-- Widens a segment over at most `limit` delimiters on each side. -/
def widen (src : Source) (p : UInt8 → Bool) (limit : Nat) (s : Segment) : Segment :=
  ⟨src.back p limit s.start, src.forward p limit s.stop⟩

/-- Widens the text of a code span over one padding space on each side and over its backquotes. -/
def widenCodeSpan (src : Source) (s : Segment) : Segment :=
  let start := if 1 < s.start && src.at? (s.start - 1) isSpaceByte
      && src.at? (s.start - 2) isBackquote
    then s.start - 1 else s.start
  let stop := if src.at? s.stop isSpaceByte && src.at? (s.stop + 1) isBackquote
    then s.stop + 1 else s.stop
  widen src isBackquote 32 ⟨start, stop⟩

/-- The extent of a link, and where its destination is written if it is written in place. -/
structure LinkParts where
  extent : Segment
  href : Option Segment
  deriving DecidableEq, Repr

/-- Widens the text of a link over its brackets. -/
def widenBrackets (src : Source) (isImage : Bool) (s : Segment) : Segment :=
  let start :=
    if 0 < s.start && src.at? (s.start - 1) (· == ascii '[') then s.start - 1 else s.start
  let start :=
    if isImage && 0 < start && src.at? (start - 1) (· == ascii '!') then start - 1 else start
  let stop := if src.at? s.stop (· == ascii ']') then s.stop + 1 else s.stop
  ⟨start, stop⟩

/-- Widens the text of a link over its brackets and over a destination in parentheses after them. -/
def linkParts (src : Source) (destination : Bytes) (isImage : Bool) (content : Segment) :
    LinkParts :=
  let outer := widenBrackets src isImage content
  if src.at? outer.stop (· == ascii '(') then
    let p := src.forward isSpaceOrTab 16 (outer.stop + 1)
    let p := src.forward (· == ascii '<') 1 p
    let href : Option Segment :=
      if !destination.isEmpty && src.startsWith p destination then some ⟨p, p + destination.length⟩
      else none
    let p := match href with
      | some h => h.stop
      | none => p
    match (src.slice p (src.lineEnd p)).idxOf? (ascii ')') with
    | some n => ⟨⟨outer.start, p + n + 1⟩, href⟩
    | none => ⟨outer, href⟩
  else ⟨outer, none⟩

/-- The hull of two extents, either of which may be missing. -/
def hull? : Option Segment → Option Segment → Option Segment
  | some a, some b => some (a.hull b)
  | some a, none => some a
  | none, b => b

/-- The extent of a node, given the hull of its lines and of the extents below it. -/
def Kind.extent (src : Source) (content : Option Segment) : Kind → Option Segment
  | .text s | .formula s | .underline s | .spacing s _ | .latex s => some s
  | .directive d => some d.segment
  | .rawHtml segments => firstToLast? segments
  | .emphasis level => content.map (widen src isEmphasisMark level)
  | .strikethrough => content.map (widen src isTilde 2)
  | .codeSpan => content.map (widenCodeSpan src)
  | .link destination => content.map fun s => (linkParts src destination false s).extent
  | .image destination => content.map fun s => (linkParts src destination true s).extent
  | _ => content

namespace Node

mutual

/-- The source extent of a node including its own markup, when it can be recovered. -/
def extent (src : Source) : Node → Option Segment
  | mk kind lines children =>
    let own := if kind.isBlock then firstToLast? lines else none
    kind.extent src (hull? own (extents src children))

/-- The hull of the extents of several nodes. -/
def extents (src : Source) : List Node → Option Segment
  | [] => none
  | n :: rest => hull? (extent src n) (extents src rest)

end

/-- The hull of the lines of a node and of the extents below it. -/
def content (src : Source) (n : Node) : Option Segment :=
  hull? (if n.kind.isBlock then firstToLast? n.lines else none) (extents src n.children)

end Node

end Markdown

end DocTokens
