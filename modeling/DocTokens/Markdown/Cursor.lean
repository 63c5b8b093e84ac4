import DocTokens.Markdown.Line
import DocTokens.Text.CaseFold

/-! # Reading the lines of a block

The text of a block is a list of source segments, one for each line, line feeds included. A `Cursor`
is the unread part of such a list: its head is the rest of the current line.
-/

namespace DocTokens.Markdown

/-- What is left to read of the lines of a block. -/
abbrev Cursor := List Segment

namespace Cursor

/-- The rest of the current line, unless everything is read. -/
def line? : Cursor → Option Segment
  | [] => none
  | s :: rest => if rest.isEmpty && s.isEmpty then none else some s

/-- The bytes of the rest of the current line. -/
def lineBytes (src : Source) (c : Cursor) : Bytes :=
  match c.line? with
  | some s => src.slice s.start s.stop
  | none => []

/-- The next byte. -/
def peek? (src : Source) (c : Cursor) : Option UInt8 :=
  match c.line? with
  | some s => src[s.start]?
  | none => none

/-- Reads `n` bytes. Reading the last byte of a line moves on to the next line, if there is one. -/
def advance : Nat → Cursor → Cursor
  | _, [] => []
  | n, [s] => [⟨s.start + n, s.stop⟩]
  | n, s :: t :: rest =>
    if n < s.length then ⟨s.start + n, s.stop⟩ :: t :: rest else advance (n - s.length) (t :: rest)

/-- Reads up to and including the line feed. -/
def nextLine : Cursor → Cursor
  | [] => []
  | _ :: rest => rest

/-- The segments of the next `n` bytes, one for each line they touch. -/
def take : Nat → Cursor → List Segment
  | _, [] => []
  | n, s :: rest =>
    if n ≤ s.length then [⟨s.start, s.start + n⟩] else s :: take (n - s.length) rest

/-- Reads blanks, over line ends too; answers how many there were. -/
def skipSpaces (src : Source) : Cursor → Nat × Cursor
  | [] => (0, [])
  | s :: rest =>
    let blanks := Bytes.spanLength Bytes.isSpace (src.slice s.start s.stop)
    if blanks < s.length || rest.isEmpty then (blanks, ⟨s.start + blanks, s.stop⟩ :: rest)
    else
      let (more, c) := skipSpaces src rest
      (blanks + more, c)

/-- How the search for a closing byte ends within a line. -/
inductive Closure where
  | found (n : Nat)
  | refused
  | absent
  deriving DecidableEq, Repr

/-- Searches a line for a closing byte that no backslash protects. An opening byte before it refuses
the search. -/
def closureIn (opening closing : UInt8) : Nat → Bytes → Closure
  | _, [] => .absent
  | i, [b] => if b = closing then .found i else if b = opening then .refused else .absent
  | i, b :: b' :: rest =>
    if b = ascii '\\' && Bytes.isPunctuation b' then closureIn opening closing (i + 2) rest
    else if b = closing then .found i
    else if b = opening then .refused
    else closureIn opening closing (i + 1) (b' :: rest)

/-- Reads up to and including a closing byte, over line ends too. Answers the bytes before it, or
none if there is no such byte, and in either case where reading has got to. -/
def findClosure (src : Source) (opening closing : UInt8) : Cursor → Option Bytes × Cursor
  | [] => (none, [])
  | s :: rest =>
    if rest.isEmpty && s.isEmpty then (none, s :: rest)
    else
      let line := src.slice s.start s.stop
      match closureIn opening closing 0 line with
      | .found i => (some (line.take i), advance (i + 1) (s :: rest))
      | .refused => (none, s :: rest)
      | .absent =>
        let (more, c) := findClosure src opening closing rest
        (more.map (line ++ ·), c)

end Cursor

/-- The bytes of `[s.start, s.stop)` as far as they belong to the given lines. -/
def textOf (src : Source) (lines : List Segment) (s : Segment) : Bytes :=
  lines.flatMap fun l => src.slice (max l.start s.start) (min l.stop s.stop)

/-- The length of a link destination without angle brackets: it ends at a blank or at a closing
parenthesis that was not opened in it. -/
def plainDestinationLength : Nat → Bytes → Nat
  | _, [] => 0
  | depth, [b] =>
    if Bytes.isSpace b || (b == ascii ')' && depth == 0) then 0 else 1
  | depth, b :: b' :: rest =>
    if b = ascii '\\' && Bytes.isPunctuation b' then 2 + plainDestinationLength depth rest
    else if Bytes.isSpace b then 0
    else if b = ascii '(' then 1 + plainDestinationLength (depth + 1) (b' :: rest)
    else if b = ascii ')' then
      if depth = 0 then 0 else 1 + plainDestinationLength (depth - 1) (b' :: rest)
    else 1 + plainDestinationLength depth (b' :: rest)

/-- Reads a link destination, in angle brackets or plain, after optional blanks. -/
def readDestination? (src : Source) (c : Cursor) : Option (Bytes × Cursor) :=
  let (_, c) := c.skipSpaces src
  let line := c.lineBytes src
  if line.head? == some (ascii '<') then
    match Cursor.closureIn (ascii '>') (ascii '>') 0 line.tail with
    | .found i => some (line.tail.take i, c.advance (i + 2))
    | _ => none
  else
    let n := plainDestinationLength 0 line
    if n = 0 then none else some (line.take n, c.advance n)

/-- The byte that closes a title opened by the given byte. -/
def titleCloser? (b : UInt8) : Option UInt8 :=
  if b == ascii '"' || b == 39 then some b else if b == ascii '(' then some (ascii ')') else none

/-- Blanks that do not count at the ends of a label: those of a line, and the vertical tab. -/
def isLabelSpace (b : UInt8) : Bool := Bytes.isSpace b || b == 11

/-- The name under which a label is known: letter case and the length of blanks do not matter. -/
def labelKey (label : Bytes) : Bytes :=
  let trimmed := ((label.dropWhile isLabelSpace).reverse.dropWhile isLabelSpace).reverse
  collapse (CaseFold.fold trimmed)
where
  /-- Every run of blanks becomes one space. -/
  collapse : Bytes → Bytes
    | [] => []
    | [b] => [if Bytes.isSpace b then ascii ' ' else b]
    | b :: b' :: rest =>
      if Bytes.isSpace b then
        if Bytes.isSpace b' then collapse (b' :: rest) else ascii ' ' :: collapse (b' :: rest)
      else b :: collapse (b' :: rest)

/-- Link destinations by label, in the order of their definitions. The first definition counts. -/
abbrev References := List (Bytes × Bytes)

namespace References

def find? (refs : References) (label : Bytes) : Option Bytes :=
  (List.find? (·.1 == labelKey label) refs).map (·.2)

end References

/-- A link reference definition: what it defines, the lines `[first, last)` it takes, and where
reading goes on. -/
structure Definition where
  label : Bytes
  destination : Bytes
  first : Nat
  last : Nat
  rest : Cursor

/-- Reads a link reference definition from the lines of a paragraph, of which there are `total`. -/
def Definition.read? (src : Source) (total : Nat) (c : Cursor) : Option Definition := do
  let (_, c) := c.skipSpaces src
  let first := total - c.length
  guard (c.peek? src == some (ascii '['))
  let (label?, c) := Cursor.findClosure src (ascii '[') (ascii ']') (c.advance 1)
  let label ← label?
  guard (!Bytes.isBlank label)
  guard (c.peek? src == some (ascii ':'))
  let (destination, c) ← readDestination? src (c.advance 1)
  let alone := Bytes.isBlank (c.lineBytes src)
  let last := total - c.length
  let (blanks, c) := c.skipSpaces src
  match (c.peek? src).bind titleCloser? with
  | none =>
    guard alone
    return ⟨label, destination, first, last + 1, c⟩
  | some closer =>
    guard (0 < blanks)
    let opener := (c.peek? src).getD 0
    let (title?, c) := Cursor.findClosure src opener closer (c.advance 1)
    match title? with
    | none =>
      guard alone
      return ⟨label, destination, first, last + 1, c.nextLine⟩
    | some _ =>
      if Bytes.isBlank (c.lineBytes src) then
        return ⟨label, destination, first, total - c.length + 1, c⟩
      else
        guard alone
        return ⟨label, destination, first, last, c⟩

/-- Reads definitions for as long as there are any. Each takes at least one byte. -/
def readDefinitions (src : Source) (total : Nat) : (fuel : Nat) → Cursor → List Definition
  | 0, _ => []
  | fuel + 1, c =>
    match Definition.read? src total c with
    | some d => d :: readDefinitions src total fuel d.rest
    | none => []

/-- Takes the lines of definitions out of the lines of a paragraph. `offset` is the end of the
definition before. -/
def removeDefinitions {α : Type} : List Definition → Nat → List α → List α
  | [], _, lines => lines
  | d :: rest, offset, lines =>
    if lines.isEmpty then []
    else
      let last := if d.first = d.last then d.last + 1 else d.last
      removeDefinitions rest last (lines.take (d.first - offset) ++ lines.drop (last - offset))

/-- The definitions at the front of a paragraph and the lines that remain. -/
def takeDefinitions (src : Source) (lines : List ParagraphLine) :
    References × List ParagraphLine :=
  let found := readDefinitions src lines.length (src.size + 1) (lines.map ParagraphLine.text)
  (found.map fun d => (labelKey d.label, d.destination), removeDefinitions found 0 lines)

end DocTokens.Markdown
