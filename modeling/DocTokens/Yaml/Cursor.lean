/-! # Reading YAML text

A cursor stands in a text and knows its line and column. Line breaks are read as one character
whatever their spelling.
-/

namespace DocTokens.Yaml

structure Cursor where
  rest : List Char
  line : Nat
  column : Nat
  /-- The number of characters read so far. -/
  offset : Nat
  deriving DecidableEq, Repr

def isBreak (c : Char) : Bool :=
  c == '\n' || c == '\r' || c.toNat == 0x85 || c.toNat == 0x2028 || c.toNat == 0x2029

def isBlank (c : Char) : Bool := c == ' ' || c == '\t'

/-- Whether a character ends a word; so does the end of the text. -/
def endsWord : Option Char → Bool
  | none => true
  | some c => isBlank c || isBreak c

/-- Whether a character may occur in a text at all. -/
def isAllowed (c : Char) : Bool :=
  let n := c.toNat
  n == 9 || n == 10 || n == 13 || (32 ≤ n && n ≤ 126) || n == 0x85 || (0xA0 ≤ n && n ≤ 0xD7FF)
    || (0xE000 ≤ n && n ≤ 0xFFFD) || 0x10000 ≤ n

namespace Cursor

def ofText (text : List Char) : Cursor := ⟨text, 0, 0, 0⟩

def head? (c : Cursor) : Option Char := c.rest.head?

/-- The character `n` places ahead. -/
def peek? (c : Cursor) (n : Nat) : Option Char := c.rest[n]?

/-- The cursor after `n` characters of the same line. -/
def skip (c : Cursor) (n : Nat) : Cursor :=
  { c with rest := c.rest.drop n, column := c.column + n, offset := c.offset + n }

/-- The characters of the same line that satisfy `p`, and the cursor after them. -/
def takeWhile (p : Char → Bool) (c : Cursor) : List Char × Cursor :=
  let taken := c.rest.takeWhile p
  (taken, c.skip taken.length)

def skipWhile (p : Char → Bool) (c : Cursor) : Cursor := (c.takeWhile p).2

/-- The line break at the cursor, as the character it stands for, and the start of the next line. -/
def takeBreak (c : Cursor) : List Char × Cursor :=
  let nextLine (n : Nat) : Cursor :=
    { rest := c.rest.drop n, line := c.line + 1, column := 0, offset := c.offset + n }
  match c.rest with
  | '\r' :: '\n' :: _ => (['\n'], nextLine 2)
  | ch :: _ =>
    if ch.toNat == 0x2028 || ch.toNat == 0x2029 then ([ch], nextLine 1) else (['\n'], nextLine 1)
  | [] => ([], c)

/-- Whether a marker of three equal characters starts a line here. -/
def atMarker (c : Cursor) (ch : Char) : Bool :=
  c.column == 0 && c.rest.take 3 == [ch, ch, ch] && endsWord (c.peek? 3)

/-- Whether the start or the end of a document is marked here. -/
def atDocumentMarker (c : Cursor) : Bool := c.atMarker '-' || c.atMarker '.'

end Cursor

/-! ## Blanks between words -/

/-- Blanks and line breaks between two words of a scalar. -/
structure Gap where
  /-- Blanks on the line of the word before. -/
  blanks : List Char
  /-- The first line break, if there is one. -/
  break? : Option (List Char)
  /-- The line breaks after the first. -/
  more : List Char
  deriving DecidableEq, Repr

namespace Gap

def none : Gap := ⟨[], .none, []⟩

/-- What a gap adds to the text: a single line break is a blank, several lose the first. -/
def text (g : Gap) : List Char :=
  match g.break? with
  | .none => g.blanks
  | some first =>
    if first = ['\n'] then if g.more.isEmpty then [' '] else g.more else first ++ g.more

/-- Reads on to the next word. A tab in the first `indent` columns of a line is refused. -/
def read (indent : Nat) : Nat → Gap → Cursor → Option (Gap × Cursor)
  | 0, g, c => some (g, c)
  | fuel + 1, g, c =>
    match c.head? with
    | .none => some (g, c)
    | some ch =>
      if isBlank ch then
        if g.break?.isSome && c.column < indent && ch == '\t' then .none
        else
          let g := if g.break?.isSome then g else { g with blanks := g.blanks ++ [ch] }
          read indent fuel g (c.skip 1)
      else if isBreak ch then
        let (br, c) := c.takeBreak
        let g := if g.break?.isSome then { g with more := g.more ++ br }
          else { g with blanks := [], break? := some br }
        read indent fuel g c
      else some (g, c)

end Gap

end DocTokens.Yaml
