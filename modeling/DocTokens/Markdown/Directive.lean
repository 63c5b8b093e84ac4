import DocTokens.Span
import DocTokens.Text.Bytes
import DocTokens.Wraparound

/-! # Inline directives

The inline forms `!NAME[label]{key: value}`, `$formula$`, `++underline++` and the backslash forms.
Each reader looks at the rest of a line, line feed included, whose first byte stands at a given
offset. It takes that first byte for granted and answers what it read, or nothing.
-/

namespace DocTokens.Markdown

/-- One entry of a key mapping. -/
structure KeyEntry where
  key : Segment
  value : Segment
  deriving DecidableEq, Repr

/-- The parts of `!NAME[label]{key: value}`. An opening bracket without its closing bracket on the
line is `unclosed` and not part of the directive. -/
structure Directive where
  segment : Segment
  name : Segment
  label : Option Segment
  keys : List KeyEntry
  unclosed : Option Segment
  deriving DecidableEq, Repr

namespace Directive

def isNameStart (b : UInt8) : Bool := Bytes.isUpper b

def isNameByte (b : UInt8) : Bool := Bytes.isUpper b || Bytes.isDigit b || b == ascii '_'

def isPadding (b : UInt8) : Bool := b == ascii ' ' || b == ascii '\t'

/-- The part of a text starting at offset `pos` that is left after trimming spaces and tabs. -/
def trimmed (s : Bytes) (pos : Nat) : Segment :=
  let left := Bytes.spanLength isPadding s
  let right := Bytes.spanLength isPadding (s.drop left).reverse
  ⟨pos + left, pos + s.length - right⟩

/-- An entry is a key and, after the first colon, a value. An entry with a blank key is none. -/
def readPair? (entry : Bytes) (pos : Nat) : Option KeyEntry :=
  let keyEnd := (entry.idxOf? (ascii ':')).getD entry.length
  let key := trimmed (entry.take keyEnd) pos
  let valueStart := min (keyEnd + 1) entry.length
  if key.isEmpty then none
  else some ⟨key, trimmed (entry.drop valueStart) (pos + valueStart)⟩

/-- The entries of a list of texts that stand one after another, divided by one byte. -/
def readEntries : List Bytes → Nat → List KeyEntry
  | [], _ => []
  | entry :: rest, pos =>
    (readPair? entry pos).toList ++ readEntries rest (pos + entry.length + 1)

/-- The entries of a comma separated list whose first byte stands at `base`. -/
def readKeys (body : Bytes) (base : Nat) : List KeyEntry :=
  readEntries (Bytes.splitAt (ascii ',') body) base

/-- A segment of a body, counted from where the first byte of the body stands. -/
def spanFrom (base : Int) (s : Segment) : Span :=
  ⟨Integer.countUp base s.start, Integer.countUp base s.stop⟩

/-- The spans of the keys and values of a comma separated list whose first byte stands at any
offset, also before the start of a text. -/
def keySpans (body : Bytes) (base : Int) : List (Span × Span) :=
  (readKeys body 0).map fun e => (spanFrom base e.key, spanFrom base e.value)

/-- What stands where a bracket may open. -/
inductive Bracket where
  | missing
  | unclosed
  | closed (inside rest : Bytes)
  deriving DecidableEq, Repr

/-- A bracket ends at the first closing byte of the line. -/
def bracket (opening closing : UInt8) : Bytes → Bracket
  | [] => .missing
  | b :: rest =>
    if b = opening then
      match rest.idxOf? closing with
      | some n => .closed (rest.take n) (rest.drop (n + 1))
      | none => .unclosed
    else .missing

/-- Reads the key mapping at `pos`, after the start, name and label of a directive. -/
def readBody (start pos : Nat) (name : Segment) (label : Option Segment) (rest : Bytes) :
    Directive :=
  match bracket (ascii '\x7b') (ascii '\x7d') rest with
  | .missing => ⟨⟨start, pos⟩, name, label, [], none⟩
  | .unclosed => ⟨⟨start, pos⟩, name, label, [], some ⟨pos, pos + 1⟩⟩
  | .closed inside _ =>
    ⟨⟨start, pos + inside.length + 2⟩, name, label, readKeys inside (pos + 1), none⟩

/-- Reads a directive at the front of a line. -/
def read? (line : Bytes) (start : Nat) : Option Directive :=
  match line.tail with
  | [] => none
  | b :: rest =>
    if isNameStart b then
      let length := Bytes.spanLength isNameByte (b :: rest)
      let name : Segment := ⟨start + 1, start + 1 + length⟩
      let after := (b :: rest).drop length
      match bracket (ascii '[') (ascii ']') after with
      | .missing => some (readBody start name.stop name none after)
      | .unclosed =>
        some ⟨⟨start, name.stop⟩, name, none, [], some ⟨name.stop, name.stop + 1⟩⟩
      | .closed inside rest =>
        let label : Segment := ⟨name.stop + 1, name.stop + 1 + inside.length⟩
        some (readBody start (label.stop + 1) name (some label) rest)
    else none

/-- Tries to read a directive at an offset of a text. Reading goes on after the directive, or where
it was if there is none. -/
def readAt (text : Bytes) (o : Nat) : Option Directive × Nat :=
  match read? (text.restOfLine o) o with
  | some d => (some d, d.segment.stop)
  | none => (none, o)

end Directive

/-- The length of `$formula$` at the front of a line. The formula is not empty and neither begins
nor ends with a space. -/
def formulaLength? (line : Bytes) : Option Nat :=
  let rest := line.tail
  match rest.idxOf? (ascii '$') with
  | none => none
  | some n =>
    let inside := rest.take n
    if inside.head? == none || inside.head? == some (ascii ' ')
        || inside.getLast? == some (ascii ' ') then none
    else some (n + 2)

/-- The length of `++underline++` at the front of a line. The text up to the first closing pair is
not empty, begins with neither a space nor a plus sign, and does not end with a space. -/
def underlineLength? (line : Bytes) : Option Nat :=
  match line.tail with
  | [] => none
  | b :: rest =>
    if b != ascii '+' then none
    else match Bytes.find? [ascii '+', ascii '+'] rest with
      | none => none
      | some n =>
        let inside := rest.take n
        if inside.head? == none || inside.head? == some (ascii ' ')
            || inside.head? == some (ascii '+') || inside.getLast? == some (ascii ' ') then none
        else some (n + 4)

/-- What a backslash starts. -/
inductive BackslashForm where
  /-- `\ ` or, when thin, `\,`. -/
  | spacing (thin : Bool)
  /-- A command of the given length: letters and the brace groups right after them. -/
  | command (length : Nat)
  deriving DecidableEq, Repr

namespace BackslashForm

def length : BackslashForm → Nat
  | spacing _ => 2
  | command n => n

/-- The length of the brace groups at the front of a text. Every group takes two bytes or more, so
the length of the text is fuel enough. -/
def groupsLength : (fuel : Nat) → Bytes → Nat
  | 0, _ => 0
  | _ + 1, [] => 0
  | fuel + 1, b :: rest =>
    if b = ascii '\x7b' then
      match rest.idxOf? (ascii '\x7d') with
      | some n => n + 2 + groupsLength fuel (rest.drop (n + 1))
      | none => 0
    else 0

/-- Reads a backslash form at the front of a line. -/
def read? (line : Bytes) : Option BackslashForm :=
  match line.tail with
  | [] => none
  | b :: rest =>
    if b = ascii ' ' then some (.spacing false)
    else if b = ascii ',' then some (.spacing true)
    else if Bytes.isLetter b then
      let letters := 1 + Bytes.spanLength Bytes.isLetter rest
      let after := rest.drop (letters - 1)
      some (.command (1 + letters + groupsLength after.length after))
    else none

end BackslashForm

end DocTokens.Markdown
