import DocTokens.Yaml.Cursor

/-! # Scalars

The written forms of a scalar: plain, between quotes, and as a block of lines.
-/

namespace DocTokens.Yaml

/-- The text of a scalar, the cursor after it, and whether a line break ends it. -/
structure Scanned where
  text : List Char
  cursor : Cursor
  broken : Bool
  deriving DecidableEq, Repr

/-! ## Plain scalars -/

/-- The longest word of a plain scalar. A colon before a blank ends it, and in a flow collection
so do its separators. -/
def plainWord (inFlow : Bool) : List Char → List Char
  | [] => []
  | c :: rest =>
    if endsWord (some c) then []
    else if c = ':' ∧ endsWord rest.head? then []
    else if inFlow ∧ ",?[]{}".toList.contains c then []
    else c :: plainWord inFlow rest

/-- Reads a plain scalar whose lines after the first start in column `indent` or later; `text` has
been read and `gap` follows it. -/
def scanPlain (inFlow : Bool) (indent : Nat) : Nat → List Char → Gap → Cursor → Option Scanned
  | 0, text, gap, c => some ⟨text, c, gap.break?.isSome⟩
  | fuel + 1, text, gap, c =>
    let stop : Scanned := ⟨text, c, gap.break?.isSome⟩
    if c.atDocumentMarker ∨ c.head? = some '#' then some stop
    else
      let word := plainWord inFlow c.rest
      if word.isEmpty then some stop
      else
        let text := text ++ gap.text ++ word
        let c := c.skip word.length
        match c.head? with
        | none => some ⟨text, c, false⟩
        | some ch =>
          if !endsWord (some ch) then some ⟨text, c, false⟩
          else match Gap.read indent c.rest.length .none c with
            | none => none
            | some (gap, c) =>
              if !inFlow && c.column < indent then some ⟨text, c, gap.break?.isSome⟩
              else scanPlain inFlow indent fuel text gap c

/-! ## Quoted scalars -/

/-- The character that a letter after a backslash stands for. -/
def escapeChar? (c : Char) : Option Char :=
  match c with
  | '0' => some (Char.ofNat 0)
  | 'a' => some (Char.ofNat 7)
  | 'b' => some (Char.ofNat 8)
  | 't' => some '\t'
  | '\t' => some '\t'
  | 'n' => some '\n'
  | 'v' => some (Char.ofNat 11)
  | 'f' => some (Char.ofNat 12)
  | 'r' => some '\r'
  | 'e' => some (Char.ofNat 27)
  | ' ' => some ' '
  | '"' => some '"'
  | '\x27' => some '\x27'
  | '/' => some '/'
  | '\\' => some '\\'
  | 'N' => some (Char.ofNat 0x85)
  | '_' => some (Char.ofNat 0xA0)
  | 'L' => some (Char.ofNat 0x2028)
  | 'P' => some (Char.ofNat 0x2029)
  | _ => none

/-- How many hexadecimal digits follow a letter after a backslash. -/
def hexLength? (c : Char) : Option Nat :=
  match c with
  | 'x' => some 2
  | 'u' => some 4
  | 'U' => some 8
  | _ => none

def hexDigit? (c : Char) : Option Nat :=
  if '0' ≤ c ∧ c ≤ '9' then some (c.toNat - 48)
  else if 'a' ≤ c ∧ c ≤ 'f' then some (c.toNat - 87)
  else if 'A' ≤ c ∧ c ≤ 'F' then some (c.toNat - 55)
  else none

/-- The character with the number written in hexadecimal digits. -/
def hexChar? (digits : List Char) : Option Char := do
  let n ← digits.foldlM (fun n d => (hexDigit? d).map (n * 16 + ·)) 0
  if n.isValidChar then some (Char.ofNat n) else none

/-- Reads a scalar between quotes; the opening one and `text` have been read. -/
def scanQuoted (single : Bool) : Nat → List Char → Cursor → Option Scanned
  | 0, _, _ => none
  | fuel + 1, text, c =>
    if c.atDocumentMarker then none
    else match c.rest with
      | [] => none
      | '\x27' :: rest =>
        if !single then scanQuoted single fuel (text ++ ['\x27']) (c.skip 1)
        else if rest.head? = some '\x27' then scanQuoted single fuel (text ++ ['\x27']) (c.skip 2)
        else some ⟨text, c.skip 1, false⟩
      | '"' :: _ =>
        if single then scanQuoted single fuel (text ++ ['"']) (c.skip 1)
        else some ⟨text, c.skip 1, false⟩
      | '\\' :: rest =>
        if single then scanQuoted single fuel (text ++ ['\\']) (c.skip 1)
        else match rest with
          | [] => none
          | e :: digits =>
            if isBreak e then
              let (_, c) := (c.skip 1).takeBreak
              match Gap.read 0 c.rest.length ⟨[], some [], []⟩ c with
              | none => none
              | some (gap, c) => scanQuoted single fuel (text ++ gap.text) c
            else match escapeChar? e with
              | some ch => scanQuoted single fuel (text ++ [ch]) (c.skip 2)
              | none => do
                let n ← hexLength? e
                let code := digits.take n
                let ch ← if code.length = n then hexChar? code else none
                scanQuoted single fuel (text ++ [ch]) (c.skip (2 + n))
      | ch :: _ =>
        if endsWord (some ch) then
          match Gap.read 0 c.rest.length .none c with
          | none => none
          | some (gap, c) => scanQuoted single fuel (text ++ gap.text) c
        else scanQuoted single fuel (text ++ [ch]) (c.skip 1)

/-! ## Block scalars -/

/-- What becomes of the line breaks at the end of a block. -/
inductive Chomping where
  | strip
  | clip
  | keep
  deriving DecidableEq, Repr

/-- What stands after the mark of a block scalar: chomping, and an indentation of the block. -/
structure BlockHeader where
  chomping : Chomping
  indent : Option Nat
  deriving DecidableEq, Repr

/-- Reads a chomping sign and an indentation digit in either order. -/
def BlockHeader.read (c : Cursor) : Option (BlockHeader × Cursor) :=
  let sign? (ch : Option Char) : Option Chomping :=
    if ch = some '+' then some .keep else if ch = some '-' then some .strip else none
  let digit? (ch : Option Char) : Option Nat :=
    ch.bind fun d => if d.isDigit then some (d.toNat - 48) else none
  let header : BlockHeader × Nat :=
    match sign? c.head?, digit? c.head? with
    | some sign, _ =>
      match digit? (c.peek? 1) with
      | some n => (⟨sign, some n⟩, 2)
      | none => (⟨sign, none⟩, 1)
    | none, some n =>
      match sign? (c.peek? 1) with
      | some sign => (⟨sign, some n⟩, 2)
      | none => (⟨.clip, some n⟩, 1)
    | none, none => (⟨.clip, none⟩, 0)
  if header.1.indent = some 0 then none
  else
    let c := (c.skip header.2).skipWhile isBlank
    let c := if c.head? = some '#' then c.skipWhile (!isBreak ·) else c
    match c.head? with
    | none => some (header.1, c)
    | some ch => if isBreak ch then some (header.1, c.takeBreak.2) else none

/-- Reads the indentation of the lines up to the next one with text, and their line breaks. Without
an indentation so far, `widest` is the widest that was seen. -/
def blockBreaks (indent : Option Nat) : Nat → Nat → List Char → Cursor →
    Option (Nat × List Char × Cursor)
  | 0, widest, breaks, c => some (widest, breaks, c)
  | fuel + 1, widest, breaks, c =>
    let room := match indent with
      | some n => n - c.column
      | none => c.rest.length
    let spaces := (c.rest.take room).takeWhile (· == ' ')
    let c := c.skip spaces.length
    let widest := max widest c.column
    let indenting := match indent with
      | some n => c.column < n
      | none => true
    match c.head? with
    | none => some (widest, breaks, c)
    | some ch =>
      if indenting && ch == '\t' then none
      else if isBreak ch then
        let (br, c) := c.takeBreak
        blockBreaks indent fuel widest (breaks ++ br) c
      else some (widest, breaks, c)

/-- Reads the lines of a block. `first` is the line break after the line before, which started with
a blank if `afterBlank`; `breaks` are the empty lines since. -/
def blockLines (literal : Bool) (chomping : Chomping) (indent : Nat) :
    Nat → List Char → List Char → List Char → Bool → Cursor → Option Scanned
  | 0, _, _, _, _, _ => none
  | fuel + 1, text, first, breaks, afterBlank, c =>
    match c.head? with
    | some ch =>
      if c.column = indent then
        let folds := !literal && !afterBlank && !isBlank ch && first == ['\n']
        let text := if !folds then text ++ first else if breaks.isEmpty then text ++ [' '] else text
        let (line, c) := c.takeWhile (!isBreak ·)
        let (next, c) := if c.head?.isSome then c.takeBreak else ([], c)
        match blockBreaks (some indent) (c.rest.length + 1) 0 [] c with
        | none => none
        | some (_, more, c) =>
          blockLines literal chomping indent fuel (text ++ breaks ++ line) next more (isBlank ch) c
      else some (finish text first breaks c)
    | none => some (finish text first breaks c)
where
  finish (text first breaks : List Char) (c : Cursor) : Scanned :=
    let ending := match chomping with
      | .strip => []
      | .clip => first
      | .keep => first ++ breaks
    ⟨text ++ ending, c, false⟩

/-- Reads a block scalar below the indentation `outer`; its mark has been read. -/
def scanBlock (literal : Bool) (outer : Int) (c : Cursor) : Option Scanned := do
  let (header, c) ← BlockHeader.read c
  let given := header.indent.map fun n => if 0 ≤ outer then outer.toNat + n else n
  let (widest, breaks, c) ← blockBreaks given (c.rest.length + 1) 0 [] c
  let indent := given.getD (max (max widest (outer + 1).toNat) 1)
  blockLines literal header.chomping indent (c.rest.length + 2) [] [] breaks false c

end DocTokens.Yaml
