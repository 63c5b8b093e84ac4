import DocTokens.Yaml.Scalar

/-! # Tokens of a YAML text

Indentation is turned into tokens that open and close collections. What is a key shows only at the
colon after it, so the scanner remembers where a key could have started and puts the tokens for it
there afterwards.
-/

namespace DocTokens.Yaml

inductive Token where
  | version (major minor : Nat)
  | tagHandle (handle start : String)
  | documentStart
  | documentEnd
  | sequenceStart
  | mappingStart
  | blockEnd
  | flowSequenceStart
  | flowSequenceEnd
  | flowMappingStart
  | flowMappingEnd
  | blockItem
  | flowItem
  | key
  | value
  | alias (name : String)
  | anchor (name : String)
  | tag (handle suffix : String)
  | scalar (plain : Bool) (text : String)
  /-- The text ends. -/
  | finish
  /-- What follows is no token. -/
  | broken
  deriving DecidableEq, Repr

/-- A place where a key may have started. -/
structure PossibleKey where
  /-- A line at the indentation of the mapping around it can only be a key. -/
  required : Bool
  /-- The number of tokens before it. -/
  position : Nat
  line : Nat
  column : Nat
  offset : Nat
  deriving DecidableEq, Repr

structure Scanner where
  cursor : Cursor
  tokens : Array Token
  /-- The column of the innermost block collection; `-1` outside of all. -/
  indent : Int
  /-- The columns of the collections around it. -/
  outer : List Int
  /-- The number of open flow collections. -/
  flow : Nat
  /-- Whether a key may start here. -/
  keyAllowed : Bool
  /-- The possible key of every open flow collection and of the block around them, innermost
  first. -/
  keys : List (Option PossibleKey)
  deriving DecidableEq, Repr

namespace Scanner

def ofText (text : List Char) : Scanner := ⟨.ofText text, #[], -1, [], 0, true, [none]⟩

def push (s : Scanner) (t : Token) : Scanner := { s with tokens := s.tokens.push t }

/-! ## Possible keys -/

def key? (s : Scanner) : Option PossibleKey := (s.keys.head?).join

def setKey (s : Scanner) (k : Option PossibleKey) : Scanner := { s with keys := k :: s.keys.tail }

/-- Gives up the possible key, unless it had to be one. -/
def dropKey (s : Scanner) : Option Scanner :=
  if s.key?.any (·.required) then none else some (s.setKey none)

/-- Remembers that a key may start here. -/
def markKey (s : Scanner) : Option Scanner :=
  if s.keyAllowed then
    (s.dropKey).map fun s =>
      s.setKey (some ⟨s.flow == 0 && s.indent == s.cursor.column, s.tokens.size, s.cursor.line,
        s.cursor.column, s.cursor.offset⟩)
  else some s

/-- A key ends on the line where it starts, and not too far from its start. -/
def isStale (s : Scanner) (k : PossibleKey) : Bool :=
  k.line < s.cursor.line || k.offset + 1024 < s.cursor.offset

/-! ## Indentation -/

/-- Opens a block collection at a column to the right of the innermost one; its token goes before
the token at `position`. -/
def openBlock (s : Scanner) (column : Nat) (position : Nat) (t : Token) : Scanner :=
  if s.flow = 0 ∧ s.indent < column then
    { s with
      tokens := s.tokens.insertIdxIfInBounds position t
      indent := column
      outer := s.indent :: s.outer }
  else s

/-- Closes the block collections to the right of a column. -/
def closeBlocks (column : Int) : Nat → Scanner → Scanner
  | 0, s => s
  | fuel + 1, s =>
    if s.flow = 0 ∧ column < s.indent then
      match s.outer with
      | [] => s
      | indent :: outer => closeBlocks column fuel { s.push .blockEnd with indent, outer }
    else s

def close (s : Scanner) (column : Int) : Scanner := closeBlocks column (s.outer.length + 1) s

/-! ## Tokens -/

/-- Skips blanks, comments and line breaks. In a block, tabs may not indent a line that could start
with a key. -/
def toNextToken : Nat → Scanner → Scanner
  | 0, s => s
  | fuel + 1, s =>
    let tabs := s.flow != 0 || !s.keyAllowed
    let c := s.cursor.skipWhile fun ch => ch == ' ' || (tabs && ch == '\t')
    let c := if c.head? = some '#' then c.skipWhile (!isBreak ·) else c
    match c.head? with
    | some ch =>
      if isBreak ch then
        toNextToken fuel
          { s with cursor := c.takeBreak.2, keyAllowed := s.keyAllowed || s.flow == 0 }
      else { s with cursor := c }
    | none => { s with cursor := c }

/-- A token of `n` characters. -/
def advance (s : Scanner) (n : Nat) (t : Token) : Scanner :=
  { s.push t with cursor := s.cursor.skip n }

def isNameChar (c : Char) : Bool := c.isAlphanum || c == '-' || c == '_'

def isTagChar (c : Char) : Bool := isNameChar c || ";/?:@&=+$,.!~*'()[]%".toList.contains c

/-- The start and the end of documents are written in the first column and close everything. -/
def documentMarker (s : Scanner) (t : Token) : Option Scanner :=
  ((s.close (-1)).dropKey).map fun s => { s.advance 3 t with keyAllowed := false }

/-- A line that starts with a percent sign. -/
def directive (s : Scanner) : Option Scanner := do
  let s ← (s.close (-1)).dropKey
  let s := { s with keyAllowed := false }
  let (name, c) := (s.cursor.skip 1).takeWhile isNameChar
  if name.isEmpty ∨ !endsWord c.head? then none
  let words := (((String.ofList (c.takeWhile (!isBreak ·)).1).splitOn "#").headD "").splitOn " "
  let words := words.filter (· != "")
  let c := c.skipWhile (!isBreak ·)
  let s := { s with cursor := if c.head?.isSome then c.takeBreak.2 else c }
  match String.ofList name, words with
  | "YAML", [number] =>
    match (number.splitOn ".").map String.toNat? with
    | [some major, some minor] => return s.push (.version major minor)
    | _ => none
  | "TAG", [handle, start] => return s.push (.tagHandle handle start)
  | _, _ => none

def openFlow (s : Scanner) (t : Token) : Option Scanner :=
  s.markKey.map fun s =>
    { s.advance 1 t with flow := s.flow + 1, keys := none :: s.keys, keyAllowed := true }

def closeFlow (s : Scanner) (t : Token) : Option Scanner :=
  s.dropKey.map fun s =>
    let s := if s.flow = 0 then s else { s with flow := s.flow - 1, keys := s.keys.tail }
    { s.advance 1 t with keyAllowed := false }

def flowItem (s : Scanner) : Option Scanner :=
  s.dropKey.map fun s => { s.advance 1 .flowItem with keyAllowed := true }

def blockItem (s : Scanner) : Option Scanner := do
  if s.flow = 0 ∧ !s.keyAllowed then none
  let s := s.openBlock s.cursor.column s.tokens.size .sequenceStart
  let s ← s.dropKey
  return { s.advance 1 .blockItem with keyAllowed := true }

def explicitKey (s : Scanner) : Option Scanner := do
  if s.flow = 0 ∧ !s.keyAllowed then none
  let s := s.openBlock s.cursor.column s.tokens.size .mappingStart
  let s ← s.dropKey
  return { s.advance 1 .key with keyAllowed := s.flow == 0 }

/-- A colon: what stands before it on the line is the key, or the key was explicit or missing. -/
def mappingValue (s : Scanner) : Option Scanner := do
  let key ← match s.key? with
    | none => pure none
    | some k => if !s.isStale k then pure (some k) else if k.required then none else pure none
  match key with
  | some k =>
    let s := { s with tokens := s.tokens.insertIdxIfInBounds k.position .key }
    let s := (s.openBlock k.column k.position .mappingStart).setKey none
    return { s.advance 1 .value with keyAllowed := false }
  | none =>
    if s.flow = 0 ∧ !s.keyAllowed then none
    let s := (s.openBlock s.cursor.column s.tokens.size .mappingStart).setKey none
    return { s.advance 1 .value with keyAllowed := s.flow == 0 }

/-- The name of an anchor or alias. -/
def reference (s : Scanner) (make : String → Token) : Option Scanner := do
  let s ← s.markKey
  let (name, c) := (s.cursor.skip 1).takeWhile isNameChar
  let closed := endsWord c.head? || c.head?.any ("?:,]\x7d%@\x60".toList.contains ·)
  if name.isEmpty ∨ !closed then none
  return { s.push (make (String.ofList name)) with cursor := c, keyAllowed := false }

def tagToken (s : Scanner) : Option Scanner := do
  let s ← s.markKey
  let c := s.cursor.skip 1
  let (token, c) ←
    if c.head? = some '<' then
      let (suffix, c) := (c.skip 1).takeWhile isTagChar
      if suffix.isEmpty ∨ c.head? ≠ some '>' then none
      else pure (Token.tag "" (String.ofList suffix), c.skip 1)
    else
      let (name, after) := c.takeWhile isNameChar
      if after.head? = some '!' then
        let (suffix, c) := (after.skip 1).takeWhile isTagChar
        if suffix.isEmpty then none
        else pure (Token.tag ("!" ++ String.ofList name ++ "!") (String.ofList suffix), c)
      else
        let (suffix, c) := c.takeWhile isTagChar
        pure (Token.tag "!" (String.ofList suffix), c)
  if !endsWord c.head? ∧ !(s.flow ≠ 0 ∧ c.head? = some ',') then none
  return { s.push token with cursor := c, keyAllowed := false }

def blockScalar (s : Scanner) (literal : Bool) : Option Scanner := do
  let s ← s.dropKey
  let scanned ← scanBlock literal s.indent (s.cursor.skip 1)
  return { s.push (.scalar false (String.ofList scanned.text)) with
    cursor := scanned.cursor, keyAllowed := true }

def quotedScalar (s : Scanner) (single : Bool) : Option Scanner := do
  let s ← s.markKey
  let c := s.cursor.skip 1
  let scanned ← scanQuoted single (c.rest.length + 1) [] c
  return { s.push (.scalar false (String.ofList scanned.text)) with
    cursor := scanned.cursor, keyAllowed := false }

def plainScalar (s : Scanner) : Option Scanner := do
  let s ← s.markKey
  let c := s.cursor
  let scanned ← scanPlain (s.flow != 0) (s.indent + 1).toNat (c.rest.length + 1) [] .none c
  return { s.push (.scalar true (String.ofList scanned.text)) with
    cursor := scanned.cursor, keyAllowed := scanned.broken }

/-- Whether a plain scalar can start with a character, given the one after it. -/
def startsPlain (inFlow : Bool) (c : Char) (next : Option Char) : Bool :=
  if c = '-' then !next.any isBlank
  else if c = '?' ∨ c = ':' then !inFlow && !endsWord next
  else !endsWord (some c) && !",[]{}#&*!|>'\"%@\x60".toList.contains c

/-- The token at the cursor, or `none` where there is none. -/
def token (s : Scanner) : Option Scanner :=
  let c := s.cursor
  let next := c.peek? 1
  match c.head? with
  | none => ((s.close (-1)).dropKey).map (·.push .finish)
  | some ch =>
    if c.column = 0 ∧ ch = '%' then s.directive
    else if c.atMarker '-' then s.documentMarker .documentStart
    else if c.atMarker '.' then s.documentMarker .documentEnd
    else if ch = '[' then s.openFlow .flowSequenceStart
    else if ch = '{' then s.openFlow .flowMappingStart
    else if ch = ']' then s.closeFlow .flowSequenceEnd
    else if ch = '}' then s.closeFlow .flowMappingEnd
    else if ch = ',' then s.flowItem
    else if ch = '-' ∧ endsWord next then s.blockItem
    else if ch = '?' ∧ (s.flow ≠ 0 ∨ endsWord next) then s.explicitKey
    else if ch = ':' ∧ (s.flow ≠ 0 ∨ endsWord next) then s.mappingValue
    else if ch = '*' then s.reference .alias
    else if ch = '&' then s.reference .anchor
    else if ch = '!' then s.tagToken
    else if ch = '|' ∧ s.flow = 0 then s.blockScalar true
    else if ch = '>' ∧ s.flow = 0 then s.blockScalar false
    else if ch = '\x27' then s.quotedScalar true
    else if ch = '"' then s.quotedScalar false
    else if startsPlain (s.flow != 0) ch next then s.plainScalar
    else none

/-- All tokens up to the end of the text or to the first character that fits none. -/
def run : Nat → Scanner → Array Token
  | 0, s => s.tokens.push .broken
  | fuel + 1, s =>
    let s := toNextToken (s.cursor.rest.length + 1) s
    let s := s.close s.cursor.column
    match s.token with
    | none => s.tokens.push .broken
    | some s => if s.tokens.back? = some .finish then s.tokens else run fuel s

end Scanner

/-- The tokens of a text. -/
def tokens (text : String) : List Token :=
  let text := match text.toList with
    | c :: rest => if c.toNat = 0xFEFF then rest else c :: rest
    | [] => []
  if text.all isAllowed then (Scanner.run (2 * text.length + 2) (.ofText text)).toList
  else [.broken]

end DocTokens.Yaml
