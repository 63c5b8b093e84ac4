import DocTokens.Hcl.Expression
import DocTokens.Text.CodePoint

/-! # The syntax of attribute files

A file is a list of attributes, each a name and an expression on a line of its own, and of blocks,
which hold such a list between braces. Inside brackets and parentheses an expression may go over
several lines.
-/

namespace DocTokens.Hcl

/-- Reads part of a file; there is no result where the text does not fit. -/
abbrev Read := StateT (List Char) Option

namespace Read

def fail : Read α := fun _ => none

/-! ## Words and blanks -/

/-- What follows the end of a comment between `/*` and `*/`. -/
def afterComment? : List Char → Option (List Char)
  | '*' :: '/' :: rest => some rest
  | _ :: rest => afterComment? rest
  | [] => none

def startsLineComment : List Char → Bool
  | '#' :: _ => true
  | '/' :: '/' :: _ => true
  | _ => false

/-- Skips blanks and comments, and with `newlines` also the ends of lines. -/
def skipBlanks (newlines : Bool) : Nat → List Char → List Char
  | 0, text => text
  | fuel + 1, text =>
    if newlines ∧ startsLineComment text then skipBlanks newlines fuel (text.dropWhile (· != '\n'))
    else match text with
      | ' ' :: rest => skipBlanks newlines fuel rest
      | '\t' :: rest => skipBlanks newlines fuel rest
      | '/' :: '*' :: rest =>
        match afterComment? rest with
        | some rest => skipBlanks newlines fuel rest
        | none => text
      | '\n' :: rest => if newlines then skipBlanks newlines fuel rest else text
      | '\r' :: '\n' :: rest => if newlines then skipBlanks newlines fuel rest else text
      | _ => text

/-- The text after blanks. -/
def look (newlines : Bool) : Read (List Char) := do
  modify fun text => skipBlanks newlines (text.length + 1) text
  get

def drop (n : Nat) : Read Unit := modify (·.drop n)

/-- Skips a mark if it comes next. -/
def accept (newlines : Bool) (mark : String) : Read Bool := do
  if mark.toList.isPrefixOf (← look newlines) then drop mark.length; return true else return false

def expect (newlines : Bool) (mark : String) : Read Unit := do
  if !(← accept newlines mark) then fail

/-- The end of a line, or of the file. -/
def lineEnd : Read Unit := do
  let text ← look false
  let text := if startsLineComment text then text.dropWhile (· != '\n') else text
  match text with
  | [] => set text
  | '\n' :: rest => set rest
  | '\r' :: '\n' :: rest => set rest
  | _ => fail

def startsName (c : Char) : Bool :=
  c.isAlpha || c == '_' || (0x80 ≤ c.toNat && CodePoint.isPrintable c && !CodePoint.isPunctuation c)

def continuesName (c : Char) : Bool := startsName c || c.isDigit || c == '-'

/-- A name at the start of a text. -/
def nameOf? (text : List Char) : Option String :=
  match text with
  | c :: _ => if startsName c then some (String.ofList (text.takeWhile continuesName)) else none
  | [] => none

def name (newlines : Bool) : Read String := do
  match nameOf? (← look newlines) with
  | some n => drop n.length; return n
  | none => fail

/-- Skips a name if it comes next. -/
def acceptName (newlines : Bool) (n : String) : Read Bool := do
  if nameOf? (← look newlines) = some n then drop n.length; return true else return false

/-- A number at the cursor: digits, a fraction, an exponent. -/
def number : Read Decimal := do
  let text ← get
  let whole := text.takeWhile Char.isDigit
  let rest := text.drop whole.length
  let fraction := match rest with
    | '.' :: rest => if rest.head?.any Char.isDigit then '.' :: rest.takeWhile Char.isDigit else []
    | _ => []
  let rest := rest.drop fraction.length
  let exponent := match rest with
    | mark :: rest =>
      if mark = 'e' ∨ mark = 'E' then
        let sign := rest.takeWhile fun c => c == '+' || c == '-'
        let digits := (rest.drop sign.length).takeWhile Char.isDigit
        if sign.length ≤ 1 ∧ !digits.isEmpty then mark :: sign ++ digits else []
      else []
    | [] => []
  match Decimal.ofUnsigned? (whole ++ fraction ++ exponent) with
  | some d => drop (whole.length + fraction.length + exponent.length); return d
  | none => fail

/-! ## Operators -/

/-- The operators of one binding strength, weakest first, with their marks. -/
def operators : List (List (String × Operator)) :=
  [[("||", .or)],
   [("&&", .and)],
   [("==", .equal), ("!=", .unequal)],
   [(">=", .greaterOrEqual), ("<=", .lessOrEqual), (">", .greater), ("<", .less)],
   [("+", .add), ("-", .subtract)],
   [("*", .multiply), ("/", .divide), ("%", .remainder)]]

/-- The operator at the start of a text, and its length. A comment is none. -/
def operatorOf? (level : List (String × Operator)) (text : List Char) : Option (Operator × Nat) :=
  if startsLineComment text then none
  else (level.find? fun (mark, _) => mark.toList.isPrefixOf text).map fun (mark, op) =>
    (op, mark.length)

/-! ## Templates -/

/-- A piece of a template. -/
inductive Piece where
  | text (s : String)
  | value (e : Expression)
  /-- A loop or a condition. -/
  | control (e : Expression)
  deriving Repr

namespace Piece

def expression : Piece → Expression
  | text s => .literal (.string s)
  | value e => e
  | control e => e

/-- A template of one value is that value, whatever its kind. -/
def join : List Piece → Expression
  | [value e] => e
  | pieces => .template (pieces.map expression)

end Piece

/-- A text that has been read, last character first, as a piece before others. -/
def flush (text : List Char) (pieces : List Piece) : List Piece :=
  if text.isEmpty then pieces else .text (String.ofList text.reverse) :: pieces

def hexValue? (digits : List Char) : Option Nat :=
  digits.foldlM (fun n c =>
    let c := c.toLower
    if c.isDigit then some (n * 16 + (c.toNat - 48))
    else if 'a' ≤ c ∧ c ≤ 'f' then some (n * 16 + (c.toNat - 87))
    else none) 0

/-- The character of an escape, after its backslash, and the length of the escape. -/
def escapeOf? : List Char → Option (Char × Nat)
  | 'n' :: _ => some ('\n', 1)
  | 'r' :: _ => some ('\r', 1)
  | 't' :: _ => some ('\t', 1)
  | '"' :: _ => some ('"', 1)
  | '\\' :: _ => some ('\\', 1)
  | c :: rest =>
    let length := if c = 'u' then 4 else if c = 'U' then 8 else 0
    let digits := rest.take length
    if length = 0 ∨ digits.length ≠ length then none
    else (hexValue? digits).bind fun n =>
      if n.isValidChar then some (Char.ofNat n, length + 1) else none
  | [] => none

def isTemplateBlank (c : Char) : Bool := c == ' ' || c == '\t' || c == '\n' || c == '\r'

/-- The end of a sequence in a template. A tilde takes the blanks after it away. -/
def closeSequence : Read Unit := do
  if ← accept true "~" then
    if !(← accept false "\x7d") then fail
    modify (·.dropWhile isTemplateBlank)
  else expect true "\x7d"

/-- The lines of a text up to the one that holds `marker` alone, and what follows it. -/
def untilMarker (marker : List Char) : Nat → List Char → Option (List (List Char) × List Char)
  | 0, _ => none
  | fuel + 1, text =>
    let line := text.takeWhile (· != '\n')
    let rest := text.drop line.length
    let trimmed := (line.dropWhile isTemplateBlank).reverse.dropWhile isTemplateBlank |>.reverse
    if trimmed = marker then some ([], rest)
    else match rest with
      | '\n' :: rest =>
        (untilMarker marker fuel rest).map fun (lines, after) => (line :: lines, after)
      | _ => none

/-- The lines without the blanks that all of them start with. -/
def unindent (lines : List (List Char)) : List (List Char) :=
  let margin (line : List Char) := (line.takeWhile fun c => c == ' ' || c == '\t').length
  let filled := lines.filter (·.any (!isTemplateBlank ·))
  match (filled.map margin).min? with
  | some n => lines.map fun line => line.drop (min n (margin line))
  | none => lines

/-! ## Expressions -/

mutual

/-- An expression; with `newlines` it may go over several lines. -/
def expression (newlines : Bool) : Nat → Read Expression
  | 0 => fail
  | fuel + 1 => do
    let test ← operation newlines operators fuel
    if ← accept newlines "?" then
      let yes ← expression newlines fuel
      expect newlines ":"
      let no ← expression newlines fuel
      return .conditional test yes no
    else return test

/-- Operands joined by the operators of the given binding strengths. -/
def operation (newlines : Bool) (levels : List (List (String × Operator))) : Nat → Read Expression
  | 0 => fail
  | fuel + 1 =>
    match levels with
    | [] => operand newlines fuel
    | level :: stronger => do
      let left ← operation newlines stronger fuel
      operations newlines level stronger left fuel

/-- More operands after the first one, joined from the left. -/
def operations (newlines : Bool) (level : List (String × Operator))
    (stronger : List (List (String × Operator))) (left : Expression) : Nat → Read Expression
  | 0 => fail
  | fuel + 1 => do
    match operatorOf? level (← look newlines) with
    | none => return left
    | some (op, length) =>
      drop length
      let right ← operation newlines stronger fuel
      operations newlines level stronger (.binary op left right) fuel

/-- A term with what is selected from it. -/
def operand (newlines : Bool) : Nat → Read Expression
  | 0 => fail
  | fuel + 1 => do
    let e ← term newlines fuel
    selection newlines e fuel

/-- Members and items selected from an expression. -/
def selection (newlines : Bool) (e : Expression) : Nat → Read Expression
  | 0 => fail
  | fuel + 1 => do
    match ← look newlines with
    | '.' :: '*' :: _ =>
      drop 2
      let each ← selection newlines (.named "") fuel
      return .splat e each
    | '.' :: '.' :: _ => return e
    | '.' :: _ =>
      drop 1
      let text ← look newlines
      if text.head?.any Char.isDigit then
        let digits := text.takeWhile Char.isDigit
        drop digits.length
        selection newlines
          (.index e (.literal (.number (.ofInt (Decimal.digitsValue digits))))) fuel
      else
        let n ← name newlines
        selection newlines (.member e n) fuel
    | '[' :: '*' :: ']' :: _ =>
      drop 3
      let each ← selection newlines (.named "") fuel
      return .splat e each
    | '[' :: _ =>
      drop 1
      let key ← expression true fuel
      expect true "]"
      selection newlines (.index e key) fuel
    | _ => return e

/-- An expression that no operator takes apart. -/
def term (newlines : Bool) : Nat → Read Expression
  | 0 => fail
  | fuel + 1 => do
    let text ← look newlines
    match text with
    | '(' :: _ =>
      drop 1
      let e ← expression true fuel
      expect true ")"
      return e
    | '"' :: _ => drop 1; return Piece.join (← template true [] fuel).1
    | '<' :: '<' :: '-' :: _ => drop 3; heredoc true fuel
    | '<' :: '<' :: _ => drop 2; heredoc false fuel
    | '-' :: _ => drop 1; return .negate (← operand newlines fuel)
    | '!' :: _ => drop 1; return .not (← operand newlines fuel)
    | '[' :: _ =>
      drop 1
      if ← acceptName true "for" then loop "]" fuel else return .tuple (← items "]" fuel)
    | '\x7b' :: _ =>
      drop 1
      if ← acceptName true "for" then loop "\x7d" fuel else return .object (← fields fuel)
    | c :: _ =>
      if c.isDigit then return .literal (.number (← number))
      else
        let n ← name newlines
        if ← accept newlines "(" then return .call n (← items ")" fuel)
        else if ← accept newlines "::" then
          let e ← term newlines fuel
          match e with
          | .call m arguments => return .call (n ++ "::" ++ m) arguments
          | _ => fail
        else match n with
          | "true" => return .literal (.boolean true)
          | "false" => return .literal (.boolean false)
          | "null" => return .literal .null
          | _ => return .named n
    | [] => fail

/-- Expressions between commas up to a closing mark; a comma may be last. -/
def items (closing : String) : Nat → Read (List Expression)
  | 0 => fail
  | fuel + 1 => do
    if ← accept true closing then return []
    let e ← expression true fuel
    if ← accept true "..." then
      expect true closing
      return [e]
    if ← accept true "," then return e :: (← items closing fuel)
    expect true closing
    return [e]

/-- The fields of an object, each on a line of its own or before a comma. A name as a key stands for
itself. -/
def fields : Nat → Read (List (Expression × Expression))
  | 0 => fail
  | fuel + 1 => do
    if ← accept true "\x7d" then return []
    let key ← match ← expression false fuel with
      | .named n => pure (.literal (.string n))
      | e => pure e
    let text ← look false
    if "==".toList.isPrefixOf text then fail
    if !(← accept false "=") then expect false ":"
    let e ← expression false fuel
    if ← accept false "\x7d" then return [(key, e)]
    if !(← accept false ",") then lineEnd
    return (key, e) :: (← fields fuel)

/-- A loop up to its closing bracket; its first word has been read. -/
def loop (closing : String) : Nat → Read Expression
  | 0 => fail
  | fuel + 1 => do
    let (key, item) ← loopNames
    if !(← acceptName true "in") then fail
    let collection ← expression true fuel
    expect true ":"
    let first ← expression true fuel
    let second ← if ← accept true "=>" then pure (some (← expression true fuel)) else pure none
    let grouped ← accept true "..."
    let test ← if ← acceptName true "if" then expression true fuel
      else pure (.literal (.boolean true))
    expect true closing
    match second, closing with
    | none, "]" => if grouped then fail else return .forTuple key item collection first test
    | some body, "\x7d" =>
      if grouped then return .call "" []
      else return .forObject key item collection first body test
    | _, _ => fail

/-- The names a loop binds: of the item alone, or of its key and the item. -/
def loopNames : Read (String × String) := do
  let n ← name true
  if ← accept true "," then return (n, ← name true) else return ("", n)

/-- A text between markers on lines of their own. -/
def heredoc (flush : Bool) : Nat → Read Expression
  | 0 => fail
  | fuel + 1 => do
    match nameOf? (← get) with
    | none => fail
    | some marker =>
      drop marker.length
      match ← get with
      | '\r' :: '\n' :: _ => drop 2
      | '\n' :: _ => drop 1
      | _ => fail
      let text ← get
      match untilMarker marker.toList (text.length + 1) text with
      | none => fail
      | some (lines, after) =>
        let lines := if flush then unindent lines else lines
        set (lines.flatMap fun line => line ++ ['\n'])
        let (pieces, ending) ← template false [] fuel
        if ending ≠ "" then fail
        set after
        return Piece.join pieces

/-- The pieces of a template after `text`, up to the closing quote or the end of the text, and the
word of the sequence that ended it before. -/
def template (quoted : Bool) (text : List Char) : Nat → Read (List Piece × String)
  | 0 => fail
  | fuel + 1 => do
    let more (n : Nat) (c : Char) : Read (List Piece × String) := do
      drop n
      template quoted (c :: text) fuel
    match ← get with
    | [] => if quoted then fail else return (flush text [], "")
    | '$' :: '$' :: '\x7b' :: _ => drop 3; template quoted ('\x7b' :: '$' :: text) fuel
    | '%' :: '%' :: '\x7b' :: _ => drop 3; template quoted ('\x7b' :: '%' :: text) fuel
    | '$' :: '\x7b' :: rest =>
      let strip := rest.head? == some '~'
      drop (if strip then 3 else 2)
      let e ← expression true fuel
      closeSequence
      let (pieces, ending) ← template quoted [] fuel
      return (flush (if strip then text.dropWhile isTemplateBlank else text) (.value e :: pieces),
        ending)
    | '%' :: '\x7b' :: rest =>
      let strip := rest.head? == some '~'
      drop (if strip then 3 else 2)
      let text := if strip then text.dropWhile isTemplateBlank else text
      let word ← name true
      if word = "if" ∨ word = "for" then
        let e ← control quoted word fuel
        let (pieces, ending) ← template quoted [] fuel
        return (flush text (.control e :: pieces), ending)
      else if ["else", "endif", "endfor"].contains word then
        closeSequence
        return (flush text [], word)
      else fail
    | c :: rest =>
      if !quoted then more 1 c
      else if c = '"' then drop 1; return (flush text [], "")
      else if c = '\n' then fail
      else if c = '\\' then
        match escapeOf? rest with
        | some (e, n) => more (n + 1) e
        | none => fail
      else more 1 c

/-- A condition or a loop in a template, from after its first word to its last sequence. -/
def control (quoted : Bool) (word : String) : Nat → Read Expression
  | 0 => fail
  | fuel + 1 => do
    if word = "if" then
      let test ← expression true fuel
      closeSequence
      let (yes, ending) ← template quoted [] fuel
      let no ← if ending = "else" then
          let (no, ending) ← template quoted [] fuel
          if ending = "endif" then pure no else fail
        else if ending = "endif" then pure []
        else fail
      let join (pieces : List Piece) := Expression.template (pieces.map Piece.expression)
      return .conditional test (join yes) (join no)
    else
      let (key, item) ← loopNames
      if !(← acceptName true "in") then fail
      let collection ← expression true fuel
      closeSequence
      let (body, ending) ← template quoted [] fuel
      if ending ≠ "endfor" then fail
      return .forText key item collection (.template (body.map Piece.expression))

end

end Read

/-! ## Files -/

inductive Block where
  | mk (type : String) (labels : List String) (attributes : List (String × Expression))
    (blocks : List Block)
  deriving Repr

/-- The attributes and blocks of a file or of a block. -/
structure Body where
  attributes : List (String × Expression)
  blocks : List Block
  deriving Repr

namespace Body

def empty : Body := ⟨[], []⟩

/-- Adds an attribute before others. There must be no other of the same name. -/
def addAttribute (b : Body) (name : String) (e : Expression) : Option Body :=
  if (b.attributes.lookup name).isSome then none
  else some { b with attributes := (name, e) :: b.attributes }

def addBlock (b : Body) (block : Block) : Body := { b with blocks := block :: b.blocks }

end Body

namespace Read

/-- The labels of a block up to its opening brace. -/
def labels : Nat → Read (List String)
  | 0 => fail
  | fuel + 1 => do
    match ← look false with
    | '\x7b' :: _ => drop 1; return []
    | '"' :: _ =>
      drop 1
      match ← template true [] fuel with
      | ([], "") => return "" :: (← labels fuel)
      | ([.text s], "") => return s :: (← labels fuel)
      | _ => fail
    | _ => return (← name false) :: (← labels fuel)

mutual

/-- The items of a body, up to a closing brace if it is `nested`, else to the end of the file. -/
def body (nested : Bool) : Nat → Read Body
  | 0 => fail
  | fuel + 1 => do
    match ← look true with
    | [] => if nested then fail else return .empty
    | '\x7d' :: _ => if nested then drop 1; return .empty else fail
    | _ =>
      let n ← name false
      if isAssignment (← look false) then
        drop 1
        let e ← expression false fuel
        lineEnd
        match (← body nested fuel).addAttribute n e with
        | some b => return b
        | none => fail
      else
        let labels ← labels fuel
        let inner ← blockBody fuel
        lineEnd
        return (← body nested fuel).addBlock (.mk n labels inner.attributes inner.blocks)

/-- The body of a block after its opening brace: lines of its own, or one attribute on the same
line. -/
def blockBody : Nat → Read Body
  | 0 => fail
  | fuel + 1 => do
    match ← look false with
    | '\x7d' :: _ => drop 1; return .empty
    | text =>
      if (nameOf? text).isSome then
        let n ← name false
        if !isAssignment (← look false) then fail
        drop 1
        let e ← expression false fuel
        expect false "\x7d"
        return ⟨[(n, e)], []⟩
      else
        lineEnd
        body true fuel

/-- Whether a single equals sign comes next. -/
def isAssignment : List Char → Bool
  | '=' :: '=' :: _ => false
  | '=' :: '>' :: _ => false
  | '=' :: _ => true
  | _ => false

end

end Read

/-- Reads a file; `none` if it is malformed. -/
def Body.ofText? (text : String) : Option Body :=
  let text := match text.toList with
    | c :: rest => if c.toNat = 0xFEFF then rest else c :: rest
    | [] => []
  (Read.body false (16 * text.length + 64) text).map (·.1)

end DocTokens.Hcl
