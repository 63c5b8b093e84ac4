import DocTokens.Text.Utf8

/-! # HTML in markdown

Which texts are HTML tags, and which lines start and end HTML blocks of the seven types.
-/

namespace DocTokens.Markdown.Html

/-- Blanks allowed inside a tag. -/
def isTagSpace (b : UInt8) : Bool := b == ascii ' ' || b == ascii '\t' || b == 10 || b == 13

def isNameByte (b : UInt8) : Bool := Bytes.isAlphanumeric b || b == ascii '-'

def isAttributeStart (b : UInt8) : Bool := Bytes.isLetter b || b == ascii '_' || b == ascii ':'

def isAttributeByte (b : UInt8) : Bool :=
  Bytes.isAlphanumeric b || b == ascii '_' || b == ascii ':' || b == ascii '.' || b == ascii '-'

/-- Bytes of an attribute value without quotes. -/
def isUnquoted (b : UInt8) : Bool :=
  !(b ≤ 32 || b == ascii '"' || b == 39 || b == ascii '=' || b == ascii '<' || b == ascii '>'
    || b == 96)

/-- A tag name: a letter, then letters, digits and hyphens. Answers its length. -/
def tagNameLength? : Bytes → Option Nat
  | [] => none
  | b :: rest => if Bytes.isLetter b then some (1 + Bytes.spanLength isNameByte rest) else none

/-- The length of an attribute value. -/
def valueLength? : Bytes → Option Nat
  | [] => none
  | b :: rest =>
    if b == ascii '"' || b == 39 then (rest.idxOf? b).map (· + 2)
    else
      let n := Bytes.spanLength isUnquoted (b :: rest)
      if n = 0 then none else some n

/-- The length of an equals sign and a value, with blanks around the sign; zero if there is none. -/
def assignmentLength (s : Bytes) : Nat :=
  let before := Bytes.spanLength isTagSpace s
  match s.drop before with
  | [] => 0
  | b :: rest =>
    if b = ascii '=' then
      let after := Bytes.spanLength isTagSpace rest
      match valueLength? (rest.drop after) with
      | some n => before + 1 + after + n
      | none => 0
    else 0

/-- The length of an attribute with the blanks before it, of which there is at least one. -/
def attributeLength? (s : Bytes) : Option Nat :=
  let blanks := Bytes.spanLength isTagSpace s
  if blanks = 0 then none
  else match s.drop blanks with
    | [] => none
    | b :: rest =>
      if isAttributeStart b then
        let name := 1 + Bytes.spanLength isAttributeByte rest
        some (blanks + name + assignmentLength ((b :: rest).drop name))
      else none

/-- The length of the attributes at the front of a text. -/
def attributesLength : (fuel : Nat) → Bytes → Nat
  | 0, _ => 0
  | fuel + 1, s =>
    match attributeLength? s with
    | some n => n + attributesLength fuel (s.drop n)
    | none => 0

/-- The length of the blanks before the end of a tag: spaces, tabs and line breaks. -/
def tagBlanks : Bytes → Nat
  | [] => 0
  | [b] => if b == ascii ' ' || b == ascii '\t' || b == 10 then 1 else 0
  | b :: b' :: rest =>
    if b == ascii ' ' || b == ascii '\t' || b == 10 then 1 + tagBlanks (b' :: rest)
    else if b == 13 && b' == 10 then 2 + tagBlanks rest
    else 0

/-- The length of an opening tag. -/
def openTagLength? (s : Bytes) : Option Nat := do
  guard (s.head? == some (ascii '<'))
  let name ← tagNameLength? s.tail
  let n := 1 + name
  let n := n + attributesLength s.length (s.drop n)
  let n := n + tagBlanks (s.drop n)
  match s.drop n with
  | b :: rest =>
    if b = ascii '>' then return n + 1
    else if b = ascii '/' && rest.head? == some (ascii '>') then return n + 2
    else none
  | [] => none

/-- The length of a closing tag. -/
def closeTagLength? (s : Bytes) : Option Nat := do
  guard ((utf8 "</").isPrefixOf s)
  let name ← tagNameLength? (s.drop 2)
  let n := 2 + name
  let n := n + tagBlanks (s.drop n)
  guard ((s.drop n).head? == some (ascii '>'))
  return n + 1

/-! ## Blocks -/

/-- Names of tags that start a block of the sixth type. -/
def blockTags : List String :=
  ["address", "article", "aside", "base", "basefont", "blockquote", "body", "caption", "center",
    "col", "colgroup", "dd", "details", "dialog", "dir", "div", "dl", "dt", "fieldset",
    "figcaption", "figure", "footer", "form", "frame", "frameset", "h1", "h2", "h3", "h4", "h5",
    "h6", "head", "header", "hr", "html", "iframe", "legend", "li", "link", "main", "menu",
    "menuitem", "meta", "nav", "noframes", "ol", "optgroup", "option", "p", "param", "search",
    "section", "summary", "table", "tbody", "td", "tfoot", "th", "thead", "title", "tr", "track",
    "ul"]

/-- Names of tags whose content is not markdown. -/
def rawTags : List String := ["script", "pre", "style", "textarea"]

def lower (s : Bytes) : Bytes := s.map Bytes.lowerByte

def isOneOf (names : List String) (s : Bytes) : Bool := names.any fun n => utf8 n == lower s

/-- Whether what follows a tag name ends the line, is a blank, or ends the tag. -/
def endsName (isBlank : UInt8 → Bool) : Bytes → Bool
  | [] => true
  | b :: rest =>
    isBlank b || b == newline || b == ascii '>' ||
      (b == ascii '/' && rest.head? == some (ascii '>'))
      || (b == ascii '\r' && rest == [newline])

/-- A line whose first tag, after `<`, is one of the raw tags. -/
def startsRaw (s : Bytes) : Bool :=
  rawTags.any fun name =>
    let n := utf8 name
    n.isPrefixOf (lower s) && endsName Bytes.isSpace (s.drop n.length)

/-- Whether nothing but spaces and the line break is left. -/
def isLineRest (s : Bytes) : Bool :=
  let rest := s.dropWhile (· == ascii ' ')
  rest.isEmpty || rest == [newline] || rest == [ascii '\r', newline]

/-- A line that holds exactly one tag: its name, whether it is a closing tag with attributes. -/
structure LoneTag where
  name : Bytes
  closesWithAttributes : Bool

/-- Reads a line that holds a single tag, after its `<`. -/
def LoneTag.read? (s : Bytes) : Option LoneTag := do
  let slash := s.head? == some (ascii '/')
  let blanks := if slash then Bytes.spanLength (· == ascii ' ') s.tail else 0
  let inner := if slash then s.drop (1 + blanks) else s
  let name ← tagNameLength? inner
  let attributes := attributesLength inner.length (inner.drop name)
  let rest := (inner.drop (name + attributes)).dropWhile (· == ascii ' ')
  let rest := if rest.head? == some (ascii '/') then rest.tail else rest
  guard (rest.head? == some (ascii '>') && isLineRest rest.tail)
  return ⟨inner.take name, slash && blanks == 0 && 0 < attributes⟩

/-- Whether a line, after its `<`, starts with a tag of the sixth block type. -/
def startsBlockTag (s : Bytes) : Bool :=
  let inner := if s.head? == some (ascii '/') then s.tail.dropWhile (· == ascii ' ') else s
  match tagNameLength? inner with
  | none => false
  | some n => isOneOf blockTags (inner.take n) && endsName (· == ascii ' ') (inner.drop n)

/-- The type of the HTML block that a line starts. Blocks of the seventh type do not interrupt a
paragraph. -/
def blockType? (line : Bytes) (inParagraph : Bool) : Option Nat :=
  let spaces := Bytes.spanLength (· == ascii ' ') line
  match line.drop spaces with
  | [] => none
  | b :: s =>
    if 3 < spaces || b != ascii '<' then none
    else if startsRaw s then some 1
    else if (utf8 "!--").isPrefixOf s then some 2
    else if s.head? == some (ascii '?') then some 3
    else if s.head? == some (ascii '!') && s.tail.head?.any Bytes.isUpper then some 4
    else if (utf8 "![CDATA[").isPrefixOf s then some 5
    else
      let tag? := LoneTag.read? s
      if startsBlockTag s || tag?.any (isOneOf blockTags ·.name) then some 6
      else if !inParagraph && tag?.any (fun tag =>
          !isOneOf ["script", "style", "pre"] tag.name && !tag.closesWithAttributes) then some 7
      else none

/-- Whether a line holds the end of a block of one of the first five types. -/
def endsBlock (type : Nat) (line : Bytes) : Bool :=
  let holds (s : String) : Bool := (Bytes.find? (utf8 s) line).isSome
  match type with
  | 1 => rawTags.any fun name => (Bytes.find? (utf8 ("</" ++ name ++ ">")) (lower line)).isSome
  | 2 => holds "-->"
  | 3 => holds "?>"
  | 4 => holds ">"
  | 5 => holds "]]>"
  | _ => false

end DocTokens.Markdown.Html
