import DocTokens.Diagnostic
import DocTokens.Markdown.Extent
import DocTokens.Tree.Forest

/-! # From markdown to document trees

Every markdown node becomes one node of the document tree, with extra nodes for the parts that
matter to classification: names, labels, keys, link targets, bullets, code and its language. A
cursor runs along; a node whose place cannot be recovered is put at the cursor.
-/

namespace DocTokens.Markdown

/-- What a sequence of markdown nodes is converted to: the entries, the segments of the converted
nodes, where the cursor is left, and the diagnostics in order. -/
structure Conversion where
  entries : Forest Shape
  segments : List Segment
  cursor : Nat
  diagnostics : List Diagnostic

/-- A converted node without its label. -/
structure Piece where
  type : NodeType
  segment : Segment
  below : Forest Shape := .nil

/-- The outcome for one markdown node. Nodes without a place in the source leave no piece. -/
structure Outcome where
  piece : Option Piece
  cursor : Nat
  diagnostics : List Diagnostic := []

/-- The cursor moves forward only, and never past the end of the source. -/
def advance (src : Source) (cursor pos : Nat) : Nat :=
  if cursor < pos && pos ≤ src.size then pos else cursor

namespace Conversion

def empty (cursor : Nat) : Conversion := ⟨.nil, [], cursor, []⟩

/-- Puts the outcome of a node in front of what comes after it. -/
def cons (o : Outcome) (rest : Conversion) : Conversion :=
  match o.piece with
  | none => { rest with diagnostics := o.diagnostics ++ rest.diagnostics }
  | some p =>
    { entries := .node ⟨.children, []⟩ ⟨p.type, p.segment.toSpan⟩ p.below rest.entries
      segments := p.segment :: rest.segments
      cursor := rest.cursor
      diagnostics := o.diagnostics ++ rest.diagnostics }

end Conversion

/-- A node with nothing of its markdown below it. -/
def leafAt (src : Source) (cursor : Nat) (type : NodeType) (s : Segment)
    (below : Forest Shape) : Outcome :=
  ⟨some ⟨type, s, below⟩, advance src cursor s.stop, []⟩

/-- A node with its converted children below it. -/
def containerAt (src : Source) (type : NodeType) (s : Segment) (inner : Conversion) : Outcome :=
  ⟨some ⟨type, s, inner.entries⟩, advance src inner.cursor s.stop, inner.diagnostics⟩

/-- A container at its extent or, failing that, at the cursor. -/
def container (src : Source) (type : NodeType) (extent : Option Segment) (cursor : Nat)
    (inner : Conversion) : Outcome :=
  containerAt src type (extent.getD (.point cursor)) inner

/-- A paragraph ends before its last line break. -/
def paragraph (src : Source) (extent : Option Segment) (cursor : Nat) (inner : Conversion) :
    Outcome :=
  let s := extent.getD (.point cursor)
  containerAt src .paragraph ⟨s.start, src.trimNewline s.start s.stop⟩ inner

/-- Whether the line starting at an offset begins like a heading with number signs. -/
def isAtxLine (src : Source) (lineStart : Nat) : Bool :=
  src.at? (src.forward isSpaceByte 3 lineStart) (· == ascii '#')

/-- A heading covers its source lines and, when it is underlined, the line after them. -/
def heading (src : Source) (lines : List Segment) (extent : Option Segment) (cursor : Nat)
    (inner : Conversion) : Outcome :=
  match firstToLast? lines with
  | none => container src .heading extent cursor inner
  | some s =>
    let start := src.lineStart s.start
    let stop := src.lineEnd (src.trimNewline start s.stop)
    let stop := if !isAtxLine src start && stop < src.size then src.lineEnd (stop + 1) else stop
    containerAt src .heading ⟨start, stop⟩ inner

/-- A block quote covers whole lines. -/
def blockquote (src : Source) (extent : Option Segment) (cursor : Nat) (inner : Conversion) :
    Outcome :=
  match extent with
  | none => container src .blockquote none cursor inner
  | some s =>
    let start := src.lineStart s.start
    containerAt src .blockquote ⟨start, src.lineEnd (src.trimNewline start s.stop)⟩ inner

def isFenceByte (b : UInt8) : Bool := isBackquote b || isTilde b

/-- Extends the end of a code block over a closing fence on the next line. -/
def closingFence (src : Source) (stop : Nat) : Nat :=
  let next := src.lineEnd stop + 1
  let p := src.forward isSpaceByte 3 next
  if next ≤ src.size && src.at? p isFenceByte then src.trimReturn next (src.lineEnd p) else stop

/-- The language of a fenced code block is its info text up to the first space. -/
def fenceLanguage (src : Source) (info : Segment) : Bytes :=
  (src.slice info.start info.stop).takeWhile (· != ascii ' ')

/-- Fenced blocks in two languages are not code. -/
def fenceType (language : Bytes) : NodeType :=
  let lower := language.map Bytes.lowerByte
  if lower == utf8 "math" then .formula else if lower == utf8 "latex" then .latex else .code

/-- Where a fenced block starts, if that can be told. -/
def fenceStart? (src : Source) (info : Option Segment) (lines : List Segment) : Option Nat :=
  match info, lines.head? with
  | some i, _ => some (src.lineStart i.start)
  | none, some line => if 0 < line.start then some (src.lineStart (line.start - 1)) else none
  | none, none => none

def fencedCode (src : Source) (info : Option Segment) (lines : List Segment)
    (extent : Option Segment) (cursor : Nat) (inner : Conversion) : Outcome :=
  match fenceStart? src info lines with
  | none => container src .code extent cursor inner
  | some start =>
    let body := firstToLast? lines
    let stop := match body with
      | some b => src.trimNewline start b.stop
      | none => src.lineEnd start
    let stop := closingFence src stop
    let language := match info with
      | some i => fenceLanguage src i
      | none => []
    let type := fenceType language
    let code : Forest Shape := match body with
      | some b =>
        .leaf (if type = .code then .code else .text) .text
          (Segment.toSpan ⟨b.start, src.trimNewline b.start b.stop⟩) .nil
      | none => .nil
    let below : Forest Shape := match info with
      | some i =>
        if type = .code && !language.isEmpty then
          .leaf .lang .text (Segment.toSpan ⟨i.start, i.start + language.length⟩) code
        else code
      | none => code
    leafAt src cursor type ⟨start, stop⟩ below

def indentedCode (src : Source) (lines : List Segment) (extent : Option Segment) (cursor : Nat)
    (inner : Conversion) : Outcome :=
  match firstToLast? lines with
  | none => container src .code extent cursor inner
  | some s =>
    let stop := src.trimNewline s.start s.stop
    leafAt src cursor .code ⟨src.lineStart s.start, stop⟩
      (.leaf .code .text (Segment.toSpan ⟨s.start, stop⟩) .nil)

def isBreakMark (b : UInt8) : Bool := b == ascii '-' || b == ascii '*' || b == ascii '_'

/-- Whether a line is a thematic break: at most three spaces, then three or more copies of one mark
with spaces and tabs after them. Carriage returns at its end do not count. -/
def isThematicBreak (line : Bytes) : Bool :=
  let line := (line.reverse.dropWhile (· == ascii '\r')).reverse
  let rest := line.drop (min 3 (Bytes.spanLength isSpaceByte line))
  match rest with
  | [] => false
  | mark :: _ =>
    isBreakMark mark && rest.all (fun b => b == mark || isSpaceOrTab b) && 3 ≤ rest.count mark

/-- The first thematic break line starting at a line start at or after `p`. Every step moves on by
one byte at least. -/
def breakLine? (src : Source) : (fuel : Nat) → Nat → Option Segment
  | 0, _ => none
  | fuel + 1, p =>
    if p ≤ src.size then
      let stop := src.lineEnd p
      if isThematicBreak (src.slice p stop) then some ⟨p, src.trimReturn p stop⟩
      else breakLine? src fuel (stop + 1)
    else none

/-- A thematic break has no position of its own: it is the next line that looks like one. -/
def thematicBreak (src : Source) (cursor : Nat) : Outcome :=
  let p :=
    if 0 < cursor && !src.at? (cursor - 1) (· == newline) then src.lineEnd cursor + 1 else cursor
  leafAt src cursor .hr ((breakLine? src (src.size + 1 - p) p).getD (.point cursor)) .nil

/-- HTML blocks of the second type are comments. -/
def htmlBlock (src : Source) (type : Nat) (closure : Option Segment) (lines : List Segment)
    (cursor : Nat) : Outcome :=
  let nodeType := if type = 2 then NodeType.comment else .unknown
  let place := match firstToLast? lines, closure with
    | none, none => none
    | some s, none => some s
    | none, some c => some ⟨c.start, c.stop⟩
    | some s, some c => some ⟨s.start, max s.stop c.stop⟩
  match place with
  | none => leafAt src cursor nodeType (.point cursor) .nil
  | some s => leafAt src cursor nodeType ⟨s.start, src.trimNewline s.start s.stop⟩ .nil

def rawHtml (src : Source) (segments : List Segment) (cursor : Nat) : Outcome :=
  match firstToLast? segments with
  | none => ⟨none, cursor, []⟩
  | some s =>
    let type := if src.startsWith s.start (utf8 "<!--") then NodeType.comment else .unknown
    leafAt src cursor type s .nil

/-- A list spans from its first item to its last. It does not move the cursor itself. -/
def list (cursor : Nat) (inner : Conversion) : Outcome :=
  let s := (firstToLast? inner.segments).getD (.point cursor)
  ⟨some ⟨.list, s, inner.entries⟩, inner.cursor, inner.diagnostics⟩

/-- The bullet or number on the line that starts at an offset. -/
def listMarker? (src : Source) (marker : UInt8) (lineStart : Nat) : Option Segment :=
  let p := src.forward isSpaceOrTab 16 lineStart
  let q := if isOrderedMarker marker then src.forward Bytes.isDigit (src.size - p) p else p
  if src.at? q (· == marker) then some ⟨p, q + 1⟩ else none

/-- A list item starts at its bullet, when the bullet stands on the line of its first content. -/
def listItem (src : Source) (marker : Option UInt8) (extent : Option Segment) (cursor : Nat)
    (inner : Conversion) : Outcome :=
  let bullet? : Option Segment := match extent, marker with
    | some s, some m => (listMarker? src m (src.lineStart s.start)).filter fun b => b.stop ≤ s.start
    | _, _ => none
  match extent, bullet? with
  | some s, some bullet =>
    let inner := { inner with entries := .leaf .bullet .text bullet.toSpan inner.entries }
    containerAt src .listItem ⟨bullet.start, src.trimNewline bullet.start s.stop⟩ inner
  | _, _ => container src .listItem extent cursor inner

def emptyDestination : Bytes := utf8 "link has an empty destination"

/-- A link holds its target after its text: as a node where the destination is written in place, as
a literal otherwise. An empty destination is worth a warning. -/
def link (src : Source) (type : NodeType) (destination : Bytes) (content : Option Segment)
    (cursor : Nat) (inner : Conversion) : Outcome :=
  let parts := (content.map (linkParts src destination (type == .image))).getD
    ⟨.point cursor, none⟩
  let target : Forest Shape :=
    if destination.isEmpty then .nil
    else match parts.href with
      | some h => .leaf .href .text h.toSpan .nil
      | none => .value ⟨.href, []⟩ (.literal destination) .nil
  let warnings : List Diagnostic :=
    if destination.isEmpty then [⟨emptyDestination, parts.extent.toSpan, .warning⟩] else []
  containerAt src type parts.extent
    { inner with
      entries := inner.entries ++ target
      diagnostics := inner.diagnostics ++ warnings }

/-- An automatic link is found by searching for its label from the cursor on. -/
def autoLink (src : Source) (label : Segment) (protocol : Option Bytes) (cursor : Nat) : Outcome :=
  let text := src.slice label.start label.stop
  let found? := if text.isEmpty then none else Bytes.find? text (src.suffix cursor)
  match found? with
  | none =>
    let url := match protocol with
      | some p => p ++ utf8 "://" ++ text
      | none => text
    leafAt src cursor .link (.point cursor) (.value ⟨.href, []⟩ (.literal url) .nil)
  | some n =>
    let href : Segment := ⟨cursor + n, cursor + n + text.length⟩
    let s : Segment :=
      if 0 < href.start && src.at? (href.start - 1) (· == ascii '<')
          && src.at? href.stop (· == ascii '>') then ⟨href.start - 1, href.stop + 1⟩
      else href
    leafAt src cursor .link s (.leaf .href .text href.toSpan .nil)

/-- The nodes for the entries of a key mapping. -/
def keyEntries (src : Source) : List KeyEntry → Forest Shape
  | [] => .nil
  | entry :: rest =>
    let more := keyEntries src rest
    .node ⟨.keys, src.slice entry.key.start entry.key.stop⟩ ⟨.text, entry.key.toSpan⟩ .nil
      (if entry.value.isEmpty then more
        else .leaf .children .text entry.value.toSpan more)

def directive (src : Source) (d : Directive) (cursor : Nat) : Outcome :=
  let keys := keyEntries src d.keys
  let labelled := match d.label with
    | some l => .leaf .label .text l.toSpan keys
    | none => keys
  let errors : List Diagnostic := match d.unclosed.filter fun u => !u.isEmpty with
    | some u =>
      [⟨utf8 "macro " ++ src.slice d.name.start d.name.stop ++ utf8 " has an unclosed "
        ++ src.slice u.start u.stop, u.toSpan, .error⟩]
    | none => []
  { leafAt src cursor .opCode d.segment (.leaf .opcode .text d.name.toSpan labelled) with
    diagnostics := errors }

/-- A leaf with a text node inside its delimiters, which are `width` bytes wide on each side. -/
def delimited (src : Source) (type : NodeType) (s : Segment) (width : Nat) (cursor : Nat) :
    Outcome :=
  leafAt src cursor type s (.leaf .children .text ⟨s.start + width, s.stop - width⟩ .nil)

/-- Converts one node, given the conversion of its children. `marker` is the marker of the list that
holds the node. -/
def convertKind (src : Source) (marker : Option UInt8) (n : Node) (cursor : Nat)
    (inner : Conversion) : Outcome :=
  let extent := n.extent src
  match n.kind with
  | .text s => leafAt src cursor .text s .nil
  | .string => ⟨none, cursor, []⟩
  | .paragraph | .textBlock => paragraph src extent cursor inner
  | .heading _ => heading src n.lines extent cursor inner
  | .blockquote => blockquote src extent cursor inner
  | .emphasis level => container src (if 1 < level then .strong else .em) extent cursor inner
  | .strikethrough => container src .del extent cursor inner
  | .codeSpan => container src .codeSpan extent cursor inner
  | .fencedCode info => fencedCode src info n.lines extent cursor inner
  | .codeBlock => indentedCode src n.lines extent cursor inner
  | .thematicBreak => thematicBreak src cursor
  | .htmlBlock type closure => htmlBlock src type closure n.lines cursor
  | .rawHtml segments => rawHtml src segments cursor
  | .list _ => list cursor inner
  | .listItem => listItem src marker extent cursor inner
  | .link destination => link src .link destination (n.content src) cursor inner
  | .image destination => link src .image destination (n.content src) cursor inner
  | .autoLink label protocol => autoLink src label protocol cursor
  | .tableHeader | .tableRow => container src .tableRow extent cursor inner
  | .tableCell => container src .tableCell extent cursor inner
  | .directive d => directive src d cursor
  | .formula s => delimited src .formulaSpan s 1 cursor
  | .underline s => delimited src .underline s 2 cursor
  | .spacing s thin =>
    leafAt src cursor (if thin then .thinNonBreakingSpace else .nonBreakingSpace) s .nil
  | .latex s => leafAt src cursor .latexSpan s .nil
  | .document | .table | .otherBlock | .otherInline => container src .unknown extent cursor inner

/-- The line of delimiters after the header row of a table. -/
def controlRow (src : Source) (o : Outcome) : Outcome :=
  match o.piece with
  | none => ⟨none, o.cursor, []⟩
  | some row =>
    let next := src.lineEnd row.segment.stop + 1
    if next ≤ src.size then
      leafAt src o.cursor .tableControlCell ⟨next, src.trimReturn next (src.lineEnd next)⟩ .nil
    else ⟨none, o.cursor, []⟩

/-- A table covers the whole lines of its rows. -/
def table (src : Source) (cursor : Nat) (rows : Conversion) : Outcome :=
  match firstToLast? rows.segments with
  | none => ⟨some ⟨.table, .point cursor, rows.entries⟩, rows.cursor, rows.diagnostics⟩
  | some s =>
    let start := src.lineStart s.start
    containerAt src .table ⟨start, src.trimReturn start (src.lineEnd s.stop)⟩ rows

mutual

/-- Converts a node at a cursor. -/
def convertNode (src : Source) (marker : Option UInt8) : Node → Nat → Outcome
  | .mk .table _ children, cursor => table src cursor (convertRows src children cursor)
  | .mk kind lines children, cursor =>
    convertKind src marker (.mk kind lines children) cursor
      (convertAll src kind.marker? children cursor)

/-- Converts nodes one after another. -/
def convertAll (src : Source) (marker : Option UInt8) : List Node → Nat → Conversion
  | [], cursor => .empty cursor
  | n :: rest, cursor =>
    let o := convertNode src marker n cursor
    .cons o (convertAll src marker rest o.cursor)

/-- Converts the rows of a table; a header row is followed by its line of delimiters. -/
def convertRows (src : Source) : List Node → Nat → Conversion
  | [], cursor => .empty cursor
  | n :: rest, cursor =>
    let o := convertNode src none n cursor
    if n.kind = .tableHeader then
      let control := controlRow src o
      .cons o (.cons control (convertRows src rest control.cursor))
    else .cons o (convertRows src rest o.cursor)

end

/-- The tree of a markdown document over its source, and the diagnostics found on the way. -/
def convert (src : Source) (document : Node) : Tree × List Diagnostic :=
  let all := convertAll src none document.children 0
  (all.entries.toTree ⟨.file, ⟨0, src.size⟩⟩, all.diagnostics)

end DocTokens.Markdown
