import DocTokens.Markdown.Convert
import DocTokens.Proofs.History

/-! # Conversion by calls on a builder

The conversion once more, as calls on one builder: a node is added and attached before the calls for
its children, its other parts before, between and after them. The spans of lists and tables are set
when their children are there.
-/

namespace DocTokens.Markdown

/-- A tree under construction, the cursor and the diagnostics so far. -/
structure Building where
  builder : Builder
  cursor : Nat
  diagnostics : List Diagnostic

namespace Building

/-- The number of the next node. -/
def next (c : Building) : NodeId := c.builder.nextId

/-- The empty segment at the cursor. -/
def here (c : Building) : Segment := .point c.cursor

/-- Makes a call on the builder. -/
def call (c : Building) (op : Builder.Call) : Building := { c with builder := c.builder.apply op }

def advance (src : Source) (pos : Nat) (c : Building) : Building :=
  { c with cursor := Markdown.advance src c.cursor pos }

def report (c : Building) (ds : List Diagnostic) : Building :=
  { c with diagnostics := c.diagnostics ++ ds }

/-- Adds a node as a child. -/
def addChild (c : Building) (parent : NodeId) (type : NodeType) (s : Segment) : Building :=
  c.call (.addChild parent type s.toSpan)

/-- Adds a text node in a slot. -/
def addText (c : Building) (parent : NodeId) (slot : Slot) (span : Span) : Building :=
  c.call (.addSlot parent slot .text span)

/-- What puts the children of a node below it. It answers the numbers of those that have a place. -/
abbrev Below := NodeId → Building → List NodeId × Building

/-! ## One kind after another -/

section Kinds

variable (src : Source) (below : Below) (parent : NodeId) (c : Building)

def leaf (type : NodeType) (s : Segment) : NodeId × Building :=
  (c.next, (c.addChild parent type s).advance src s.stop)

def containerAt (type : NodeType) (s : Segment) : NodeId × Building :=
  let id := c.next
  let c := c.addChild parent type s
  let c := (below id c).2
  (id, c.advance src s.stop)

def container (type : NodeType) (extent : Option Segment) : NodeId × Building :=
  containerAt src below parent c type (extent.getD c.here)

def paragraph (extent : Option Segment) : NodeId × Building :=
  let s := extent.getD c.here
  containerAt src below parent c .paragraph ⟨s.start, src.trimNewline s.start s.stop⟩

def heading (lines : List Segment) (extent : Option Segment) : NodeId × Building :=
  match firstToLast? lines with
  | none => container src below parent c .heading extent
  | some s =>
    let start := src.lineStart s.start
    let stop := src.lineEnd (src.trimNewline start s.stop)
    let stop := if !isAtxLine src start && stop < src.size then src.lineEnd (stop + 1) else stop
    containerAt src below parent c .heading ⟨start, stop⟩

def blockquote (extent : Option Segment) : NodeId × Building :=
  match extent with
  | none => containerAt src below parent c .blockquote c.here
  | some s =>
    let start := src.lineStart s.start
    let stop := src.lineEnd (src.trimNewline start s.stop)
    containerAt src below parent c .blockquote ⟨start, stop⟩

def fencedCode (info : Option Segment) (lines : List Segment) (extent : Option Segment) :
    NodeId × Building :=
  match fenceStart? src info lines with
  | none => container src below parent c .code extent
  | some start =>
    let body := firstToLast? lines
    let stop := match body with
      | some b => src.trimNewline start b.stop
      | none => src.lineEnd start
    let stop := closingFence src stop
    let language := match info with
      | some i => fenceLanguage src i
      | none => []
    let type := fenceType language
    let id := c.next
    let c := c.addChild parent type ⟨start, stop⟩
    let c : Building := match info with
      | some i =>
        if type = .code && !language.isEmpty then
          c.addText id .lang (Segment.toSpan ⟨i.start, i.start + language.length⟩)
        else c
      | none => c
    let c : Building := match body with
      | some b =>
        c.addText id (if type = .code then .code else .text)
          (Segment.toSpan ⟨b.start, src.trimNewline b.start b.stop⟩)
      | none => c
    (id, c.advance src stop)

def indentedCode (lines : List Segment) (extent : Option Segment) : NodeId × Building :=
  match firstToLast? lines with
  | none => container src below parent c .code extent
  | some s =>
    let stop := src.trimNewline s.start s.stop
    let id := c.next
    let c := c.addChild parent .code ⟨src.lineStart s.start, stop⟩
    let c := c.addText id .code (Segment.toSpan ⟨s.start, stop⟩)
    (id, c.advance src stop)

def thematicBreak : NodeId × Building :=
  let p := if 0 < c.cursor && !src.at? (c.cursor - 1) (· == newline) then src.lineEnd c.cursor + 1
    else c.cursor
  match breakLine? src (src.size + 1 - p) p with
  | some s => leaf src parent c .hr s
  | none => leaf src parent c .hr c.here

def htmlBlock (type : Nat) (closure : Option Segment) (lines : List Segment) :
    NodeId × Building :=
  let nodeType := if type = 2 then NodeType.comment else .unknown
  match firstToLast? lines, closure with
  | none, none => leaf src parent c nodeType c.here
  | some s, none => leaf src parent c nodeType ⟨s.start, src.trimNewline s.start s.stop⟩
  | none, some e => leaf src parent c nodeType ⟨e.start, src.trimNewline e.start e.stop⟩
  | some s, some e =>
    leaf src parent c nodeType ⟨s.start, src.trimNewline s.start (max s.stop e.stop)⟩

def rawHtml (segments : List Segment) : NodeId × Building :=
  match firstToLast? segments with
  | none => (NodeId.none, c)
  | some s =>
    let type := if src.startsWith s.start (utf8 "<!--") then NodeType.comment else .unknown
    leaf src parent c type s

/-- From the start of the first of some nodes to the end of the last. -/
def around? (ids : List NodeId) : Option Span :=
  match ids.head?, ids.getLast? with
  | some first, some last => some ⟨(c.builder.span first).start, (c.builder.span last).stop⟩
  | _, _ => none

def list : NodeId × Building :=
  let id := c.next
  let c := c.addChild parent .list c.here
  let (items, c) := below id c
  match c.around? items with
  | some span => (id, c.call (.setSpan id span))
  | none => (id, c)

def listItem (marker : Option UInt8) (extent : Option Segment) : NodeId × Building :=
  match extent with
  | none => container src below parent c .listItem none
  | some s =>
    match marker.bind fun m => listMarker? src m (src.lineStart s.start) with
    | none => container src below parent c .listItem (some s)
    | some bullet =>
      if s.start < bullet.stop then container src below parent c .listItem (some s)
      else
        let stop := src.trimNewline bullet.start s.stop
        let id := c.next
        let c := c.addChild parent .listItem ⟨bullet.start, stop⟩
        let c := c.addText id .bullet bullet.toSpan
        let c := (below id c).2
        (id, c.advance src stop)

def link (type : NodeType) (destination : Bytes) (content : Option Segment) :
    NodeId × Building :=
  let parts := (content.map (linkParts src destination (type == .image))).getD ⟨c.here, none⟩
  let id := c.next
  let c := c.addChild parent type parts.extent
  let c := (below id c).2
  let c :=
    if destination.isEmpty then c.report [⟨emptyDestination, parts.extent.toSpan, .warning⟩]
    else match parts.href with
      | some h => c.addText id .href h.toSpan
      | none => c.call (.setLiteral id .href destination)
  (id, c.advance src parts.extent.stop)

def autoLink (label : Segment) (protocol : Option Bytes) : NodeId × Building :=
  let text := src.slice label.start label.stop
  let found? := if text.isEmpty then none else Bytes.find? text (src.suffix c.cursor)
  match found? with
  | none =>
    let url := match protocol with
      | some p => p ++ utf8 "://" ++ text
      | none => text
    let (id, c) := leaf src parent c .link c.here
    (id, c.call (.setLiteral id .href url))
  | some n =>
    let href : Segment := ⟨c.cursor + n, c.cursor + n + text.length⟩
    let s : Segment :=
      if 0 < href.start && src.at? (href.start - 1) (· == ascii '<')
          && src.at? href.stop (· == ascii '>') then ⟨href.start - 1, href.stop + 1⟩
      else href
    let id := c.next
    let c := c.addChild parent .link s
    let c := c.addText id .href href.toSpan
    (id, c.advance src s.stop)

/-- Nodes for keys are added first and attached under their keys afterwards. -/
def addKeys (id : NodeId) : List KeyEntry → Building → Building
  | [], c => c
  | entry :: rest, c =>
    let key := c.next
    let c := c.call (.add id .text entry.key.toSpan)
    let c := c.call (.attachKey id (src.slice entry.key.start entry.key.stop) key)
    let c := if entry.value.isEmpty then c else c.addText id .children entry.value.toSpan
    addKeys id rest c

def directive (d : Directive) : NodeId × Building :=
  let id := c.next
  let c := c.addChild parent .opCode d.segment
  let c := c.addText id .opcode d.name.toSpan
  let c := match d.label with
    | some l => c.addText id .label l.toSpan
    | none => c
  let c := addKeys src id d.keys c
  let c := match d.unclosed.filter fun u => !u.isEmpty with
    | some u =>
      c.report [⟨utf8 "macro " ++ src.slice d.name.start d.name.stop ++ utf8 " has an unclosed "
        ++ src.slice u.start u.stop, u.toSpan, .error⟩]
    | none => c
  (id, c.advance src d.segment.stop)

def delimited (type : NodeType) (s : Segment) (width : Nat) : NodeId × Building :=
  let (id, c) := leaf src parent c type s
  (id, c.addText id .children ⟨s.start + width, s.stop - width⟩)

def table : NodeId × Building :=
  let id := c.next
  let c := c.addChild parent .table c.here
  let (rows, c) := below id c
  match c.around? rows with
  | some span =>
    let start := src.lineStart span.start.toNat
    let stop := src.trimReturn start (src.lineEnd span.stop.toNat)
    (id, (c.call (.setSpan id (Segment.toSpan ⟨start, stop⟩))).advance src stop)
  | none => (id, c)

end Kinds

/-- Adds a node that is not a table, given what puts its children below it. -/
def kind (src : Source) (marker : Option UInt8) (n : Node) (below : Below) (parent : NodeId)
    (c : Building) : NodeId × Building :=
  let extent := n.extent src
  match n.kind with
  | .text s => leaf src parent c .text s
  | .string => (NodeId.none, c)
  | .paragraph | .textBlock => paragraph src below parent c extent
  | .heading _ => heading src below parent c n.lines extent
  | .blockquote => blockquote src below parent c extent
  | .emphasis level => container src below parent c (if 1 < level then .strong else .em) extent
  | .strikethrough => container src below parent c .del extent
  | .codeSpan => container src below parent c .codeSpan extent
  | .fencedCode info => fencedCode src below parent c info n.lines extent
  | .codeBlock => indentedCode src below parent c n.lines extent
  | .thematicBreak => thematicBreak src parent c
  | .htmlBlock type closure => htmlBlock src parent c type closure n.lines
  | .rawHtml segments => rawHtml src parent c segments
  | .list _ => list below parent c
  | .listItem => listItem src below parent c marker extent
  | .link destination => link src below parent c .link destination (n.content src)
  | .image destination => link src below parent c .image destination (n.content src)
  | .autoLink label protocol => autoLink src parent c label protocol
  | .tableHeader | .tableRow => container src below parent c .tableRow extent
  | .tableCell => container src below parent c .tableCell extent
  | .directive d => directive src parent c d
  | .formula s => delimited src parent c .formulaSpan s 1
  | .underline s => delimited src parent c .underline s 2
  | .spacing s thin =>
    leaf src parent c (if thin then .thinNonBreakingSpace else .nonBreakingSpace) s
  | .latex s => leaf src parent c .latexSpan s
  | .document | .table | .otherBlock | .otherInline => container src below parent c .unknown extent

/-! ## All nodes -/

mutual

/-- Adds a node and what is below it. A node without a place has no number. -/
def node (src : Source) (marker : Option UInt8) : Node → NodeId → Building → NodeId × Building
  | .mk .table _ children, parent, c => table src (rows src children) parent c
  | .mk k lines children, parent, c =>
    kind src marker (.mk k lines children) (all src k.marker? children) parent c

/-- Adds nodes one after another. -/
def all (src : Source) (marker : Option UInt8) :
    List Node → NodeId → Building → List NodeId × Building
  | [], _, c => ([], c)
  | n :: rest, parent, c =>
    let (id, c) := node src marker n parent c
    let (ids, c) := all src marker rest parent c
    (if id = NodeId.none then ids else id :: ids, c)

/-- Adds the rows of a table, and a cell for the line after a header row. -/
def rows (src : Source) : List Node → NodeId → Building → List NodeId × Building
  | [], _, c => ([], c)
  | n :: rest, parent, c =>
    let (row, c) := node src none n parent c
    if row = NodeId.none then rows src rest parent c
    else
      let next := src.lineEnd (c.builder.span row).stop.toNat + 1
      if n.kind = .tableHeader ∧ next ≤ src.size then
        let (cell, c) := leaf src parent c .tableControlCell
          ⟨next, src.trimReturn next (src.lineEnd next)⟩
        let (ids, c) := rows src rest parent c
        (row :: cell :: ids, c)
      else
        let (ids, c) := rows src rest parent c
        (row :: ids, c)

end

/-- The tree that the calls for a document build, and the diagnostics found on the way. -/
def convert (src : Source) (document : Node) : Tree × List Diagnostic :=
  let c : Building := ⟨.empty, 0, []⟩
  let root := c.next
  let c := c.call (.add NodeId.none .file ⟨0, src.size⟩)
  let c := (all src none document.children root c).2
  (c.builder.build.1, c.diagnostics)

end Building

end DocTokens.Markdown
