import DocTokens.Markdown.Cursor
import DocTokens.Markdown.Html
import DocTokens.Markdown.Table

/-! # Block structure

Markdown is read line by line. `Blocks` holds the blocks that are still open: containers, outermost
last to close, and at most one leaf inside the innermost. A line first continues open containers,
then opens new blocks or goes to the open leaf. What it does not continue is closed.
-/

namespace DocTokens.Markdown

/-! ## Markers -/

/-- A bullet or number at the front of a line. -/
structure ListMarker where
  /-- Spaces before the marker. -/
  indent : Nat
  /-- The length of the line up to the end of the marker. -/
  length : Nat
  /-- The bullet, or the byte after the number. -/
  mark : UInt8
  /-- The number of an ordered list. -/
  number : Option Nat
  deriving DecidableEq, Repr

namespace ListMarker

def isBullet (b : UInt8) : Bool := b == ascii '-' || b == ascii '*' || b == ascii '+'

def numberOf (digits : Bytes) : Nat := digits.foldl (fun n b => n * 10 + (b.toNat - 48)) 0

/-- A marker is followed by a blank or by the end of the line. -/
def endsMarker : Bytes → Bool
  | [] => true
  | b :: _ => b == newline || isSpaceOrTab b

/-- Reads a list marker after at most three spaces. Numbers have at most nine digits. -/
def read? (line : Bytes) : Option ListMarker :=
  let indent := Bytes.spanLength isSpaceByte line
  if 3 < indent then none
  else match line.drop indent with
    | [] => none
    | b :: rest =>
      if isBullet b then
        if endsMarker rest then some ⟨indent, indent + 1, b, none⟩ else none
      else
        let digits := (b :: rest).takeWhile Bytes.isDigit
        match (b :: rest).drop digits.length with
        | [] => none
        | mark :: rest =>
          if digits.isEmpty || 9 < digits.length || !isOrderedMarker mark || !endsMarker rest
          then none
          else some ⟨indent, indent + digits.length + 1, mark, some (numberOf digits)⟩

/-- Whether nothing follows the marker. -/
def isBare (m : ListMarker) (line : Bytes) : Bool := Bytes.isBlank (line.drop m.length)

/-- The columns between the marker and the content of the item: those of the blanks, but one if
there is no content or if the content is indented code. -/
def contentOffset (m : ListMarker) (line : Bytes) : Nat :=
  if m.isBare line then 1
  else
    let width := (indentWidth m.length (line.drop m.length)).1
    if 4 < width then 1 else width

end ListMarker

/-- Whether a line at the given column is a thematic break. -/
def isBreakAt (column : Nat) (line : Bytes) : Bool :=
  let (width, length) := indentWidth column line
  let marks := (line.drop length).filter (!Bytes.isSpace ·)
  match marks with
  | [] => false
  | mark :: _ =>
    width ≤ 3 && (mark == ascii '-' || mark == ascii '*' || mark == ascii '_')
      && marks.all (· == mark) && 3 ≤ marks.length

/-- The level of the heading that a line underlines. -/
def underlineLevel? (line : Bytes) : Option Nat :=
  let spaces := Bytes.spanLength isSpaceByte line
  let marks := Bytes.trimRight (line.drop spaces)
  if 3 < spaces || marks.isEmpty then none
  else if marks.all (· == ascii '=') then some 1
  else if marks.all (· == ascii '-') then some 2
  else none

/-! ## Open blocks -/

/-- A container that is still open, with its closed children, last one first. -/
inductive Frame where
  | quote (children : List Node)
  /-- A list and the offset of the content of its last item. -/
  | list (marker : UInt8) (offset : Nat) (children : List Node)
  | item (offset : Nat) (children : List Node)

/-- A leaf that is still open, with its lines, last one first. -/
inductive Leaf where
  | paragraph (lines : List ParagraphLine)
  | code (lines : List Segment)
  | fence (mark : UInt8) (indent length : Nat) (info : Option Segment) (lines : List Segment)
  | html (type : Nat) (lines : List Segment)

/-- The open blocks of a document. -/
structure Blocks where
  /-- The closed blocks of the document, last one first. -/
  closed : List Node := []
  /-- The open containers, innermost first. -/
  frames : List Frame := []
  leaf : Option Leaf := none
  /-- Set when a blank line followed the marker of an item that is still empty. -/
  emptyItem : Bool := false
  /-- Set when an item has ended because the next one starts. -/
  nextItem : Bool := false
  /-- Set when the next line belongs to the open containers whatever it starts with. -/
  joined : Bool := false
  references : References := []

namespace Frame

def addChild (n : Node) : Frame → Frame
  | quote children => quote (n :: children)
  | list marker offset children => list marker offset (n :: children)
  | item offset children => item offset (n :: children)

def toNode : Frame → Node
  | quote children => .mk .blockquote [] children.reverse
  | list marker _ children => .mk (.list marker) [] children.reverse
  | item _ children => .mk .listItem [] children.reverse

end Frame

/-- The blocks of a paragraph once it ends, given its lines in order: definitions vanish, and a
table stands by itself. A paragraph of nothing but definitions leaves an empty text block. -/
structure ParagraphParts where
  references : References
  lines : List Segment
  after : List Node

def paragraphParts (src : Source) (lines : List ParagraphLine) : ParagraphParts :=
  let (references, rest) := takeDefinitions src lines
  if rest.isEmpty then ⟨references, [], [.mk .textBlock [] []]⟩
  else match Table.find? src rest with
    | none => ⟨references, rest.map ParagraphLine.text, []⟩
    | some found => ⟨references, found.before, [found.table]⟩

/-- The lines of a paragraph without the blanks at the end of the last one. -/
def trimLastLine (src : Source) (lines : List Segment) : List Segment :=
  match lines.reverse with
  | [] => []
  | last :: earlier => (src.trimEnd last :: earlier).reverse

namespace Blocks

def addNode (b : Blocks) (n : Node) : Blocks :=
  match b.frames with
  | [] => { b with closed := n :: b.closed }
  | f :: rest => { b with frames := f.addChild n :: rest }

def addNodes (b : Blocks) (ns : List Node) : Blocks := ns.foldl addNode b

/-- Closes the open leaf. -/
def closeLeaf (src : Source) (b : Blocks) : Blocks :=
  let b' := { b with leaf := none }
  match b.leaf with
  | none => b
  | some (.paragraph lines) =>
    let parts := paragraphParts src lines.reverse
    let b' := { b' with references := b.references ++ parts.references }
    let own := if parts.lines.isEmpty then []
      else [Node.mk .paragraph (trimLastLine src parts.lines) []]
    b'.addNodes (own ++ parts.after)
  | some (.code lines) =>
    let lines := lines.dropWhile fun s => Bytes.isBlank (src.slice s.start s.stop)
    b'.addNode (.mk .codeBlock lines.reverse [])
  | some (.fence _ _ _ info lines) => b'.addNode (.mk (.fencedCode info) lines.reverse [])
  | some (.html type lines) => b'.addNode (.mk (.htmlBlock type none) lines.reverse [])

/-- Closes the innermost container. -/
def closeFrame (b : Blocks) : Blocks :=
  match b.frames with
  | [] => b
  | f :: rest => { b with frames := rest }.addNode f.toNode

def closeFrames : Nat → Blocks → Blocks
  | 0, b => b
  | n + 1, b => closeFrames n b.closeFrame

/-- Closes the leaf and all containers but the outermost `depth`. -/
def closeTo (src : Source) (depth : Nat) (b : Blocks) : Blocks :=
  let b := b.closeLeaf src
  closeFrames (b.frames.length - depth) b

def pushFrame (b : Blocks) (f : Frame) : Blocks := { b with frames := f :: b.frames }

/-! ## Continuing containers -/

/-- Reads the mark of a block quote and one blank after it. -/
def readQuoteMark? (src : Source) (l : Line) : Option Line :=
  let bytes := l.bytes src
  let (width, pos) := l.indent src
  if width ≤ 3 && bytes[pos]? == some (ascii '>') then
    let l := l.advance (pos + 1)
    match bytes[pos + 1]? with
    | some b =>
      if b = ascii ' ' then some (l.advancePadded 1 0)
      else if b = ascii '\t' then some (l.advancePadded 1 (tabWidth (l.column src) - 1))
      else some l
    | none => some l
  else none

/-- The flags that continuing containers may set. -/
structure Flags where
  emptyItem : Bool
  nextItem : Bool

/-- Whether a list goes on, given whether its last item is empty so far. -/
def continuesList (src : Source) (marker : UInt8) (offset : Nat) (lastIsEmpty : Bool)
    (flags : Flags) (l : Line) : Bool :=
  let line := l.bytes src
  let indent := (l.indent src).1
  let marked := (ListMarker.read? line).filter fun m => m.indent < offset + 4
  if (indent < offset || lastIsEmpty) && indent < 4 && marked.isSome then
    match marked with
    | some m => m.mark == marker && !isBreakAt 0 (line.drop (m.length - 1))
    | none => false
  else if (indent < offset || lastIsEmpty) && !lastIsEmpty then false
  else if lastIsEmpty && indent < offset then false
  else !flags.emptyItem

/-- What a list item does with a line. -/
inductive ItemStep where
  | continues (l : Line)
  | ends
  /-- The line starts the next item. -/
  | endsForNext

def itemStep (src : Source) (offset : Nat) (isEmpty : Bool) (l : Line) : ItemStep :=
  if l.isBlank src then .continues (l.toLineEnd src)
  else
    let line := l.bytes src
    let indent := (l.indent src).1
    let early := (isEmpty || indent < offset) && indent < 4
    if early && (ListMarker.read? line).isSome then .endsForNext
    else if early && !isEmpty then .ends
    else match indentPosition? (l.column src) offset line with
      | some (n, padding) => .continues (l.advancePadded n padding)
      | none => .continues l

/-- Continues containers, outermost first, for as long as they accept the line. Answers how many
did, what is left of the line, and the flags. -/
def continueFrames (src : Source) (hasLeaf : Bool) :
    List Frame → Flags → Line → Nat × Line × Flags
  | [], flags, l => (0, l, flags)
  | f :: inner, flags, l =>
    if l.atEnd src then (0, l, flags)
    else match f with
      | .quote _ =>
        match readQuoteMark? src l with
        | none => (0, l, flags)
        | some l =>
          let (n, l, flags) := continueFrames src hasLeaf inner flags l
          (n + 1, l, flags)
      | .list marker offset children =>
        let lastIsEmpty := match inner, children with
          | .item _ below :: deeper, _ => below.isEmpty && deeper.isEmpty && !hasLeaf
          | _, n :: _ => n.children.isEmpty
          | _, [] => true
        let blank := l.isBlank src
        if blank || continuesList src marker offset lastIsEmpty flags l then
          let flags := if blank && lastIsEmpty then { flags with emptyItem := true } else flags
          let (n, l, flags) := continueFrames src hasLeaf inner flags l
          (n + 1, l, flags)
        else (0, l, flags)
      | .item offset children =>
        let childless := children.isEmpty && inner.isEmpty && !hasLeaf
        match itemStep src offset (childless && flags.emptyItem) l with
        | .continues l =>
          let (n, l, flags) := continueFrames src hasLeaf inner flags l
          (n + 1, l, flags)
        | .ends => (0, l, flags)
        | .endsForNext => (0, l, { flags with nextItem := true })

/-! ## Continuing leaves -/

/-- What an open leaf other than a paragraph does with a line. -/
inductive LeafStep where
  | continues (leaf : Leaf)
  /-- The leaf ends and has used up the line. -/
  | endsWith (leaf : Leaf) (closure : Option Segment)
  /-- The leaf has ended before the line. -/
  | endsBefore

/-- Where a line of code starts, given the tab whose rest is padding: the tab itself belongs to the
code if none of its columns are taken by the indentation. -/
def keepTab (src : Source) (l : Line) (column start padding : Nat) : Nat :=
  if 0 < padding && 0 < l.start
      && Line.columnAfter 0 (src.slice l.head (l.start - 1)) == column then start - 1
  else start

/-- The first byte of a line that is neither space nor tab, unless the line is blank. -/
def firstNonBlank (bytes : Bytes) : Nat :=
  let n := Bytes.spanLength isSpaceOrTab bytes
  match bytes[n]? with
  | some b => if b = newline then 0 else n
  | none => 0

/-- A line of a fenced code block, less the indentation of its fence. -/
def fenceLine (src : Source) (indent : Nat) (l : Line) : Segment :=
  let line := l.bytes src
  if indent = 0 then
    ⟨keepTab src l (l.column src + indent) l.start l.padding, l.stop⟩
  else match indentPosition? (l.column src) indent line with
    | some (n, padding) =>
      if n < l.padding then ⟨l.start + firstNonBlank line, l.stop⟩
      else ⟨keepTab src l (l.column src + indent) (l.start + (n - l.padding)) padding, l.stop⟩
    | none => ⟨l.start + firstNonBlank line, l.stop⟩

/-- Whether a line closes a fence of the given mark and length. -/
def closesFence (src : Source) (mark : UInt8) (length : Nat) (l : Line) : Bool :=
  let (width, pos) := l.indent src
  let rest := (l.bytes src).drop pos
  let marks := Bytes.spanLength (· == mark) rest
  width < 4 && length ≤ marks && Bytes.isBlank (rest.drop marks)

/-- Reads a line of indented code. -/
def codeLine? (src : Source) (l : Line) : Option Segment :=
  match indentPosition? (l.column src) 4 (l.bytes src) with
  | none => none
  | some (n, padding) =>
    let l := l.advancePadded n padding
    some ⟨keepTab src l (l.column src) l.start l.padding, l.stop⟩

def leafStep (src : Source) (l : Line) : Leaf → LeafStep
  | .paragraph lines => .continues (.paragraph lines)
  | .code lines =>
    if l.isBlank src then .continues (.code (l.segment :: lines))
    else match codeLine? src l with
      | some s => .continues (.code (s :: lines))
      | none => .endsBefore
  | .fence mark indent length info lines =>
    if closesFence src mark length l then .endsWith (.fence mark indent length info lines) none
    else .continues (.fence mark indent length info (fenceLine src indent l :: lines))
  | .html type lines =>
    let firstEnds := match lines with
      | [first] => Html.endsBlock type (src.slice first.start first.stop)
      | _ => false
    if firstEnds || (6 ≤ type && l.isBlank src) then .endsBefore
    else if Html.endsBlock type (l.bytes src) then .endsWith (.html type lines) (some l.segment)
    else .continues (.html type (l.segment :: lines))

/-! ## Opening blocks -/

/-- A heading with number signs: its level and its text, unless that is empty. -/
def readAtx? (l : Line) (line : Bytes) (pos : Nat) : Option (Nat × Option Segment) :=
  let marks := Bytes.spanLength (· == ascii '#') (line.drop pos)
  let after := pos + marks
  if marks = 0 || 6 < marks then none
  else if after = line.length then some (marks, none)
  else
    let blanks := Bytes.spanLength Bytes.isSpace (line.drop after)
    if blanks = 0 then none
    else
      let start := min (after + blanks) (line.length - 1)
      let stop := (Bytes.trimRight line).length
      if stop ≤ start then some (marks, none)
      else
        let text := (line.take stop).drop start
        let closing := Bytes.spanLength (· == ascii '#') text.reverse
        let rest := text.take (text.length - closing)
        let text :=
          if closing = 0 || (rest.getLast?.map Bytes.isSpace).getD true then rest else text
        let offset := l.start + start - l.padding
        if text.all (· == ascii '#') then some (marks, none)
        else some (marks, some ⟨offset, offset + text.length⟩)

/-- Reads the opening line of a fenced code block. The last byte of the line counts as its line
feed, so that a single byte after the fence is no information. -/
def readFence? (src : Source) (l : Line) (bytes : Bytes) (pos : Nat) : Option Leaf :=
  match bytes[pos]? with
  | none => none
  | some mark =>
    let length := Bytes.spanLength (· == mark) (bytes.drop pos)
    if !(isBackquote mark || isTilde mark) || length < 3 then none
    else
      let start := l.start + (pos + length) - l.padding
      let info := src.trim ⟨start, l.stop⟩
      let text := src.slice info.start info.stop
      if text.isEmpty || bytes.length ≤ pos + length + 1 then some (.fence mark pos length none [])
      else if isBackquote mark && text.contains mark then none
      else some (.fence mark pos length (some info) [])

/-- What the innermost open block is, as far as opening blocks depends on it. -/
inductive Innermost where
  /-- A paragraph, and whether the new block would be its sibling. -/
  | paragraph (sibling : Bool)
  | list
  | other
  deriving DecidableEq

def innermost (b : Blocks) (depth : Nat) : Innermost :=
  match b.leaf, b.frames with
  | some (.paragraph _), frames => .paragraph (frames.length == depth)
  | some _, _ => .other
  | none, .list .. :: _ => .list
  | none, _ => .other

/-- Replaces the marker flag after it has been looked at. -/
def clearNextItem (b : Blocks) : Blocks := { b with nextItem := false }

/-- Reads the marker of a list item and the blanks that belong to it. -/
def readItem? (offset : Nat) (l : Line) (line : Bytes) : Option (Nat × Option Line) :=
  match ListMarker.read? line with
  | none => none
  | some m =>
    if offset + 3 < m.indent then none
    else
      let own := m.contentOffset line
      if m.isBare line then some (m.length + own, none)
      else
        let (n, padding) := (indentPosition? m.length own (line.drop m.length)).getD (0, 0)
        some (m.length + own, some (l.advancePadded (m.length + n) padding))

/-- A block that a line opens. -/
inductive Opening where
  /-- A container; the rest of the line may open more. -/
  | frame (f : Frame) (l : Line)
  /-- A list, whose first item the same line opens. -/
  | list (marker : UInt8)
  /-- A list item with the offset of its content, and the rest of the line unless it is blank. -/
  | item (offset : Nat) (l : Option Line)
  | leaf (leaf : Leaf)
  | node (n : Node)
  /-- The line underlines the open paragraph. -/
  | underline (level : Nat)

/-- The list that a line can start. Where it would interrupt a paragraph, a number has to be one and
the item must not be empty. -/
def readList? (line : Bytes) (interrupts : Bool) : Option UInt8 :=
  match ListMarker.read? line with
  | none => none
  | some m =>
    let numbered := m.number.isSome && m.number != some 1
    if interrupts && (numbered || m.isBare line) then none else some m.mark

/-- The block that a line opens, if any. `parentOffset` is the offset of the last item when the
parent is a list; `lazy` restricts the choice to blocks that can interrupt a paragraph. -/
def opening? (src : Source) (b : Blocks) (l : Line) (inner : Innermost) (parentOffset : Option Nat)
    (isLazy : Bool) : Option Opening × Blocks :=
  let bytes := l.bytes src
  let (width, pos) := l.indent src
  let interrupts := inner == .paragraph true
  let offset? := if bytes.length ≤ width then none else some pos
  let indented := 3 < width
  let bar := if indented || !interrupts then none else underlineLevel? bytes
  match bar with
  | some level => (some (.underline level), b)
  | none =>
    if !indented && isBreakAt (l.column src) bytes then (some (.node (.mk .thematicBreak [] [])), b)
    else
      let mayList :=
        !indented && (bytes[pos]?.any fun c => ListMarker.isBullet c || Bytes.isDigit c)
      let held := inner == .list || b.nextItem
      let list? := if mayList && !held then readList? bytes interrupts else none
      let b := if mayList && held then b.clearNextItem else b
      match list? with
      | some marker => (some (.list marker), { b with emptyItem := false })
      | none =>
        let item? := match parentOffset with
          | some offset => if mayList then readItem? offset l bytes else none
          | none => none
        match item? with
        | some (offset, rest) => (some (.item offset rest), { b with emptyItem := false })
        | none => (openingLeaf? bytes pos width offset?, b)
where
  /-- Blocks that are neither lists nor items. -/
  openingLeaf? (bytes : Bytes) (pos width : Nat) (offset? : Option Nat) : Option Opening :=
    if 3 < width then
      if isLazy || Bytes.isBlank bytes then none
      else (codeLine? src l).map fun s => .leaf (.code [s])
    else
      let special : Option Opening :=
        if bytes[pos]? == some (ascii '>') then
          (readQuoteMark? src l).map fun rest => .frame (.quote []) rest
        else match offset? with
          | none => none
          | some pos =>
            match readAtx? l bytes pos with
            | some (level, text) => some (.node (.mk (.heading level) text.toList []))
            | none =>
              match readFence? src l bytes pos with
              | some fence => some (.leaf fence)
              | none =>
                let inParagraph := match inner with
                  | .paragraph _ => true
                  | _ => false
                (Html.blockType? bytes inParagraph).map fun type => .leaf (.html type [l.segment])
      match special with
      | some o => some o
      | none =>
        let text := src.trimStart l.segment
        if isLazy || text.isEmpty then none else some (.leaf (.paragraph [⟨0, text⟩]))

/-- Turns the open paragraph into a heading. Its blanks are gone before tables are searched for, so
that a line of delimiters may be indented. A paragraph of which nothing remains once it ends is no
heading: answers none, with the paragraph closed. -/
def underlineParagraph (src : Source) (b : Blocks) (level : Nat) : Option Unit × Blocks :=
  match b.leaf with
  | some (.paragraph lines) =>
    let text := trimLastLine src (lines.reverse.map ParagraphLine.text)
    let parts := paragraphParts src (text.map (ParagraphLine.mk 0))
    let b := { b with leaf := none, references := b.references ++ parts.references }
    let b := b.addNodes parts.after
    if parts.lines.isEmpty then (none, b)
    else (some (), b.addNode (.mk (.heading level) parts.lines []))
  | _ => (none, b)

/-- The offset of the last item of the list that is the innermost of the outermost `depth`
containers. -/
def listOffset? (b : Blocks) (depth : Nat) : Option Nat :=
  match b.frames.drop (b.frames.length - depth) with
  | .list _ offset _ :: _ => some offset
  | _ => none

/-- Records the offset of a new item in the list that holds it. -/
def noteOffset (offset : Nat) : List Frame → List Frame
  | .list marker _ children :: rest => .list marker offset children :: rest
  | frames => frames

/-- Opens blocks below the outermost `depth` containers, closing what the line does not continue
once the first one opens. Answers whether any block was opened. A line opens no more than two blocks
for each of its bytes. -/
def openBlocks (src : Source) : (fuel : Nat) → (opened isLazy : Bool) → (depth : Nat) → Line →
    Blocks → Bool × Blocks
  | 0, opened, _, _, _, b => (opened, b)
  | fuel + 1, opened, isLazy, depth, l, b =>
    if l.atEnd src || l.padding == 0 && src.at? l.start (· == newline) then (opened, b)
    else
      match opening? src b l (b.innermost depth) (b.listOffset? depth) (isLazy && !opened) with
      | (none, b) => (opened, b)
      | (some (.underline level), b) =>
        match b.underlineParagraph src level with
        | (some _, b) => (true, b)
        | (none, b) => openBlocks src fuel opened false depth l b
      | (some (.leaf leaf), b) => (true, { b.closeTo src depth with leaf := some leaf })
      | (some (.node n), b) => (true, (b.closeTo src depth).addNode n)
      | (some (.frame f rest), b) =>
        openBlocks src fuel true isLazy (depth + 1) rest ((b.closeTo src depth).pushFrame f)
      | (some (.list marker), b) =>
        openBlocks src fuel true isLazy (depth + 1) l
          ((b.closeTo src depth).pushFrame (.list marker 0 []))
      | (some (.item offset rest?), b) =>
        let b := b.closeTo src depth
        let b := { b with frames := .item offset [] :: noteOffset offset b.frames }
        match rest? with
        | none => (true, b)
        | some rest => openBlocks src fuel true isLazy (depth + 1) rest b

/-- Adds a line to the open paragraph. -/
def continueParagraph (src : Source) (b : Blocks) (l : Line) : Blocks :=
  match b.leaf with
  | some (.paragraph lines) =>
    { b with leaf := some (.paragraph (src.paragraphLine l :: lines)) }
  | _ => b

/-- Opens what the rest of a line opens below the outermost `depth` containers. If it opens nothing
it may still continue the open paragraph; otherwise the blocks it does not continue are closed. -/
def openRest (src : Source) (b : Blocks) (depth : Nat) (l : Line) : Blocks :=
  let isLazy := match b.leaf with
    | some (.paragraph _) => true
    | _ => false
  let (opened, b) := openBlocks src (2 * (l.bytes src).length + 2) false isLazy depth l b
  if opened then b
  else
    let open? := match b.leaf with
      | some (.paragraph _) => true
      | _ => false
    if open? && !l.isBlank src then b.continueParagraph src l else b.closeTo src depth

/-- Closes a leaf at the line that ends it. The end of an HTML block of types two to five takes the
line feed with it, so that the next line is read where the block stood, containers and all. -/
def closeWith (src : Source) (b : Blocks) (leaf : Leaf) (closure : Option Segment) : Blocks :=
  match leaf with
  | .html type lines =>
    { b with leaf := none, joined := type != 1 }.addNode
      (.mk (.htmlBlock type closure) lines.reverse [])
  | _ => { b with leaf := some leaf }.closeLeaf src

/-- Reads one line of the document. -/
def readLine (src : Source) (b : Blocks) (line : Segment) : Blocks :=
  let frames := b.frames.reverse
  if b.joined then { b with joined := false }.openRest src frames.length (.ofSegment line)
  else
    let (depth, l, flags) :=
      continueFrames src b.leaf.isSome frames ⟨b.emptyItem, b.nextItem⟩ (.ofSegment line)
    let b := { b with emptyItem := flags.emptyItem, nextItem := flags.nextItem }
    if l.atEnd src then b
    else if depth < frames.length then b.openRest src depth l
    else match b.leaf with
      | none => b.openRest src depth l
      | some (.paragraph _) => b.openRest src depth l
      | some leaf =>
        match leafStep src l leaf with
        | .continues leaf => { b with leaf := some leaf }
        | .endsWith leaf closure => b.closeWith src leaf closure
        | .endsBefore => (b.closeLeaf src).openRest src depth l

/-- The closed blocks of a document and its references. -/
def ofSource (src : Source) : List Node × References :=
  let b := src.lines.foldl (readLine src) {}
  let b := b.closeTo src 0
  (b.closed.reverse, b.references)

end Blocks

end DocTokens.Markdown
