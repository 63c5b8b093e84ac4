import DocTokens.Markdown.Directive

/-! # Markdown documents

The structure of a markdown document as its parser sees it. Only texts, block lines and a few inline
forms carry positions; the extent of everything else follows from what it contains.
-/

namespace DocTokens.Markdown

/-- What a markdown node is. -/
inductive Kind where
  | document
  | paragraph
  | textBlock
  | heading (level : Nat)
  | blockquote
  | list (marker : UInt8)
  | listItem
  | codeBlock
  | fencedCode (info : Option Segment)
  | htmlBlock (type : Nat) (closure : Option Segment)
  | thematicBreak
  | table
  | tableHeader
  | tableRow
  | tableCell
  | otherBlock
  | text (segment : Segment)
  | string
  | codeSpan
  | emphasis (level : Nat)
  | strikethrough
  | link (destination : Bytes)
  | image (destination : Bytes)
  | autoLink (label : Segment) (protocol : Option Bytes)
  | rawHtml (segments : List Segment)
  | directive (d : Directive)
  | formula (segment : Segment)
  | underline (segment : Segment)
  | spacing (segment : Segment) (thin : Bool)
  | latex (segment : Segment)
  | otherInline
  deriving DecidableEq, Repr, Inhabited

namespace Kind

/-- The kinds whose lines count towards their extent. -/
def isBlock : Kind → Bool
  | paragraph | textBlock | heading _ | blockquote | list _ | listItem | codeBlock | fencedCode _
  | htmlBlock _ _ | thematicBreak | table | tableHeader | tableRow | tableCell | otherBlock => true
  | _ => false

/-- The marker of a list. -/
def marker? : Kind → Option UInt8
  | list marker => some marker
  | _ => none

end Kind

/-- A node with the source lines of a block and the nodes below it. -/
inductive Node where
  | mk (kind : Kind) (lines : List Segment) (children : List Node)
  deriving Repr, Inhabited

namespace Node

def kind : Node → Kind
  | mk kind _ _ => kind

def lines : Node → List Segment
  | mk _ lines _ => lines

def children : Node → List Node
  | mk _ _ children => children

/-- An inline node without children. -/
def leaf (kind : Kind) : Node := mk kind [] []

def text (segment : Segment) : Node := leaf (.text segment)

end Node

/-- From the start of the first segment to the end of the last. -/
def firstToLast? (segments : List Segment) : Option Segment :=
  match segments.head?, segments.getLast? with
  | some first, some last => some ⟨first.start, last.stop⟩
  | _, _ => none

end DocTokens.Markdown
