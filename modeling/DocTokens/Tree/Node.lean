import DocTokens.Span
import DocTokens.Text.Quoted

/-! # Nodes of a document tree

Nodes live in an arena and refer to each other by number. A parent reaches its children through
named slots, and the slot rather than the child's type tells what role the child plays.
-/

namespace DocTokens

/-- The number of a node in its arena. Numbers that name no node are allowed everywhere. -/
abbrev NodeId := Int

/-- The number that stands for "no node", such as the parent of the root. -/
def NodeId.none : NodeId := -1

/-- The tag a parser gives to a node. -/
structure NodeType where
  name : String
  deriving DecidableEq, Repr, Inhabited

namespace NodeType

def file : NodeType := ⟨"File"⟩
def paragraph : NodeType := ⟨"Paragraph"⟩
def text : NodeType := ⟨"Text"⟩
def heading : NodeType := ⟨"Heading"⟩
def blockquote : NodeType := ⟨"Blockquote"⟩
def code : NodeType := ⟨"Code"⟩
def codeSpan : NodeType := ⟨"CodeSpan"⟩
def comment : NodeType := ⟨"Comment"⟩
def del : NodeType := ⟨"Del"⟩
def em : NodeType := ⟨"Em"⟩
def strong : NodeType := ⟨"Strong"⟩
def underline : NodeType := ⟨"Underline"⟩
def formula : NodeType := ⟨"Formula"⟩
def formulaSpan : NodeType := ⟨"FormulaSpan"⟩
def latex : NodeType := ⟨"Latex"⟩
def latexSpan : NodeType := ⟨"LatexSpan"⟩
def hr : NodeType := ⟨"Hr"⟩
def image : NodeType := ⟨"Image"⟩
def link : NodeType := ⟨"Link"⟩
def opCode : NodeType := ⟨"OpCode"⟩
def list : NodeType := ⟨"List"⟩
def listItem : NodeType := ⟨"ListItem"⟩
def table : NodeType := ⟨"Table"⟩
def tableRow : NodeType := ⟨"TableRow"⟩
def tableCell : NodeType := ⟨"TableCell"⟩
def tableControlCell : NodeType := ⟨"TableControlCell"⟩
def nonBreakingSpace : NodeType := ⟨"NonBreakingSpace"⟩
def thinNonBreakingSpace : NodeType := ⟨"ThinNonBreakingSpace"⟩
def unknown : NodeType := ⟨"Unknown"⟩

end NodeType

/-- The name of a structural field of a parent. -/
structure Slot where
  name : String
  deriving DecidableEq, Repr, Inhabited

namespace Slot

def children : Slot := ⟨"children"⟩
def opcode : Slot := ⟨"opcode"⟩
def label : Slot := ⟨"label"⟩
def href : Slot := ⟨"href"⟩
def keys : Slot := ⟨"keys"⟩
def code : Slot := ⟨"code"⟩
def text : Slot := ⟨"text"⟩
def bullet : Slot := ⟨"bullet"⟩
def lang : Slot := ⟨"lang"⟩

end Slot

/-- What a field holds. Only child references take part in traversal and classification. -/
inductive Value where
  | absent
  | literal (text : Bytes)
  | child (id : NodeId)
  deriving DecidableEq, Repr, Inhabited

namespace Value

/-- The names of the kinds of values, in the order of their numbers. -/
def kindName (number : Int) : String :=
  if number = 0 then "absent" else if number = 1 then "literal" else if number = 2 then "child"
  else "unknown"

def kind : Value → Int
  | absent => 0
  | literal _ => 1
  | child _ => 2

/-- The referenced node, or no node. -/
def childId : Value → NodeId
  | child id => id
  | _ => NodeId.none

def render : Value → String
  | absent => "absent"
  | literal text => "literal " ++ Quoted.encode text
  | child id => s!"child #{id}"

end Value

/-- One named slot of a node. The key is set only for the entries of a key mapping. -/
structure Field where
  slot : Slot
  key : Bytes := []
  value : Value
  deriving DecidableEq, Repr, Inhabited

/-- One entry of an arena. -/
structure Node where
  id : Nat
  type : NodeType
  span : Span
  parent : NodeId
  fields : Array Field
  deriving DecidableEq, Repr, Inhabited

namespace Node

/-- The first field with the given slot. -/
def field? (n : Node) (slot : Slot) : Option Field := n.fields.find? (·.slot == slot)

/-- The nodes referred to, in the order of the fields. -/
def childIds (n : Node) : List NodeId :=
  n.fields.toList.filterMap fun f => match f.value with
    | .child id => some id
    | _ => none

def render (n : Node) : String := s!"{n.type.name}#{n.id}{n.span.render}"

end Node

end DocTokens
