import DocTokens.Tree.Basic

/-! # Building trees

A `Builder` collects nodes and fields. Calls that name a node which does not exist have no effect.
Building hands over the nodes collected so far; the builder starts over with no nodes but remembers
its root.
-/

namespace DocTokens

structure Builder where
  nodes : Array Node := #[]
  root : NodeId := NodeId.none
  deriving Repr

namespace Builder

def empty : Builder := {}

/-- The number the next node gets. -/
def nextId (b : Builder) : NodeId := b.nodes.size

def valid (b : Builder) (id : NodeId) : Bool := 0 ≤ id && id < b.nodes.size

/-- Adds a node that no slot holds yet. The first node without a parent becomes the root. -/
def add (b : Builder) (parent : NodeId) (type : NodeType) (span : Span) : Builder where
  nodes := b.nodes.push ⟨b.nodes.size, type, span, parent, #[]⟩
  root := if parent = NodeId.none ∧ b.root = NodeId.none then b.nextId else b.root

/-- Changes the node with the given number, if there is one. -/
def modify (b : Builder) (id : NodeId) (f : Node → Node) : Builder :=
  if id < 0 then b else ⟨b.nodes.modify id.toNat f, b.root⟩

/-- Appends a field to a node. -/
def addField (b : Builder) (parent : NodeId) (f : Field) : Builder :=
  b.modify parent fun n => { n with fields := n.fields.push f }

/-- Records a child under a slot of its parent. -/
def attach (b : Builder) (parent : NodeId) (slot : Slot) (child : NodeId) : Builder :=
  b.addField parent ⟨slot, [], .child child⟩

/-- Records a child as an entry of the parent's key mapping. -/
def attachKey (b : Builder) (parent : NodeId) (key : Bytes) (child : NodeId) : Builder :=
  b.addField parent ⟨.keys, key, .child child⟩

/-- Records a text that has no node of its own. -/
def setLiteral (b : Builder) (parent : NodeId) (slot : Slot) (text : Bytes) : Builder :=
  b.addField parent ⟨slot, [], .literal text⟩

/-- Adds a node and attaches it to its parent. -/
def addSlot (b : Builder) (parent : NodeId) (slot : Slot) (type : NodeType) (span : Span) :
    Builder :=
  (b.add parent type span).attach parent slot b.nextId

def addChild (b : Builder) (parent : NodeId) (type : NodeType) (span : Span) : Builder :=
  b.addSlot parent .children type span

/-- Replaces the span of a node. -/
def setSpan (b : Builder) (id : NodeId) (span : Span) : Builder :=
  b.modify id fun n => { n with span := span }

/-- The current span of a node; the empty span at zero when there is no such node. -/
def span (b : Builder) (id : NodeId) : Span :=
  if id < 0 then ⟨0, 0⟩
  else match b.nodes[id.toNat]? with
    | some n => n.span
    | none => ⟨0, 0⟩

/-- Hands over the tree. -/
def build (b : Builder) : Tree × Builder := (⟨b.nodes, b.root⟩, ⟨#[], b.root⟩)

/-- One call on a builder. -/
inductive Call where
  | add (parent : NodeId) (type : NodeType) (span : Span)
  | addSlot (parent : NodeId) (slot : Slot) (type : NodeType) (span : Span)
  | attach (parent : NodeId) (slot : Slot) (child : NodeId)
  | attachKey (parent : NodeId) (key : Bytes) (child : NodeId)
  | setLiteral (parent : NodeId) (slot : Slot) (text : Bytes)
  | setSpan (id : NodeId) (span : Span)
  deriving Repr

def apply (b : Builder) : Call → Builder
  | .add parent type span => b.add parent type span
  | .addSlot parent slot type span => b.addSlot parent slot type span
  | .attach parent slot child => b.attach parent slot child
  | .attachKey parent key child => b.attachKey parent key child
  | .setLiteral parent slot text => b.setLiteral parent slot text
  | .setSpan id span => b.setSpan id span

/-- The builder after a sequence of calls. -/
def run (calls : List Call) (b : Builder) : Builder := calls.foldl apply b

end Builder

end DocTokens
