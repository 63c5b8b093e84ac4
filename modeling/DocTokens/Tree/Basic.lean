import DocTokens.Tree.Node

/-! # Document trees

A tree is an arena of nodes with a root. Nothing forces it to be a tree: references may be shared,
dangling or cyclic, and nodes may be unreachable.
-/

namespace DocTokens

/-- An arena of nodes and the number of its root. -/
structure Tree where
  nodes : Array Node
  rootId : NodeId
  deriving Repr, DecidableEq

namespace Tree

def empty : Tree := ⟨#[], NodeId.none⟩

/-- The number of nodes in the arena, reachable or not. -/
def size (t : Tree) : Nat := t.nodes.size

/-- The root; an empty arena has none. -/
def root (t : Tree) : NodeId := if t.nodes.isEmpty then NodeId.none else t.rootId

/-- Whether a number names a node. -/
def valid (t : Tree) (id : NodeId) : Bool := 0 ≤ id && id < t.size

def node? (t : Tree) (id : NodeId) : Option Node :=
  if id < 0 then none else t.nodes[id.toNat]?

def parent (t : Tree) (id : NodeId) : NodeId :=
  match t.node? id with
  | some n => n.parent
  | none => NodeId.none

/-- A child reference with the slot and key that hold it. -/
structure Edge where
  slot : Slot
  key : Bytes
  child : NodeId
  deriving DecidableEq, Repr

/-- The child references of a node in the order of its fields. -/
def edges (t : Tree) (id : NodeId) : List Edge :=
  match t.node? id with
  | none => []
  | some n => n.fields.toList.filterMap fun f => match f.value with
    | .child c => some ⟨f.slot, f.key, c⟩
    | _ => none

/-- Whether `parent` holds `child` in the given slot, under any key. -/
def references (t : Tree) (parent : NodeId) (slot : Slot) (child : NodeId) : Bool :=
  match t.node? parent with
  | none => false
  | some n =>
    child != NodeId.none && n.fields.any fun f => f.slot == slot && f.value.childId == child

end Tree

end DocTokens
