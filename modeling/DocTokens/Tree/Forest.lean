import DocTokens.Tree.Builder

/-! # Forests

A `Forest` is what stands below a node: a sequence of entries, each a plain value or a node with
the forest below it. It is the view of a tree in which nothing is shared. `Tree.unfold` reads an
arena as a forest, visiting every node at most once, and `Forest.toTree` numbers the nodes of a
forest in pre-order.
-/

namespace DocTokens

/-- The name of an entry: its slot and, in a key mapping, its key. -/
structure Label where
  slot : Slot
  key : Bytes := []
  deriving DecidableEq, Repr

/-- A sequence of entries, with data of type `α` at each node. -/
inductive Forest (α : Type) where
  | nil
  | value (label : Label) (v : Value) (rest : Forest α)
  | node (label : Label) (head : α) (below : Forest α) (rest : Forest α)
  deriving Repr

namespace Forest

variable {α : Type}

/-- The nodes in pre-order. -/
def heads : Forest α → List α
  | nil => []
  | value _ _ rest => rest.heads
  | node _ head below rest => head :: (below.heads ++ rest.heads)

/-- The number of nodes. -/
def size : Forest α → Nat
  | nil => 0
  | value _ _ rest => rest.size
  | node _ _ below rest => 1 + below.size + rest.size

/-- Puts one sequence of entries after another. -/
def append : Forest α → Forest α → Forest α
  | nil, g => g
  | value label v rest, g => value label v (rest.append g)
  | node label head below rest, g => node label head below (rest.append g)

instance : Append (Forest α) := ⟨append⟩

end Forest

/-- The type and span of a node that has no number yet. -/
structure Shape where
  type : NodeType
  span : Span
  deriving DecidableEq, Repr

namespace Forest

/-- A node with nothing below it. -/
def leaf (slot : Slot) (type : NodeType) (span : Span) (rest : Forest Shape) : Forest Shape :=
  node ⟨slot, []⟩ ⟨type, span⟩ nil rest

/-- Adds the entries of a forest to a builder as fields of `parent`, numbering nodes in
pre-order. -/
def addTo (parent : NodeId) : Forest Shape → Builder → Builder
  | nil, b => b
  | value label v rest, b => rest.addTo parent (b.addField parent ⟨label.slot, label.key, v⟩)
  | node label head below rest, b =>
    let id := b.nextId
    let b := b.add parent head.type head.span
    let b := b.addField parent ⟨label.slot, label.key, .child id⟩
    rest.addTo parent (below.addTo id b)

/-- The tree with the given root node and the forest below it. -/
def toTree (root : Shape) (below : Forest Shape) : Tree :=
  (below.addTo 0 (Builder.empty.add NodeId.none root.type root.span)).build.1

end Forest

namespace Tree

/-- Which nodes have been visited. -/
abbrev Seen := Array Bool

def unseen (t : Tree) : Seen := Array.replicate t.size false

/-- The node with the given number, if it exists and has not been visited. -/
def fresh? (t : Tree) (seen : Seen) (id : NodeId) : Option Node :=
  match t.node? id with
  | some n => if seen[id.toNat]?.getD true then none else some n
  | none => none

/-- The forest of a list of fields, where `below` gives the forest of the fields of a child. A child
that is missing or already visited leaves no entry. -/
def unfoldFields (t : Tree) (below : List Field → Seen → Forest Node × Seen) :
    List Field → Seen → Forest Node × Seen
  | [], seen => (.nil, seen)
  | f :: fields, seen =>
    match f.value with
    | .child id =>
      match t.fresh? seen id with
      | none => t.unfoldFields below fields seen
      | some n =>
        let (inner, seen) := below n.fields.toList (seen.setIfInBounds id.toNat true)
        let (rest, seen) := t.unfoldFields below fields seen
        (.node ⟨f.slot, f.key⟩ n inner rest, seen)
    | v =>
      let (rest, seen) := t.unfoldFields below fields seen
      (.value ⟨f.slot, f.key⟩ v rest, seen)

/-- The forest of a list of fields down to the given depth. Each level marks a node, so the number
of nodes bounds the depth. -/
def unfoldTo (t : Tree) : Nat → List Field → Seen → Forest Node × Seen
  | 0, _, seen => (.nil, seen)
  | depth + 1, fields, seen => t.unfoldFields (t.unfoldTo depth) fields seen

/-- The root and the forest below it: depth first, children in field order, each node at its first
visit only. -/
def unfold (t : Tree) : Option (Node × Forest Node) :=
  match t.fresh? t.unseen t.root with
  | none => none
  | some n =>
    let seen := t.unseen.setIfInBounds t.root.toNat true
    some (n, (t.unfoldTo (t.size + 1) n.fields.toList seen).1)

/-- The nodes reachable from the root in pre-order. -/
def preorder (t : Tree) : List Node :=
  match t.unfold with
  | none => []
  | some (n, below) => n :: below.heads

end Tree

namespace Label

/-- The slot, followed by the key in brackets when there is one. -/
def render (l : Label) : Bytes :=
  if l.key.isEmpty then utf8 l.slot.name
  else utf8 l.slot.name ++ ascii '[' :: (l.key ++ [ascii ']'])

end Label

namespace Forest

def indent (depth : Nat) : Bytes := List.replicate (2 * depth) (ascii ' ')

/-- One line for each entry, indented by its depth. -/
def render : Nat → Forest Node → Bytes
  | _, nil => []
  | depth, value label v rest =>
    indent depth ++ label.render ++ utf8 " = " ++ utf8 v.render ++ newline :: rest.render depth
  | depth, node label head below rest =>
    indent depth ++ label.render ++ utf8 ": " ++ utf8 head.render ++
      newline :: (below.render (depth + 1) ++ rest.render depth)

end Forest

namespace Tree

/-- The tree written one entry per line. -/
def dump (t : Tree) : Bytes :=
  match t.unfold with
  | none => []
  | some (n, below) => utf8 n.render ++ newline :: below.render 1

end Tree

end DocTokens
