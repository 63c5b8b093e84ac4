import DocTokens.Category
import DocTokens.LineIndex
import DocTokens.Tree.Walk

/-! # Semantic tokens

Tokens are the line ranges of the classified nodes of a tree, in the order of the walk. Nothing is
merged, sorted or dropped. The walk asks a stop signal before every `interval`-th node.
-/

namespace DocTokens

/-- A piece of one line with a category; line and column are counted from zero. -/
structure Token where
  line : Int
  column : Int
  length : Int
  category : Category
  deriving DecidableEq, Repr, Inhabited

namespace Token

def render (t : Token) : String := s!"{t.line}:{t.column}+{t.length} {t.category.name}"

def ofRange (category : Category) (r : LineRange) : Token :=
  ⟨r.line, r.column, r.length, category⟩

end Token

/-- Why no tokens come out. -/
inductive TokenizeError where
  | noTree
  /-- The stop signal answered after this many nodes. -/
  | stopped (visited : Nat) (cause : StopCause)
  /-- The span of a node does not fit the text. -/
  | badSpan (node : Node) (cause : RangeError)
  /-- The located span of a node cannot be split into lines. -/
  | badRanges (node : Node) (cause : RangeError)
  deriving DecidableEq, Repr

namespace TokenizeError

def ofWalk : WalkError TokenizeError → TokenizeError
  | .stopped visited cause => .stopped visited cause
  | .failed e => e

def message : TokenizeError → String
  | noTree => "nil tree"
  | stopped visited cause =>
    s!"token generation cancelled after {visited} nodes: {cause.message}"
  | badSpan node cause => s!"locating {node.render}: {cause.message}"
  | badRanges node cause => s!"decomposing {node.render}: {cause.message}"

end TokenizeError

namespace Tree

/-- The tokens of one node: none without a category, else one for each line its span touches. -/
def tokensAt (t : Tree) (idx : LineIndex) (id : NodeId) : Except TokenizeError (List Token) :=
  match t.classify id, t.node? id with
  | some category, some n =>
    match idx.locateSpan n.span with
    | .error e => .error (.badSpan n e)
    | .ok (start, stop) =>
      match LineRange.decompose start stop (idx.lengths.map Int.ofNat) with
      | .error e => .error (.badRanges n e)
      | .ok ranges => .ok (ranges.map (Token.ofRange category))
  | _, _ => .ok []

/-- Adds the tokens of a node to those of the nodes before it. -/
def emit (t : Tree) (idx : LineIndex) (id : NodeId) (tokens : Array Token) :
    Except TokenizeError (Array Token) :=
  (t.tokensAt idx id).map fun (added : List Token) => tokens ++ added

/-- The tokens of a tree over its text, and the signal afterwards. -/
def tokenize (t : Tree) (text : Bytes) (interval : Int) (signal : StopSignal) :
    Except TokenizeError (List Token) × StopSignal :=
  let idx := LineIndex.ofBytes text
  let result := t.walk interval (t.emit idx) signal #[]
  match result.outcome with
  | .ok tokens => (.ok tokens.toList, result.signal)
  | .error e => (.error (.ofWalk e), result.signal)

/-- The tokens of a tree that may be missing. -/
def tokenize? (t : Option Tree) (text : Bytes) (interval : Int) (signal : StopSignal) :
    Except TokenizeError (List Token) × StopSignal :=
  match t with
  | none => (.error .noTree, signal)
  | some t => t.tokenize text interval signal

end Tree

end DocTokens
