import DocTokens.Markdown.Node
import DocTokens.Text.CodePoint
import DocTokens.Text.Utf8

/-! # Emphasis

While a block is read, runs of `*`, `_` and `~` stay undecided in a sequence of items. Resolving the
sequence pairs closing runs with opening ones and turns what is left into text.
-/

namespace DocTokens.Markdown

/-- A run of delimiters. The segment is what is left of it; `size` is what it had at first. -/
structure Delimiter where
  mark : UInt8
  segment : Segment
  size : Nat
  canOpen : Bool
  canClose : Bool
  deriving DecidableEq, Repr

namespace Delimiter

def length (d : Delimiter) : Nat := d.segment.length

/-- Takes delimiters off the end of what is left. -/
def consume (d : Delimiter) (n : Nat) : Delimiter :=
  { d with segment := ⟨d.segment.start, d.segment.stop - n⟩ }

/-- How many delimiters an opening and a closing run take from each other. Runs that could also play
the other part do not match when their sizes add up to a multiple of three, unless both are. -/
def consumption (opener closer : Delimiter) : Nat :=
  if (opener.canClose || closer.canOpen) && (opener.size + closer.size) % 3 == 0
      && closer.size % 3 != 0 then 0
  else if 2 ≤ opener.length && 2 ≤ closer.length then 2
  else 1

/-- What a matching pair of runs makes of its content. -/
def kind (d : Delimiter) (consumed : Nat) : Kind :=
  if d.mark = ascii '~' then .strikethrough else .emphasis consumed

/-- The run at the front of a line between the given characters. -/
def ofRun (mark : UInt8) (segment : Segment) (before after : Char) : Delimiter :=
  let beforePunct := CodePoint.isPunctuation before
  let beforeSpace := CodePoint.isSpace before
  let afterPunct := CodePoint.isPunctuation after
  let afterSpace := CodePoint.isSpace after
  let left := !afterSpace && (!afterPunct || beforeSpace || beforePunct)
  let right := !beforeSpace && (!beforePunct || afterSpace || afterPunct)
  let inWord := mark == ascii '_'
  { mark, segment
    size := segment.length
    canOpen := left && (!inWord || !right || beforePunct)
    canClose := right && (!inWord || !left || afterPunct) }

end Delimiter

/-- An opening bracket that may start a link or, with an exclamation mark, an image. -/
structure OpenBracket where
  segment : Segment
  isImage : Bool
  deriving DecidableEq, Repr

/-- An element of the content of a block while it is read. -/
inductive Item where
  | node (n : Node)
  | delimiter (d : Delimiter)
  | bracket (b : OpenBracket)
  | group (kind : Kind) (items : List Item)

namespace Item

def text (s : Segment) : Item := .node (.text s)

/-- Puts a text after a reversed sequence of items, as part of a text that ends where it starts. -/
def mergeText (s : Segment) (before : List Item) : List Item :=
  match before with
  | .node (.mk (.text t) lines children) :: rest =>
    if t.stop = s.start then .node (.mk (.text ⟨t.start, s.stop⟩) lines children) :: rest
    else text s :: before
  | _ => text s :: before

/-- Turns the runs of a sequence into texts, first to last. -/
def settle : (before : List Item) → List Item → List Item
  | before, [] => before.reverse
  | before, .delimiter d :: rest => settle (mergeText d.segment before) rest
  | before, item :: rest => settle (item :: before) rest

/-- Turns the runs of a reversed sequence into texts, last to first. A run joins the text before it,
never a run. -/
def settleBack : List Item → List Item
  | [] => []
  | .delimiter d :: .node (.mk (.text t) lines children) :: rest =>
    if t.stop = d.segment.start then
      .node (.mk (.text ⟨t.start, d.segment.stop⟩) lines children) :: settleBack rest
    else text d.segment :: .node (.mk (.text t) lines children) :: settleBack rest
  | .delimiter d :: before => text d.segment :: settleBack before
  | item :: before => item :: settleBack before

/-- The search for a run that opens what another closes. -/
inductive Search where
  /-- The items after the opening run, the run, how much is consumed, and the items before it. -/
  | found (between : List Item) (opener : Delimiter) (consumed : Nat) (before : List Item)
  /-- Nothing; whether there was a run of the same mark that could open. -/
  | missing (maybe : Bool)

/-- Searches a reversed sequence for the nearest run that `closer` can close. -/
def findOpener (closer : Delimiter) : (between : List Item) → (maybe : Bool) → List Item → Search
  | _, maybe, [] => .missing maybe
  | between, maybe, .delimiter d :: before =>
    if d.canOpen && d.mark == closer.mark then
      let n := d.consumption closer
      if 0 < n then .found between d n before
      else findOpener closer (.delimiter d :: between) true before
    else findOpener closer (.delimiter d :: between) maybe before
  | between, maybe, item :: before => findOpener closer (item :: between) maybe before

/-- Closes what a run can close, given the reversed items before it. Every round takes a delimiter
off the run. -/
def close : (fuel : Nat) → (before : List Item) → Delimiter → List Item
  | 0, before, closer => .delimiter closer :: before
  | fuel + 1, before, closer =>
    match findOpener closer [] false before with
    | .missing maybe =>
      if !maybe && !closer.canOpen then mergeText closer.segment before
      else .delimiter closer :: before
    | .found between opener consumed before =>
      let group := Item.group (opener.kind consumed) (settle [] between)
      let opener := opener.consume consumed
      let closer := closer.consume consumed
      let before := if opener.length = 0 then before else .delimiter opener :: before
      if closer.length = 0 then group :: before else close fuel (group :: before) closer

/-- Pairs the runs of a sequence, of which a reversed part has been gone through. -/
def pairRuns : (before : List Item) → List Item → List Item
  | before, [] => before
  | before, .delimiter d :: rest =>
    pairRuns (if d.canClose then close (d.length + 1) before d else .delimiter d :: before) rest
  | before, item :: rest => pairRuns (item :: before) rest

/-- Decides all runs of a sequence of items. -/
def resolve (items : List Item) : List Item := (settleBack (pairRuns [] items)).reverse

mutual

/-- The nodes of resolved items; brackets that start nothing are text. -/
def toNode : Item → Node
  | .node n => n
  | .delimiter d => .text d.segment
  | .bracket b => .text b.segment
  | .group kind items => .mk kind [] (toNodes items)

def toNodes : List Item → List Node
  | [] => []
  | item :: rest => item.toNode :: toNodes rest

end

end Item

end DocTokens.Markdown
