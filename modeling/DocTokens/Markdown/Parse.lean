import DocTokens.Markdown.Block
import DocTokens.Markdown.Inline

/-! # Parsing markdown

The block structure of a source, then the inline content of the blocks that have any.
-/

namespace DocTokens.Markdown

/-- The offsets of the backslashes in a table cell that protect a bar after a backquote. -/
def protectedBars (src : Source) (cell : Segment) : List Nat :=
  let text := src.slice cell.start cell.stop
  let quoted := Bytes.spanLength (!isBackquote ·) text
  (List.range text.length).filterMap fun i =>
    if quoted < i && text[i]? == some Table.bar then some (cell.start + i - 1) else none

/-- Cuts a text at the given offsets, leaving out the byte at each. -/
def cutAt : List Nat → Segment → List Segment
  | [], s => [s]
  | p :: rest, s =>
    if s.start ≤ p && p < s.stop then ⟨s.start, p⟩ :: cutAt rest ⟨p + 1, s.stop⟩ else cutAt rest s

mutual

/-- Inside code spans of a table cell, the backslash before a bar is no content. -/
def cutCode (bars : List Nat) : Node → Node
  | .mk .codeSpan lines children =>
    .mk .codeSpan lines (children.flatMap fun n => match n.kind with
      | .text s => (cutAt bars s).map Node.text
      | _ => [n])
  | .mk kind lines children => .mk kind lines (cutCodes bars children)

def cutCodes (bars : List Nat) : List Node → List Node
  | [] => []
  | n :: rest => cutCode bars n :: cutCodes bars rest

end

mutual

/-- Reads the inline content below a block. -/
def fillBlock (src : Source) (refs : References) : Node → Node
  | .mk kind lines children =>
    match kind with
    | .paragraph | .textBlock | .heading _ => .mk kind lines (Inline.read src refs lines)
    | .tableCell =>
      let content := Inline.read src refs lines
      match lines with
      | [s] => .mk kind lines (cutCodes (protectedBars src s) content)
      | _ => .mk kind lines content
    | .codeBlock | .fencedCode _ | .htmlBlock _ _ => .mk kind lines children
    | _ => .mk kind lines (fillBlocks src refs children)

def fillBlocks (src : Source) (refs : References) : List Node → List Node
  | [] => []
  | n :: rest => fillBlock src refs n :: fillBlocks src refs rest

end

/-- The markdown document of a source. -/
def parse (src : Source) : Node :=
  let (blocks, refs) := Blocks.ofSource src
  .mk .document [] (fillBlocks src refs blocks)

end DocTokens.Markdown
