import DocTokens.Proofs.Markdown.Course

/-! # Lines of delimiters in a tree

The lines of delimiters in the tree of a document are those that its conversion puts behind header
rows, in the same order. None of them is made up for another node.
-/

namespace DocTokens

/-- The span of a line of delimiters. -/
def Shape.controlSpan? (s : Shape) : Option Span :=
  if s.type = .tableControlCell then some s.span else none

/-- The type and span of a node. -/
def Node.shape (n : Node) : Shape := ⟨n.type, n.span⟩

/-- The spans of the lines of delimiters of a tree. -/
def Tree.controlSpans (t : Tree) : List Span :=
  t.nodes.toList.filterMap fun n => n.shape.controlSpan?

namespace Forest

/-- The spans of the lines of delimiters of a forest. -/
def controlSpans (f : Forest Shape) : List Span := f.heads.filterMap Shape.controlSpan?

theorem controlSpans_node (label : Label) (head : Shape) (below rest : Forest Shape) :
    (node label head below rest).controlSpans =
      head.controlSpan?.toList ++ (below.controlSpans ++ rest.controlSpans) := by
  unfold controlSpans
  rw [heads, List.filterMap_cons, List.filterMap_append]
  cases head.controlSpan? <;> rfl

@[simp] theorem controlSpans_text (slot : Slot) (span : Span) (f : Forest Shape) :
    (leaf slot .text span f).controlSpans = f.controlSpans :=
  controlSpans_node _ _ nil f

theorem controlSpans_append (f g : Forest Shape) :
    (f ++ g).controlSpans = f.controlSpans ++ g.controlSpans := by
  induction f with
  | nil => rfl
  | value label v rest ih => exact ih
  | node label head below rest _ ih =>
    change (node label head below (rest ++ g)).controlSpans = _
    rw [controlSpans_node, controlSpans_node, ih]
    simp only [List.append_assoc]

theorem map_shape_heads_number (f : Forest Shape) (parent : NodeId) (base : Nat) :
    (f.number parent base).heads.map Node.shape = f.heads := by
  induction f generalizing parent base with
  | nil => rfl
  | value label v rest ih => exact ih parent base
  | node label head below rest ihb ihr =>
    rw [number, heads, heads, List.map_cons, List.map_append, ihb, ihr]
    rfl

theorem controlSpans_toTree {root : Shape} (h : root.type ≠ .tableControlCell) (f : Forest Shape) :
    (f.toTree root).controlSpans = f.controlSpans := by
  have hroot : root.controlSpan? = none := if_neg h
  have hmap : (f.toTree root).controlSpans =
      ((f.toTree root).nodes.toList.map Node.shape).filterMap Shape.controlSpan? := by
    rw [List.filterMap_map]
    rfl
  rw [hmap, toTree_toList, map_shape_heads_number, rooted]
  change (node _ root f nil).controlSpans = _
  rw [controlSpans_node, hroot]
  exact List.append_nil _

end Forest

namespace Markdown

/-! ## One kind after another -/

/-- The lines of delimiters below the piece are the given ones. -/
def Outcome.Delimits (spans : List Span) (o : Outcome) : Prop :=
  ∀ p ∈ o.piece, p.below.controlSpans = spans

section Kinds

variable {src : Source} {cursor : Nat} {n : Node} {inner : Conversion} {type : NodeType}
  {s : Segment}

theorem delimits_leafAt {below : Forest Shape} (h : below.controlSpans = []) :
    (leafAt src cursor type s below).Delimits [] := by
  rintro p ⟨⟩
  exact h

theorem delimits_containerAt :
    (containerAt src type s inner).Delimits inner.entries.controlSpans := by
  rintro p ⟨⟩
  rfl

theorem delimits_heading (lines : List Segment) (extent : Option Segment) :
    (heading src lines extent cursor inner).Delimits inner.entries.controlSpans := by
  unfold heading
  split
  · exact delimits_containerAt
  · exact delimits_containerAt

theorem delimits_blockquote (extent : Option Segment) :
    (blockquote src extent cursor inner).Delimits inner.entries.controlSpans := by
  unfold blockquote
  split
  · exact delimits_containerAt
  · exact delimits_containerAt

theorem delimits_listItem (marker : Option UInt8) (extent : Option Segment) :
    (listItem src marker extent cursor inner).Delimits inner.entries.controlSpans := by
  unfold listItem
  extract_lets bullet?
  clear_value bullet?
  split
  · rintro p ⟨⟩
    exact Forest.controlSpans_text _ _ _
  · exact delimits_containerAt

theorem delimits_link (destination : Bytes) (content : Option Segment) :
    (link src type destination content cursor inner).Delimits inner.entries.controlSpans := by
  unfold link
  extract_lets parts target warnings
  have htarget : target.controlSpans = [] := by
    simp only [target]
    split
    · rfl
    · split <;> rfl
  rintro p ⟨⟩
  rw [Forest.controlSpans_append, htarget, List.append_nil]

theorem delimits_table (rows : Conversion) :
    (table src cursor rows).Delimits rows.entries.controlSpans := by
  unfold table
  split
  · rintro p ⟨⟩
    rfl
  · exact delimits_containerAt

theorem delimits_fencedCode (info : Option Segment) (lines : List Segment)
    (extent : Option Segment) : (fencedCode src info lines extent cursor inner).Delimits
      (if (fenceStart? src info lines).isNone then inner.entries.controlSpans else []) := by
  unfold fencedCode
  cases fenceStart? src info lines with
  | none => exact delimits_containerAt
  | some start =>
    refine delimits_leafAt ?_
    cases info with
    | none => cases firstToLast? lines <;> rfl
    | some i =>
      dsimp only
      split
      · cases firstToLast? lines <;> rfl
      · cases firstToLast? lines <;> rfl

theorem delimits_indentedCode (lines : List Segment) (extent : Option Segment) :
    (indentedCode src lines extent cursor inner).Delimits
      (if lines.isEmpty then inner.entries.controlSpans else []) := by
  cases lines with
  | nil => exact delimits_containerAt
  | cons line lines =>
    obtain ⟨stop, hplace⟩ := firstToLast?_cons line lines
    rw [indentedCode, hplace]
    exact delimits_leafAt rfl

theorem delimits_htmlBlock (type : Nat) (closure : Option Segment) (lines : List Segment) :
    (htmlBlock src type closure lines cursor).Delimits [] := by
  unfold htmlBlock
  extract_lets nodeType place
  clear_value place
  split
  · exact delimits_leafAt rfl
  · exact delimits_leafAt rfl

theorem delimits_rawHtml (segments : List Segment) : (rawHtml src segments cursor).Delimits [] := by
  unfold rawHtml
  split
  · rintro p ⟨⟩
  · exact delimits_leafAt rfl

theorem delimits_autoLink (label : Segment) (protocol : Option Bytes) :
    (autoLink src label protocol cursor).Delimits [] := by
  unfold autoLink
  extract_lets text found? url
  cases found? with
  | none => exact delimits_leafAt rfl
  | some k => exact delimits_leafAt rfl

theorem controlSpans_keyEntries (entries : List KeyEntry) :
    (keyEntries src entries).controlSpans = [] := by
  induction entries with
  | nil => rfl
  | cons entry rest ih =>
    rw [keyEntries, Forest.controlSpans_node]
    change Forest.controlSpans (ite _ _ _) = []
    split
    · exact ih
    · exact (Forest.controlSpans_text _ _ _).trans ih

theorem delimits_directive (d : Directive) : (directive src d cursor).Delimits [] := by
  rintro p ⟨⟩
  have hkeys : (keyEntries src d.keys).controlSpans = [] := controlSpans_keyEntries d.keys
  cases d.label <;> simp [hkeys]

/-- One case for each kind of node. -/
theorem delimits_convertKind (ht : n.kind ≠ .table) (marker : Option UInt8) :
    (convertKind src marker n cursor inner).Delimits
      (if n.convertsBelow src then inner.entries.controlSpans else []) := by
  unfold convertKind Node.convertsBelow
  extract_lets extent
  cases hk : n.kind with
  | text | spacing | latex | thematicBreak | formula | underline => exact delimits_leafAt rfl
  | string => rintro p ⟨⟩
  | directive d => exact delimits_directive d
  | fencedCode info => exact delimits_fencedCode info n.lines extent
  | codeBlock => exact delimits_indentedCode n.lines extent
  | htmlBlock type closure => exact delimits_htmlBlock type closure n.lines
  | rawHtml segments => exact delimits_rawHtml segments
  | autoLink label protocol => exact delimits_autoLink label protocol
  | heading level => exact delimits_heading n.lines extent
  | blockquote => exact delimits_blockquote extent
  | listItem => exact delimits_listItem marker extent
  | link destination | image destination => exact delimits_link destination _
  | list =>
    rintro p ⟨⟩
    rfl
  | paragraph | textBlock | document | emphasis | strikethrough | codeSpan | tableHeader
  | tableRow | tableCell | otherBlock | otherInline => exact delimits_containerAt
  | table => exact absurd hk ht

theorem controlSpans_convertedBelow (src : Source) (n : Node) (cursor : Nat) :
    (convertedBelow src n cursor).entries.controlSpans =
      if n.convertsBelow src then (convertBelow src n cursor).entries.controlSpans else [] := by
  unfold convertedBelow
  split <;> rfl

theorem delimits_convertNode (src : Source) (n : Node) (marker : Option UInt8) (cursor : Nat) :
    (convertNode src marker n cursor).Delimits
      (convertedBelow src n cursor).entries.controlSpans := by
  rw [controlSpans_convertedBelow]
  obtain ⟨kind, lines, children⟩ := n
  by_cases hk : kind = .table
  · subst hk
    rw [convertNode_table]
    exact delimits_table _
  · have hbelow : convertBelow src (.mk kind lines children) cursor =
        convertAll src kind.marker? children cursor := if_neg hk
    rw [convertNode_of_ne hk, hbelow]
    exact delimits_convertKind (n := .mk kind lines children) hk marker

end Kinds

/-! ## Steps -/

/-- The spans of the lines of delimiters that steps deal with. -/
def delimiterSpans (steps : List Step) : List Span :=
  (steps.filter fun v => v.node?.isNone).map fun v => v.piece.segment.toSpan

section Steps

variable {src : Source} {n : Node} {cursor : Nat}

theorem delimiterSpans_append (steps steps' : List Step) :
    delimiterSpans (steps ++ steps') = delimiterSpans steps ++ delimiterSpans steps' := by
  rw [delimiterSpans, List.filter_append, List.map_append]
  rfl

theorem controlSpans_cons_controlRow (row : Outcome) (rest : Conversion) :
    (Conversion.cons (controlRow src row) rest).entries.controlSpans =
      delimiterSpans (controlSteps src row) ++ rest.entries.controlSpans := by
  unfold controlSteps
  cases hp : (controlRow src row).piece with
  | none =>
    rw [cons_of_none hp]
    rfl
  | some p =>
    have hhead : Shape.controlSpan? ⟨p.type, p.segment.toSpan⟩ = some p.segment.toSpan :=
      if_pos (piece_controlRow src row p hp).1
    rw [cons_of_some hp, Forest.controlSpans_node, hhead, (piece_controlRow src row p hp).2]
    rfl

section Sequences

variable {nodes : List Node} (h : ∀ n ∈ nodes, ∀ marker cursor, ∀ rest : Conversion,
  (Conversion.cons (convertNode src marker n cursor) rest).entries.controlSpans =
    delimiterSpans (n.steps src marker cursor) ++ rest.entries.controlSpans)
include h

theorem controlSpans_convertAll (marker : Option UInt8) (cursor : Nat) :
    (convertAll src marker nodes cursor).entries.controlSpans =
      delimiterSpans (allSteps src marker nodes cursor) := by
  induction nodes generalizing cursor with
  | nil => rfl
  | cons n rest ih =>
    rw [convertAll, allSteps, delimiterSpans_append, h n List.mem_cons_self,
      ih fun m hm => h m (List.mem_cons_of_mem _ hm)]

theorem controlSpans_convertRows (cursor : Nat) :
    (convertRows src nodes cursor).entries.controlSpans =
      delimiterSpans (rowSteps src nodes cursor) := by
  induction nodes generalizing cursor with
  | nil => rfl
  | cons n rest ih =>
    have hn := h n List.mem_cons_self none cursor
    have hrest := ih fun m hm => h m (List.mem_cons_of_mem _ hm)
    rw [convertRows, rowSteps]
    dsimp only
    split
    · rw [hn, controlSpans_cons_controlRow, hrest, delimiterSpans_append, delimiterSpans_append]
    · rw [hn, hrest, delimiterSpans_append]

end Sequences

/-- One induction on the document: a node leaves the lines of delimiters of the steps below it. -/
theorem controlSpans_cons_convertNode (src : Source) (n : Node) (marker : Option UInt8)
    (cursor : Nat) (rest : Conversion) :
    (Conversion.cons (convertNode src marker n cursor) rest).entries.controlSpans =
      delimiterSpans (n.steps src marker cursor) ++ rest.entries.controlSpans := by
  induction n using Node.of_children generalizing marker cursor rest with
  | h n ih =>
    cases hplace : n.kind.isPlaceless with
    | true =>
      have hnone : (convertNode src marker n cursor).piece = none := piece_convertNode hplace marker
      rw [cons_of_none hnone, Node.steps_of_none hnone]
      rfl
    | false =>
      obtain ⟨p, hpiece, htype⟩ := exists_piece hplace src marker cursor
      have hbelow : (convertedBelow src n cursor).entries.controlSpans =
          delimiterSpans (n.stepsBelow src cursor) := by
        unfold convertedBelow convertBelow Node.stepsBelow
        split
        · split
          · exact controlSpans_convertRows ih cursor
          · exact controlSpans_convertAll ih _ cursor
        · rfl
      have hhead : Shape.controlSpan? ⟨p.type, p.segment.toSpan⟩ = none :=
        if_neg (htype ▸ Kind.nodeType_ne_tableControlCell src n.kind)
      rw [cons_of_some hpiece, Node.steps_of_some hpiece, delimiterSpans_append,
        Forest.controlSpans_node, hhead, delimits_convertNode src n marker cursor p hpiece, hbelow]
      simp [delimiterSpans]

/-- The lines of delimiters of a tree are those of the steps of its conversion. -/
theorem controlSpans_convert (src : Source) (document : Node) :
    (convert src document).1.controlSpans = delimiterSpans (courseOf src document) := by
  have hfile : NodeType.file ≠ .tableControlCell := by decide
  exact (Forest.controlSpans_toTree hfile _).trans
    (controlSpans_convertAll (fun n _ => controlSpans_cons_convertNode src n) none 0)

end Steps

end Markdown

end DocTokens
