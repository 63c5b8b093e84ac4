import DocTokens.Proofs.Markdown.Outline
import DocTokens.Proofs.Markdown.Tokenizable

/-! # The structure of converted documents

No plain value in the forest of a document is a reference to a node, and the skeleton of the forest
is the outline of the document. Both follow from what each kind of node becomes, by induction on the
document from its leaves up.
-/

namespace DocTokens.Markdown

/-! ## Sequences of nodes -/

/-- What holds of a node whenever it holds of its children holds of every node. -/
theorem Node.of_children {P : Node → Prop} (h : ∀ n : Node, (∀ m ∈ n.children, P m) → P n)
    (n : Node) : P n :=
  match n with
  | .mk kind lines children =>
    h (.mk kind lines children) fun m (_ : m ∈ children) => of_children h m

section Sequences

variable {src : Source} {cursor : Nat}

theorem cons_of_none {o : Outcome} (h : o.piece = none) (rest : Conversion) :
    (Conversion.cons o rest).entries = rest.entries := by
  simp only [Conversion.cons, h]

theorem cons_of_some {o : Outcome} {p : Piece} (h : o.piece = some p) (rest : Conversion) :
    (Conversion.cons o rest).entries =
      .node ⟨.children, []⟩ ⟨p.type, p.segment.toSpan⟩ p.below rest.entries := by
  simp only [Conversion.cons, h]

theorem piece_controlRow (src : Source) (o : Outcome) :
    ∀ p ∈ (controlRow src o).piece, p.type = .tableControlCell ∧ p.below = .nil := by
  unfold controlRow
  split
  · simp
  · dsimp only
    split
    · rintro p ⟨⟩
      exact ⟨rfl, rfl⟩
    · simp

theorem plain_cons {o : Outcome} (ho : ∀ p ∈ o.piece, p.below.Plain) {rest : Conversion}
    (hrest : rest.entries.Plain) : (Conversion.cons o rest).entries.Plain := by
  cases hp : o.piece with
  | none =>
    rw [cons_of_none hp]
    exact hrest
  | some p =>
    rw [cons_of_some hp]
    exact ⟨ho p hp, hrest⟩

section Plain

variable {nodes : List Node} (h : ∀ n ∈ nodes, ∀ marker cursor,
  ∀ p ∈ (convertNode src marker n cursor).piece, p.below.Plain)
include h

theorem plain_convertAll (marker : Option UInt8) :
    (convertAll src marker nodes cursor).entries.Plain := by
  induction nodes generalizing cursor with
  | nil => trivial
  | cons n rest ih =>
    rw [convertAll]
    exact plain_cons (h n List.mem_cons_self marker cursor)
      (ih fun m hm => h m (List.mem_cons_of_mem _ hm))

theorem plain_convertRows : (convertRows src nodes cursor).entries.Plain := by
  induction nodes generalizing cursor with
  | nil => trivial
  | cons n rest ih =>
    have ho := h n List.mem_cons_self none cursor
    have hrest := fun cursor => @ih cursor fun m hm => h m (List.mem_cons_of_mem _ hm)
    rw [convertRows]
    dsimp only
    split
    · refine plain_cons ho (plain_cons (fun p hp => ?_) (hrest _))
      rw [(piece_controlRow src _ p hp).2]
      trivial
    · exact plain_cons ho (hrest _)

end Plain

theorem plain_convertNode (src : Source) (n : Node) (marker : Option UInt8) (cursor : Nat) :
    ∀ p ∈ (convertNode src marker n cursor).piece, p.below.Plain := by
  induction n using Node.of_children generalizing marker cursor with
  | h n ih =>
    intro p hp
    cases hplace : n.kind.isPlaceless with
    | true =>
      rw [piece_convertNode hplace] at hp
      cases hp
    | false =>
      obtain ⟨segment, before, after, hpiece, hbefore, hafter⟩ :=
        wraps_convertNode hplace marker cursor
      have hcontent : (if n.convertsBelow src then (convertBelow src n cursor).entries
          else .nil).Plain := by
        split
        · unfold convertBelow
          split
          · exact plain_convertRows ih
          · exact plain_convertAll ih _
        · trivial
      rw [hpiece] at hp
      cases hp
      exact Forest.plain_append hbefore.plain (Forest.plain_append hcontent hafter.plain)

/-- The outcome for a node shows the node and what is below it. -/
def Outcome.Shows (src : Source) (n : Node) (o : Outcome) : Prop :=
  if n.kind.isPlaceless then o.piece = none
  else ∃ p, o.piece = some p ∧ p.type = n.kind.nodeType src ∧
    p.below.skeleton Shape.type p.type = n.outline src

theorem Kind.nodeType_ne_tableControlCell (src : Source) (kind : Kind) :
    kind.nodeType src ≠ .tableControlCell := by
  unfold Kind.nodeType
  repeat' split
  all_goals decide

theorem Kind.holdsText_nodeType (src : Source) {kind : Kind} (h : kind.isLeaf = false) :
    (kind.nodeType src).holdsText = false := by
  cases kind with
  | emphasis level =>
    simp only [nodeType]
    split <;> rfl
  | document | paragraph | textBlock | heading | blockquote | list | listItem | table | tableHeader
  | tableRow | tableCell | otherBlock | codeSpan | strikethrough | link | image | otherInline => rfl
  | _ => cases h

/-- A node that is shown is not made up, unless its parent holds text only. -/
theorem skeleton_cons {o : Outcome} {n : Node} (ho : o.Shows src n) {parent : NodeType}
    (hp : parent.holdsText = false) {rest : Conversion} {nodes : List Node}
    (hrest : rest.entries.skeleton Shape.type parent = outlines src nodes) :
    (Conversion.cons o rest).entries.skeleton Shape.type parent = outlines src (n :: nodes) := by
  rw [outlines]
  unfold Outcome.Shows at ho
  split at ho
  · rename_i hplace
    rw [cons_of_none ho, hrest, if_pos hplace]
  · rename_i hplace
    obtain ⟨p, hpiece, htype, hbelow⟩ := ho
    have hslot : Slot.children.isDerived = false := by decide
    have hsynthesized : isSynthesized parent .children p.type = false := by
      simp [isSynthesized, hslot, hp, htype, Kind.nodeType_ne_tableControlCell]
    rw [cons_of_some hpiece, Forest.skeleton, hsynthesized, hrest, hbelow, htype, if_neg hplace]
    rfl

theorem skeleton_cons_controlRow (o : Outcome) (parent : NodeType) (rest : Conversion) :
    (Conversion.cons (controlRow src o) rest).entries.skeleton Shape.type parent =
      rest.entries.skeleton Shape.type parent := by
  cases hp : (controlRow src o).piece with
  | none => rw [cons_of_none hp]
  | some p =>
    have hsynthesized : isSynthesized parent .children p.type = true := by
      simp [isSynthesized, (piece_controlRow src o p hp).1]
    rw [cons_of_some hp, Forest.skeleton, hsynthesized]
    rfl

section Skeleton

variable {nodes : List Node} (h : ∀ n ∈ nodes, ∀ marker cursor,
  (convertNode src marker n cursor).Shows src n) {parent : NodeType}
include h

theorem skeleton_convertAll (hp : parent.holdsText = false) (marker : Option UInt8) :
    (convertAll src marker nodes cursor).entries.skeleton Shape.type parent =
      outlines src nodes := by
  induction nodes generalizing cursor with
  | nil => rfl
  | cons n rest ih =>
    rw [convertAll]
    exact skeleton_cons (h n List.mem_cons_self marker cursor) hp
      (ih fun m hm => h m (List.mem_cons_of_mem _ hm))

theorem skeleton_convertRows (hp : parent.holdsText = false) :
    (convertRows src nodes cursor).entries.skeleton Shape.type parent = outlines src nodes := by
  induction nodes generalizing cursor with
  | nil => rfl
  | cons n rest ih =>
    have ho := h n List.mem_cons_self none cursor
    have hrest := fun cursor => @ih cursor fun m hm => h m (List.mem_cons_of_mem _ hm)
    rw [convertRows]
    dsimp only
    split
    · exact skeleton_cons ho hp (by rw [skeleton_cons_controlRow, hrest])
    · exact skeleton_cons ho hp (hrest _)

end Skeleton

/-- The nodes below a node are shown, also where a leaf kind takes another way. -/
theorem Outcome.Wraps.shows {o : Outcome} {n : Node} {content : Forest Shape}
    (h : o.Wraps (n.kind.nodeType src) content) (hplace : n.kind.isPlaceless = false)
    (hcontent : content.skeleton Shape.type (n.kind.nodeType src) = n.outline src) :
    o.Shows src n := by
  obtain ⟨segment, before, after, hpiece, hbefore, hafter⟩ := h
  rw [Outcome.Shows, hplace]
  refine ⟨_, hpiece, rfl, ?_⟩
  simp only [Forest.skeleton_append, hbefore.skeleton_eq, hafter.skeleton_eq, hcontent]
  exact Forest.append_nil _

theorem Node.outline_eq (src : Source) (n : Node) : n.outline src = outlines src n.children := by
  cases n
  rfl

theorem shows_convertNode {n : Node} (hn : n.Everywhere Node.Closed) (marker : Option UInt8)
    (cursor : Nat) : (convertNode src marker n cursor).Shows src n := by
  induction n using Node.of_children generalizing marker cursor with
  | h n ih =>
    cases hplace : n.kind.isPlaceless with
    | true =>
      rw [Outcome.Shows, if_pos hplace]
      exact piece_convertNode hplace marker
    | false =>
      refine (wraps_convertNode hplace marker cursor).shows hplace ?_
      rw [Node.outline_eq]
      cases hopen : n.convertsBelow src with
      | false =>
        -- there is nothing below a leaf, so nothing is lost where it is left out
        rw [hn.here (Node.isLeaf_of_not_convertsBelow hopen)]
        rfl
      | true =>
        have hbelow := fun m hm => ih m hm (hn.children m hm)
        rw [if_pos rfl]
        cases hleaf : n.kind.isLeaf with
        | true =>
          unfold convertBelow
          rw [hn.here hleaf]
          split <;> rfl
        | false =>
          have htext := Kind.holdsText_nodeType src hleaf
          unfold convertBelow
          split
          · exact skeleton_convertRows hbelow htext
          · exact skeleton_convertAll hbelow htext _

end Sequences

/-! ## Converted trees -/

theorem plain_convert (src : Source) (document : Node) :
    (convertAll src none document.children 0).entries.Plain :=
  plain_convertAll (fun n _ => plain_convertNode src n) none

/-- The tree of a document whose leaves are closed has the shape of the document, with nothing lost,
doubled or moved. -/
theorem convert_skeleton (src : Source) (document : Node) (h : document.Everywhere Node.Closed) :
    (convert src document).1.skeleton = some (.file, outlines src document.children) := by
  rw [Tree.skeleton, convert, Forest.unfold_toTree (plain_convert src document)]
  simp only [Option.map_some, Forest.skeleton_number]
  rw [skeleton_convertAll (fun n hn => shows_convertNode (h.children n hn)) rfl]
  rfl

theorem Node.everywhere_mk_iff {P : Node → Prop} {kind : Kind} {lines : List Segment}
    {children : List Node} :
    (Node.mk kind lines children).Everywhere P ↔
      P (.mk kind lines children) ∧ ∀ n ∈ children, n.Everywhere P :=
  ⟨fun h => ⟨h.here, h.children⟩, fun h => .mk h.1 h.2⟩

def mixedSource : Source :=
  (utf8 "[a](u) $x$ !M\x7bk: v\x7d\n~~~MaTh\n1\n~~~\n|h|\n|-|\n").toArray

/-- A link, nodes without a place, forms with made up text, fences of both sorts and a table. -/
def mixedDocument : Node :=
  .mk .document []
    [.mk .paragraph [⟨0, 20⟩]
      [.mk (.link (utf8 "u")) [] [.text ⟨1, 2⟩], .leaf .string, .leaf (.formula ⟨7, 10⟩),
        .leaf (.rawHtml []),
        .leaf (.directive ⟨⟨11, 19⟩, ⟨12, 13⟩, none, [⟨⟨14, 15⟩, ⟨17, 18⟩⟩], none⟩)],
     .mk (.fencedCode (some ⟨23, 27⟩)) [⟨28, 30⟩] [], .mk (.fencedCode none) [] [],
     .mk .table [] [.mk .tableHeader [] [.mk .tableCell [] [.text ⟨35, 36⟩]]]]

/-- Seven of the nineteen nodes are made up. -/
theorem convert_skeleton_mixed :
    mixedDocument.Everywhere Node.Closed ∧ (convert mixedSource mixedDocument).1.size = 19 ∧
    (convert mixedSource mixedDocument).1.skeleton = some (.file,
      outlined .paragraph
        (outlined .link (outlined .text .nil .nil)
          (outlined .formulaSpan .nil (outlined .opCode .nil .nil)))
        (outlined .formula .nil (outlined .code .nil
          (outlined .table (outlined .tableRow
            (outlined .tableCell (outlined .text .nil .nil) .nil) .nil) .nil)))) := by
  have hclosed : mixedDocument.Everywhere Node.Closed := by
    simp [mixedDocument, Node.leaf, Node.text, Node.everywhere_mk_iff, Node.Closed, Node.kind,
      Node.children, Kind.isLeaf]
  refine ⟨hclosed, by decide +kernel, ?_⟩
  rw [convert_skeleton mixedSource mixedDocument hclosed]
  rfl

end DocTokens.Markdown
