import DocTokens.Proofs.CallOrder
import DocTokens.Proofs.Markdown.Building
import DocTokens.Proofs.Markdown.Structure
import DocTokens.Proofs.Stopping

/-! # What the calls of a conversion build

Every node hangs from the node it was added for and is attached once, in the order of the forest
that the conversion gives. So the calls for a node amount to its outcome, the calls for a document
build its tree, and that tree is numbered in pre-order.
-/

namespace DocTokens.Markdown

/-- The entries of a conversion below a node, all at once. -/
def Conversion.addTo (inner : Conversion) (parent : NodeId) (c : Building) : Building :=
  ⟨inner.entries.addTo parent c.builder, inner.cursor, c.diagnostics ++ inner.diagnostics⟩

/-- The node of an outcome with what is below it, all at once. -/
def Outcome.addTo (o : Outcome) (parent : NodeId) (c : Building) : NodeId × Building :=
  match o.piece with
  | none => (NodeId.none, ⟨c.builder, o.cursor, c.diagnostics ++ o.diagnostics⟩)
  | some p =>
    (c.next, ⟨p.below.addTo c.next (c.builder.addChild parent p.type p.segment.toSpan), o.cursor,
      c.diagnostics ++ o.diagnostics⟩)

namespace Building

/-- The calls for children that are made at a cursor amount to a conversion, and the nodes they
answer have the segments of the conversion. -/
structure Builds (below : Below) (inner : Conversion) (cursor : Nat) : Prop where
  state : ∀ id c, c.cursor = cursor → (below id c).2 = inner.addTo id c
  spans : ∀ id c, c.cursor = cursor →
    (below id c).1.map (inner.addTo id c).builder.span = inner.segments.map Segment.toSpan

section Kinds

variable {src : Source} {below : Below} {parent : NodeId} {c : Building} {inner : Conversion}

theorem addTo_leafAt (type : NodeType) (s : Segment) (f : Forest Shape) :
    (leafAt src c.cursor type s f).addTo parent c =
      (c.next, ⟨f.addTo c.next (c.builder.addChild parent type s.toSpan),
        Markdown.advance src c.cursor s.stop, c.diagnostics⟩) := by
  simp only [Outcome.addTo, leafAt, List.append_nil]

theorem leaf_eq (type : NodeType) (s : Segment) :
    leaf src parent c type s = (leafAt src c.cursor type s .nil).addTo parent c := by
  rw [addTo_leafAt]
  rfl

section Containers

variable (h : Builds below inner c.cursor)
include h

theorem containerAt_eq (type : NodeType) (s : Segment) :
    containerAt src below parent c type s =
      (Markdown.containerAt src type s inner).addTo parent c := by
  simp only [containerAt, h.state c.next (c.addChild parent type s) rfl]
  rfl

theorem container_eq (type : NodeType) (extent : Option Segment) :
    container src below parent c type extent =
      (Markdown.container src type extent c.cursor inner).addTo parent c :=
  containerAt_eq h type _

theorem heading_eq (lines : List Segment) (extent : Option Segment) :
    heading src below parent c lines extent =
      (Markdown.heading src lines extent c.cursor inner).addTo parent c := by
  unfold heading Markdown.heading
  cases firstToLast? lines with
  | none => exact container_eq h .heading extent
  | some s => exact containerAt_eq h .heading _

theorem blockquote_eq (extent : Option Segment) :
    blockquote src below parent c extent =
      (Markdown.blockquote src extent c.cursor inner).addTo parent c := by
  cases extent with
  | none => exact container_eq h .blockquote none
  | some s => exact containerAt_eq h .blockquote _

theorem fencedCode_eq (info : Option Segment) (lines : List Segment) (extent : Option Segment) :
    fencedCode src below parent c info lines extent =
      (Markdown.fencedCode src info lines extent c.cursor inner).addTo parent c := by
  unfold fencedCode Markdown.fencedCode
  cases fenceStart? src info lines with
  | none => exact container_eq h .code extent
  | some start =>
    dsimp only
    rw [addTo_leafAt]
    cases info with
    | none => cases firstToLast? lines <;> rfl
    | some i =>
      cases firstToLast? lines with
      | none =>
        dsimp only
        split <;> rfl
      | some b =>
        dsimp only
        split <;> rfl

theorem indentedCode_eq (lines : List Segment) (extent : Option Segment) :
    indentedCode src below parent c lines extent =
      (Markdown.indentedCode src lines extent c.cursor inner).addTo parent c := by
  unfold indentedCode Markdown.indentedCode
  cases firstToLast? lines with
  | none => exact container_eq h .code extent
  | some s =>
    dsimp only
    rw [addTo_leafAt]
    rfl

theorem listItem_eq (marker : Option UInt8) (extent : Option Segment) :
    listItem src below parent c marker extent =
      (Markdown.listItem src marker extent c.cursor inner).addTo parent c := by
  cases extent with
  | none => exact container_eq h .listItem none
  | some s =>
    cases marker with
    | none => exact container_eq h .listItem (some s)
    | some m =>
      simp only [listItem, Markdown.listItem, Option.bind_some]
      cases listMarker? src m (src.lineStart s.start) with
      | none => exact container_eq h .listItem (some s)
      | some bullet =>
        dsimp only
        by_cases hafter : s.start < bullet.stop
        · rw [Option.filter_some_neg (by simpa using hafter), if_pos hafter]
          exact container_eq h .listItem (some s)
        · rw [Option.filter_some_pos (by simpa using hafter), if_neg hafter, h.state c.next]
          · rfl
          · rfl

theorem link_eq (type : NodeType) (destination : Bytes) (content : Option Segment) :
    link src below parent c type destination content =
      (Markdown.link src type destination content c.cursor inner).addTo parent c := by
  unfold link Markdown.link
  extract_lets parts id c₁ c₂ c₃ parts' target warnings
  have hbelow : c₂ = inner.addTo id c₁ := h.state id c₁ rfl
  have htarget : c₃ = ⟨(inner.entries ++ target).addTo id c₁.builder, inner.cursor,
      c.diagnostics ++ (inner.diagnostics ++ warnings)⟩ := by
    have hparts : parts' = parts := rfl
    rw [Forest.addTo_append, ← List.append_assoc]
    simp only [c₃, hbelow, target, warnings, hparts]
    cases hempty : destination.isEmpty with
    | true => rfl
    | false =>
      rw [if_neg Bool.false_ne_true, if_neg Bool.false_ne_true, if_neg Bool.false_ne_true,
        List.append_nil]
      cases parts.href <;> rfl
  rw [htarget]
  rfl

/-- The span of a node is set when its children are there, and then it is as if it had been there
from the start. -/
theorem setSpan_eq (type : NodeType) (s s' : Segment) :
    ((below c.next (c.addChild parent type s)).2).call (.setSpan c.next s'.toSpan) =
      inner.addTo c.next (c.addChild parent type s') := by
  rw [h.state c.next (c.addChild parent type s) rfl]
  have hset : (inner.entries.addTo c.next
      (c.builder.addSlot parent .children type s.toSpan)).setSpan c.builder.nextId s'.toSpan =
      inner.entries.addTo c.next (c.builder.addSlot parent .children type s'.toSpan) := by
    rw [Forest.setSpan_addTo Builder.valid_addSlot, Builder.setSpan_new]
  exact congrArg (fun b : Builder => (⟨b, inner.cursor, c.diagnostics ++ inner.diagnostics⟩ :
    Building)) hset

/-- The nodes that are answered for children lie where the conversion puts them. -/
theorem around?_eq (parent : NodeId) (type : NodeType) (s : Segment) :
    (below c.next (c.addChild parent type s)).2.around?
      (below c.next (c.addChild parent type s)).1 =
        (firstToLast? inner.segments).map Segment.toSpan := by
  have hspans := h.spans c.next (c.addChild parent type s) rfl
  rw [← h.state c.next (c.addChild parent type s) rfl] at hspans
  generalize below c.next (c.addChild parent type s) = r at hspans ⊢
  obtain ⟨ids, c'⟩ := r
  cases ids with
  | nil =>
    have hnil : inner.segments = [] := List.map_eq_nil_iff.mp hspans.symm
    rw [hnil]
    rfl
  | cons id rest =>
    cases hsegments : inner.segments with
    | nil =>
      rw [hsegments] at hspans
      cases hspans
    | cons first more =>
      rw [hsegments] at hspans
      have hfirst := congrArg List.head? hspans
      have hlast := congrArg List.getLast? hspans
      simp only [List.head?_map, List.getLast?_map, List.head?_cons, List.getLast?_cons,
        Option.map_some, Option.some.injEq] at hfirst hlast
      simp only [around?, firstToLast?, List.head?_cons, List.getLast?_cons, Option.map_some,
        hfirst, hlast]
      rfl

theorem list_eq : list below parent c = (Markdown.list c.cursor inner).addTo parent c := by
  have haround := around?_eq h parent .list c.here
  unfold list Markdown.list
  dsimp only
  rw [haround]
  cases firstToLast? inner.segments with
  | none =>
    rw [h.state c.next]
    · rfl
    · rfl
  | some s =>
    dsimp only [Option.map_some]
    rw [setSpan_eq h]
    rfl

theorem table_eq :
    table src below parent c = (Markdown.table src c.cursor inner).addTo parent c := by
  have haround := around?_eq h parent .table c.here
  unfold table Markdown.table
  dsimp only
  rw [haround]
  cases firstToLast? inner.segments with
  | none =>
    rw [h.state c.next]
    · rfl
    · rfl
  | some s =>
    dsimp only [Option.map_some]
    rw [setSpan_eq h]
    rfl

end Containers

theorem thematicBreak_eq :
    thematicBreak src parent c = (Markdown.thematicBreak src c.cursor).addTo parent c := by
  unfold thematicBreak Markdown.thematicBreak
  extract_lets p
  cases breakLine? src (src.size + 1 - p) p with
  | none => exact leaf_eq .hr c.here
  | some s => exact leaf_eq .hr s

theorem htmlBlock_eq (type : Nat) (closure : Option Segment) (lines : List Segment) :
    htmlBlock src parent c type closure lines =
      (Markdown.htmlBlock src type closure lines c.cursor).addTo parent c := by
  unfold htmlBlock Markdown.htmlBlock
  cases firstToLast? lines <;> cases closure <;> exact leaf_eq _ _

theorem rawHtml_eq (segments : List Segment) :
    rawHtml src parent c segments =
      (Markdown.rawHtml src segments c.cursor).addTo parent c := by
  unfold rawHtml Markdown.rawHtml
  cases firstToLast? segments with
  | none => simp only [Outcome.addTo, List.append_nil]
  | some s => exact leaf_eq _ s

theorem autoLink_eq (label : Segment) (protocol : Option Bytes) :
    autoLink src parent c label protocol =
      (Markdown.autoLink src label protocol c.cursor).addTo parent c := by
  unfold autoLink Markdown.autoLink
  extract_lets text found?
  cases found? with
  | none =>
    dsimp only
    rw [addTo_leafAt]
    rfl
  | some n =>
    dsimp only
    rw [addTo_leafAt]
    rfl

/-- Adding a key and attaching it afterwards is putting it in its place. -/
theorem addKeys_eq (id : NodeId) (keys : List KeyEntry) (c : Building) :
    addKeys src id keys c = { c with builder := (keyEntries src keys).addTo id c.builder } := by
  induction keys generalizing c with
  | nil => rfl
  | cons entry rest ih =>
    rw [addKeys, keyEntries, ih]
    cases entry.value.isEmpty <;> rfl

theorem directive_eq (d : Directive) :
    directive src parent c d = (Markdown.directive src d c.cursor).addTo parent c := by
  unfold directive Markdown.directive
  dsimp only
  rw [addKeys_eq]
  cases d.unclosed.filter fun u => !u.isEmpty with
  | none =>
    simp only [Outcome.addTo, leafAt, List.append_nil]
    cases d.label <;> rfl
  | some u => cases d.label <;> rfl

theorem delimited_eq (type : NodeType) (s : Segment) (width : Nat) :
    delimited src parent c type s width =
      (Markdown.delimited src type s width c.cursor).addTo parent c := by
  unfold Markdown.delimited
  rw [addTo_leafAt]
  rfl

/-- What is called for a node amounts to its outcome when what is called for its children amounts to
theirs. -/
theorem kind_eq (h : Builds below inner c.cursor) (marker : Option UInt8) (n : Node) :
    kind src marker n below parent c =
      (convertKind src marker n c.cursor inner).addTo parent c := by
  unfold kind convertKind
  cases n.kind with
  | text s => exact leaf_eq .text s
  | string => simp only [Outcome.addTo, List.append_nil]
  | paragraph | textBlock => exact containerAt_eq h .paragraph _
  | heading => exact heading_eq h n.lines _
  | blockquote => exact blockquote_eq h _
  | emphasis level => exact container_eq h _ _
  | strikethrough => exact container_eq h .del _
  | codeSpan => exact container_eq h .codeSpan _
  | fencedCode info => exact fencedCode_eq h info n.lines _
  | codeBlock => exact indentedCode_eq h n.lines _
  | thematicBreak => exact thematicBreak_eq
  | htmlBlock type closure => exact htmlBlock_eq type closure n.lines
  | rawHtml segments => exact rawHtml_eq segments
  | list => exact list_eq h
  | listItem => exact listItem_eq h marker _
  | link destination => exact link_eq h .link destination _
  | image destination => exact link_eq h .image destination _
  | autoLink label protocol => exact autoLink_eq label protocol
  | tableHeader | tableRow => exact container_eq h .tableRow _
  | tableCell => exact container_eq h .tableCell _
  | directive d => exact directive_eq d
  | formula s => exact delimited_eq .formulaSpan s 1
  | underline s => exact delimited_eq .underline s 2
  | spacing s thin => exact leaf_eq _ s
  | latex s => exact leaf_eq .latexSpan s
  | document | table | otherBlock | otherInline => exact container_eq h .unknown _

end Kinds

/-! ## Nodes one after another -/

/-- The node of an outcome, and others after it. -/
def after (o : Outcome) (below : Below) : Below := fun parent c =>
  let (id, c) := o.addTo parent c
  let (ids, c) := below parent c
  (if id = NodeId.none then ids else id :: ids, c)

section Sequences

variable {src : Source} {below : Below} {parent : NodeId} {c : Building} {inner : Conversion}
  {cursor : Nat} {o : Outcome} {p : Piece}

theorem next_ne_none (c : Building) : c.next ≠ NodeId.none := c.builder.nextId_ne_none

theorem cursor_addTo : (o.addTo parent c).2.cursor = o.cursor := by
  unfold Outcome.addTo
  split <;> rfl

theorem addTo_cons (rest : Conversion) :
    (Conversion.cons o rest).addTo parent c = rest.addTo parent (o.addTo parent c).2 := by
  unfold Conversion.cons Outcome.addTo Conversion.addTo
  cases o.piece with
  | none => simp only [List.append_assoc]
  | some p =>
    simp only [List.append_assoc]
    rfl

theorem addTo_of_some (h : o.piece = some p) :
    o.addTo parent c = (c.next, ⟨p.below.addTo c.next (c.builder.addSlot parent .children p.type
      p.segment.toSpan), o.cursor, c.diagnostics ++ o.diagnostics⟩) := by
  simp only [Outcome.addTo, h]
  rfl

theorem addTo_nothing (h : c.cursor = cursor) :
    (⟨none, cursor, []⟩ : Outcome).addTo parent c = (NodeId.none, c) := by
  subst h
  simp only [Outcome.addTo, List.append_nil]

theorem after_of_none (h : o.piece = none) :
    after o below parent c = below parent (o.addTo parent c).2 := by
  have hid : (o.addTo parent c).1 = NodeId.none := by simp only [Outcome.addTo, h]
  simp only [after, hid, if_true]

theorem after_of_some (h : o.piece = some p) :
    after o below parent c =
      (c.next :: (below parent (o.addTo parent c).2).1, (below parent (o.addTo parent c).2).2) := by
  have hid : (o.addTo parent c).1 = c.next := by rw [addTo_of_some h]
  simp only [after, hid, if_neg c.next_ne_none]

/-- The node of an outcome has its span, whatever is added later. -/
theorem span_addTo (h : o.piece = some p) (rest : Conversion) :
    (rest.addTo parent (o.addTo parent c).2).builder.span c.next = p.segment.toSpan := by
  rw [addTo_of_some h]
  have hgrows := (Forest.grows_addTo p.below c.next
    (c.builder.addSlot parent .children p.type p.segment.toSpan)).trans
      (Forest.grows_addTo rest.entries parent _)
  exact (hgrows c.next Builder.valid_addSlot).2.trans Builder.span_addSlot

theorem Builds.after (h : Builds below inner o.cursor) (cursor : Nat) :
    Builds (after o below) (.cons o inner) cursor where
  state := by
    intro parent c _
    rw [addTo_cons]
    exact h.state parent _ cursor_addTo
  spans := by
    intro parent c _
    have hrest := h.spans parent (o.addTo parent c).2 cursor_addTo
    rw [addTo_cons]
    cases hp : o.piece with
    | none =>
      rw [after_of_none hp, hrest]
      simp only [Conversion.cons, hp]
    | some p =>
      rw [after_of_some hp, List.map_cons, hrest, span_addTo hp]
      simp only [Conversion.cons, hp, List.map_cons]

theorem Builds.congr {below' : Below} (h : Builds below inner cursor)
    (heq : ∀ parent c, c.cursor = cursor → below' parent c = below parent c) :
    Builds below' inner cursor where
  state parent c hc := by rw [heq parent c hc, h.state parent c hc]
  spans parent c hc := by rw [heq parent c hc, h.spans parent c hc]

theorem builds_nothing (cursor : Nat) : Builds (fun _ c => ([], c)) (.empty cursor) cursor where
  state parent c hc := by
    simp only [Conversion.addTo, Conversion.empty, List.append_nil, ← hc]
    rfl
  spans parent c _ := rfl

end Sequences

section Nodes

variable {src : Source} {nodes : List Node} (h : ∀ n ∈ nodes, ∀ marker parent c,
  node src marker n parent c = (convertNode src marker n c.cursor).addTo parent c)
include h

theorem builds_all (marker : Option UInt8) (cursor : Nat) :
    Builds (all src marker nodes) (convertAll src marker nodes cursor) cursor := by
  induction nodes generalizing cursor with
  | nil => exact builds_nothing cursor
  | cons n rest ih =>
    have hrest := ih (fun m hm => h m (List.mem_cons_of_mem _ hm))
      (convertNode src marker n cursor).cursor
    refine (hrest.after cursor).congr ?_
    intro parent c hc
    subst hc
    rw [all, h n List.mem_cons_self]
    rfl

/-- What comes right after a row: the cell for the line after a header row, or nothing. -/
def control (src : Source) (n : Node) (o : Outcome) : Outcome :=
  if n.kind = .tableHeader then controlRow src o else ⟨none, o.cursor, []⟩

omit h in
theorem convertRows_cons (src : Source) (n : Node) (rest : List Node) (cursor : Nat) :
    let o := convertNode src none n cursor
    let k := control src n o
    convertRows src (n :: rest) cursor = .cons o (.cons k (convertRows src rest k.cursor)) := by
  intro o k
  rw [convertRows]
  by_cases hkind : n.kind = .tableHeader
  · simp only [k, control, if_pos hkind, o]
  · simp only [k, control, if_neg hkind, o]
    rfl

theorem builds_rows (cursor : Nat) :
    Builds (rows src nodes) (convertRows src nodes cursor) cursor := by
  induction nodes generalizing cursor with
  | nil => exact builds_nothing cursor
  | cons n rest ih =>
    have hrest := ih fun m hm => h m (List.mem_cons_of_mem _ hm)
    rw [convertRows_cons]
    refine (((hrest _).after _).after cursor).congr ?_
    intro parent c hc
    subst hc
    rw [rows, h n List.mem_cons_self]
    generalize convertNode src none n c.cursor = o
    have hcursor : (o.addTo parent c).2.cursor = o.cursor := cursor_addTo
    cases hp : o.piece with
    | none =>
      have hid : (o.addTo parent c).1 = NodeId.none := by simp only [Outcome.addTo, hp]
      have hcontrol : control src n o = ⟨none, o.cursor, []⟩ := by
        simp only [control, controlRow, hp, ite_self]
      rw [hcontrol, after_of_none hp, after_of_none rfl, addTo_nothing hcursor]
      simp only [hid, if_true]
    | some p =>
      have hid : (o.addTo parent c).1 = c.next := by rw [addTo_of_some hp]
      have hstop : ((o.addTo parent c).2.builder.span c.next).stop.toNat = p.segment.stop :=
        congrArg (fun s : Span => s.stop.toNat) (span_addTo hp (.empty o.cursor))
      rw [after_of_some hp]
      simp only [hid, if_neg c.next_ne_none, hstop]
      by_cases hnext : n.kind = .tableHeader ∧ src.lineEnd p.segment.stop + 1 ≤ src.size
      · have hcontrol : control src n o = leafAt src o.cursor .tableControlCell
            ⟨src.lineEnd p.segment.stop + 1, src.trimReturn (src.lineEnd p.segment.stop + 1)
              (src.lineEnd (src.lineEnd p.segment.stop + 1))⟩ .nil := by
          simp only [control, controlRow, hp, if_pos hnext.1, if_pos hnext.2]
        rw [hcontrol, after_of_some rfl, ← hcursor, ← leaf_eq]
        simp only [if_pos hnext]
        rfl
      · have hcontrol : control src n o = ⟨none, o.cursor, []⟩ := by
          simp only [control, controlRow, hp]
          by_cases hkind : n.kind = .tableHeader
          · rw [if_pos hkind, if_neg fun hle => hnext ⟨hkind, hle⟩]
          · rw [if_neg hkind]
        rw [hcontrol, after_of_none rfl, addTo_nothing hcursor]
        simp only [if_neg hnext]

end Nodes

theorem node_eq (src : Source) (n : Node) (marker : Option UInt8) (parent : NodeId)
    (c : Building) :
    node src marker n parent c = (convertNode src marker n c.cursor).addTo parent c := by
  induction n using Node.of_children generalizing marker parent c with
  | h n ih =>
    obtain ⟨k, lines, children⟩ := n
    by_cases hk : k = .table
    · subst hk
      rw [node, convertNode]
      exact table_eq (builds_rows ih _)
    · rw [node, convertNode]
      · exact kind_eq (builds_all ih _ _) marker _
      · exact hk
      · exact hk

/-- The calls for a document build its tree. -/
theorem convert_eq (src : Source) (document : Node) :
    convert src document = Markdown.convert src document := by
  have h : Builds (all src none document.children) (convertAll src none document.children 0) 0 :=
    builds_all (fun n _ => node_eq src n) none 0
  unfold convert Markdown.convert
  dsimp only
  rw [h.state]
  · rfl
  · rfl

end Building

/-- The calls for a document build its tree, and the tree is numbered in pre-order, with the whole
source at its root. Every node can be reached, and a walk visits the numbers one after another. -/
theorem convert_inPreorder (src : Source) (document : Node) :
    Building.convert src document = convert src document ∧
    let t := (Building.convert src document).1
    (∃ fields, t.node? 0 = some ⟨0, .file, ⟨0, src.size⟩, NodeId.none, fields⟩) ∧
    t.InPreorder ∧
    (∀ id n, t.node? id = some n → t.Reachable id) ∧
    ∀ interval,
      t.walk interval (fun id ids => (.ok (ids ++ [id]) : Except Empty (List NodeId))) .never [] =
        ⟨t.size, .ok ((List.range t.size).map Int.ofNat), .never⟩ := by
  rw [Building.convert_eq]
  refine ⟨rfl, ?_⟩
  intro t
  have hplain := plain_convert src document
  have horder : t.visitOrder = (List.range t.size).map Int.ofNat :=
    (Tree.orderFrom_root (Forest.numbered_toTree _ _)).trans (Forest.preorderIds_toTree hplain _)
  refine ⟨⟨_, Forest.node?_toTree_zero _ _⟩, Forest.inPreorder_toTree hplain _, ?_, ?_⟩
  · intro id n hn
    rw [← Tree.mem_orderFrom_root_iff]
    change id ∈ t.visitOrder
    rw [horder]
    obtain ⟨hlt, _⟩ := Array.getElem?_eq_some_iff.mp (Tree.getElem?_nodes hn)
    refine List.mem_map.mpr ⟨id.toNat, List.mem_range.mpr hlt, ?_⟩
    exact Int.toNat_of_nonneg (Tree.nonneg_of_node? hn)
  · intro interval
    rw [Tree.walk_record, horder, List.length_map, List.length_range]

end DocTokens.Markdown
