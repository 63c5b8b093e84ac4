import DocTokens.Proofs.Markdown.Ends
import DocTokens.Proofs.Markdown.SourceLines

/-! # Lines of delimiters

Conversion finds the ends of a line by looking for line feeds on both sides of an offset; an index
of the lines of the text knows them from the lengths of the lines. Both give the same lines. So the
line of delimiters that follows the header row of a table is the next line of the index, and is
there exactly when the line on which the row ends has a line feed.
-/

namespace DocTokens

namespace Bytes

/-- A line without one carriage return at its end. -/
def withoutReturn (line : Bytes) : Bytes :=
  if line.getLast? = some (ascii '\r') then line.dropLast else line

end Bytes

namespace Source

/-- An index of the lines of the source puts the offset on line `l`, counted from zero, with the
given text. -/
def OnLine (src : Source) (pos l : Nat) (line : Bytes) : Prop :=
  (∃ c : Nat, (LineIndex.ofBytes src.toList).locate pos = .ok ⟨(l + 1 : Nat), c + 1⟩) ∧
    (LineIndex.ofBytes src.toList).line l = .ok line

variable {src : Source} {pos o c : Nat} {before after rest : List Bytes} {line next : Bytes}

/-! ## Lines of an index -/

section Lines

variable (h : LineAt (Bytes.splitAt newline src.toList) o before line after c)
include h

theorem onLine_of_lineAt : src.OnLine o before.length line :=
  ⟨⟨c, LineIndex.locate_of_lineAt h⟩, LineIndex.line_eq h.lines_eq⟩

theorem lineOf_of_lineAt :
    src.lineOf o = ⟨(LineIndex.ofBytes src.toList).lineStart before.length,
      (LineIndex.ofBytes src.toList).lineStart before.length + line.length⟩ := by
  have hoffset := h.offset_eq
  have hcolumn := h.column_le
  have hstart : o - c = (terminated before).length := by omega
  have hline := isLine_of_lineAt h
  rw [hline.lineOf_eq ⟨Nat.sub_le _ _, by simp only; omega⟩, LineIndex.lineStart_eq h.lines_eq,
    hstart]

theorem lineNumber_of_lineAt : src.lineNumber o = before.length := by
  obtain ⟨hbefore, hline⟩ := LineIndex.not_newline_of_lineAt h
  have hfront : newline ∉ line.take c := fun hmem => hline (List.mem_of_mem_take hmem)
  rw [lineNumber, LineIndex.take_of_lineAt h, List.count_append, count_terminated hbefore,
    List.count_eq_zero_of_not_mem hfront, Nat.add_zero]

/-- A line has a line feed unless it is the last. -/
theorem terminated_iff_of_lineAt : src[src.lineEnd o]? = some newline ↔ after ≠ [] := by
  have hend : src.lineEnd o = (terminated before).length + line.length := by
    have hstop := congrArg Segment.stop (lineOf_of_lineAt h)
    rwa [LineIndex.lineStart_eq h.lines_eq] at hstop
  have hlast : LineAt (Bytes.splitAt newline src.toList) (src.lineEnd o) before line after
      line.length := ⟨h.lines_eq, Nat.le_refl _, hend⟩
  cases after with
  | nil =>
    have htext := congrArg List.length hlast.text_eq
    rw [Bytes.intercalate_splitAt, Array.length_toList, lineTail, List.append_nil,
      List.length_append] at htext
    simp [hend, htext]
  | cons next after =>
    have hbreak := hlast.getElem?_of_eq rfl
    rw [Bytes.intercalate_splitAt, Array.getElem?_toList] at hbreak
    simp [hbreak]

/-- Dropping a carriage return from the end of a line. -/
theorem trimReturn_of_lineAt (hc : c = 0) :
    src.trimReturn o (o + line.length) = o + line.withoutReturn.length := by
  subst hc
  rcases List.eq_nil_or_concat line with rfl | ⟨front, last, rfl⟩
  · simp [trimReturn, Bytes.withoutReturn]
  · have hbyte : src[o + front.length]? = some last := by
      have hend := (h.move (n := front.length) (by simp)).getElem?_of_lt (by simp)
      rw [Bytes.intercalate_splitAt, Array.getElem?_toList] at hend
      simpa using hend
    have hstop : o + (front.concat last).length = o + front.length + 1 := by simp [Nat.add_assoc]
    have hreturn : src.at? (o + front.length) (· == ascii '\r') = (last == ascii '\r') := by
      rw [at?, hbyte]
    have hstart : decide (o < o + front.length + 1) = true := decide_eq_true (by omega)
    rw [hstop, trimReturn, Nat.add_sub_cancel, hreturn, hstart, Bool.true_and, Bytes.withoutReturn]
    by_cases hlast : last = ascii '\r'
    · simp [hlast]
    · simp [hlast, Nat.add_assoc]

/-- The line after another one. -/
theorem lineAt_next (hafter : after = next :: rest) :
    LineAt (Bytes.splitAt newline src.toList) (src.lineEnd o + 1) (before ++ [line]) next rest
      0 := by
  have hend := congrArg Segment.stop (lineOf_of_lineAt h)
  rw [LineIndex.lineStart_eq h.lines_eq] at hend
  refine ⟨by simp [h.lines_eq, hafter], Nat.zero_le _, ?_⟩
  simp only [terminated_append, terminated_cons, terminated_nil, List.length_append,
    List.length_singleton, Nat.add_zero]
  exact congrArg (· + 1) hend

end Lines

theorem exists_onLine (h : pos ≤ src.size) :
    ∃ l line, src.OnLine pos l line ∧
      src.lineStart pos = (LineIndex.ofBytes src.toList).lineStart l ∧
      src.lineEnd pos = (LineIndex.ofBytes src.toList).lineStart l + line.length := by
  have hle : pos ≤ src.toList.length := by rwa [Array.length_toList]
  obtain ⟨before, line, after, c, hat⟩ := LineIndex.exists_lineAt hle
  have hline := lineOf_of_lineAt hat
  exact ⟨before.length, line, onLine_of_lineAt hat, congrArg Segment.start hline,
    congrArg Segment.stop hline⟩

end Source

namespace Markdown

/-! ## What the rows of a table leave -/

/-- The node is over line `l` without one carriage return, and has one token at its front. -/
structure ControlCell (src : Source) (t : Tree) (l : Nat) (cell : DocTokens.Node) : Prop where
  held : t.node? cell.id = some cell
  type_eq : cell.type = .tableControlCell
  line : ∃ (line : Bytes) (category : Category),
    (LineIndex.ofBytes src.toList).line l = .ok line ∧
    cell.span = Segment.toSpan ⟨(LineIndex.ofBytes src.toList).lineStart l,
      (LineIndex.ofBytes src.toList).lineStart l + line.withoutReturn.length⟩ ∧
    category.IsOf .tableControlCell ∧
    t.tokensAt (.ofBytes src.toList) cell.id = .ok [⟨l, 0, line.withoutReturn.length, category⟩]

/-- What a child of a table leaves there: its row and, after a header, the line of delimiters, where
the line on which the row ends has a line feed. -/
structure RowGroup (src : Source) (t : Tree) (n : Node) (row : DocTokens.Node)
    (cell? : Option DocTokens.Node) : Prop where
  held : t.node? row.id = some row
  type_eq : row.type = n.kind.nodeType src
  not_control : row.type ≠ .tableControlCell
  control : ∃ (stop l : Nat) (line : Bytes), row.span.stop = stop ∧ src.OnLine stop l line ∧
    (cell?.isSome = true ↔ n.kind = .tableHeader ∧ src[src.lineEnd stop]? = some newline) ∧
    ∀ cell ∈ cell?, ControlCell src t (l + 1) cell

/-- The node holds what the rows of a table leave, one after another, and nothing else. -/
def HoldsRows (src : Source) (t : Tree) (rows : List Node) (table : DocTokens.Node) : Prop :=
  ∃ groups : List (DocTokens.Node × Option DocTokens.Node),
    table.childIds =
      (groups.flatMap fun g => g.1 :: g.2.toList).map (fun m : DocTokens.Node => (m.id : NodeId)) ∧
    List.Forall₂ (fun n g => RowGroup src t n g.1 g.2) (rows.filter (!·.kind.isPlaceless)) groups

section Rows

variable {src : Source} {t : Tree} {cursor o c : Nat} {before after rest : List Bytes}
  {line next : Bytes}

theorem controlCell_of_lineAt {cell : DocTokens.Node}
    (h : LineAt (Bytes.splitAt newline src.toList) o before line (next :: rest) c)
    (held : t.node? cell.id = some cell) (htype : cell.type = .tableControlCell)
    (hspan : cell.span = Segment.toSpan ⟨src.lineEnd o + 1,
      src.trimReturn (src.lineEnd o + 1) (src.lineEnd (src.lineEnd o + 1))⟩) :
    ControlCell src t (before.length + 1) cell := by
  have hat := Source.lineAt_next h rfl
  have hnumber : (before ++ [line]).length = before.length + 1 := by simp
  have hstart : src.lineEnd o + 1 =
      (LineIndex.ofBytes src.toList).lineStart (before.length + 1) := by
    rw [← hnumber, LineIndex.lineStart_eq hat.lines_eq]
    exact hat.offset_eq
  have hline : src.IsLine ⟨src.lineEnd o + 1, src.lineEnd o + 1 + next.length⟩ := by
    simpa using Source.isLine_of_lineAt hat
  have hstop : src.lineEnd (src.lineEnd o + 1) = src.lineEnd o + 1 + next.length :=
    hline.lineEnd_eq hline.holds_start
  have hlength : next.withoutReturn.length ≤ next.length := by
    unfold Bytes.withoutReturn
    split <;> simp
  have hcategory : (⟨9⟩ : Category).IsOf .tableControlCell :=
    Category.ofType?_eq_some_iff.mp (by decide)
  have hclassify : t.classify cell.id = some ⟨9⟩ :=
    Tree.classify_of_isOf (by rw [Tree.typeOf?, held, Option.map_some, htype]) hcategory
  rw [hstop, Source.trimReturn_of_lineAt hat rfl] at hspan
  have htokens := hline.tokensAt_eq held hclassify hspan (Nat.add_le_add_left hlength _)
  rw [Source.lineNumber_of_lineAt hat, hnumber] at htokens
  refine ⟨held, htype, next, ⟨9⟩, ?_, ?_, hcategory, htokens⟩
  · rw [← hnumber, LineIndex.line_eq hat.lines_eq]
  · rw [hspan, hstart]

/-- The line of delimiters starts behind the line feed of the line on which its row ends. -/
theorem piece_controlRow_eq {row : Outcome} {p : Piece} (hp : row.piece = some p)
    (hstop : p.segment.stop ≤ src.size) :
    (controlRow src row).piece =
      if src[src.lineEnd p.segment.stop]? = some newline then
        some ⟨.tableControlCell, ⟨src.lineEnd p.segment.stop + 1,
          src.trimReturn (src.lineEnd p.segment.stop + 1)
            (src.lineEnd (src.lineEnd p.segment.stop + 1))⟩, .nil⟩
      else none := by
  have hiff : src.lineEnd p.segment.stop + 1 ≤ src.size ↔
      src[src.lineEnd p.segment.stop]? = some newline := by
    rcases (Source.lineEnd_spec hstop).1 with hend | hbreak
    · simp [hend]
    · have hlt := (Array.getElem?_eq_some_iff.mp hbreak).1
      exact iff_of_true hlt hbreak
  rw [controlRow, hp]
  simp only [hiff]
  split <;> rfl

/-- A node ends inside of the source. -/
theorem stop_piece_le {n : Node} (h : n.Everywhere (Node.InRange src.size)) (hc : cursor ≤ src.size)
    (marker : Option UInt8) :
    ∀ p ∈ (convertNode src marker n cursor).piece, p.segment.stop ≤ src.size := by
  intro p hp
  have hsteps := h.stop_steps_le marker hc
  rw [Node.steps_of_some hp] at hsteps
  exact hsteps _ (List.mem_append_right _ List.mem_cons_self)

section Group

variable {n : Node} {row cell : DocTokens.Node} {s : Segment} (held : t.node? row.id = some row)
  (htype : row.type = n.kind.nodeType src) (hspan : row.span = s.toSpan) (hs : s.stop ≤ src.size)
include held htype hspan hs

theorem rowGroup_of_row
    (hno : ¬ (n.kind = .tableHeader ∧ src[src.lineEnd s.stop]? = some newline)) :
    RowGroup src t n row none := by
  obtain ⟨l, line, hline, -⟩ := Source.exists_onLine hs
  refine ⟨held, htype, htype ▸ Kind.nodeType_ne_tableControlCell src n.kind, s.stop, l, line,
    by rw [hspan, Segment.toSpan], hline, ?_, ?_⟩
  · simpa using hno
  · rintro cell ⟨⟩

theorem rowGroup_of_header (hkind : n.kind = .tableHeader)
    (hbreak : src[src.lineEnd s.stop]? = some newline) (hcell : t.node? cell.id = some cell)
    (hcellType : cell.type = .tableControlCell)
    (hcellSpan : cell.span = Segment.toSpan ⟨src.lineEnd s.stop + 1,
      src.trimReturn (src.lineEnd s.stop + 1) (src.lineEnd (src.lineEnd s.stop + 1))⟩) :
    RowGroup src t n row (some cell) := by
  have hle : s.stop ≤ src.toList.length := by rwa [Array.length_toList]
  obtain ⟨before, line, after, c, hat⟩ := LineIndex.exists_lineAt hle
  obtain ⟨next, rest, rfl⟩ :=
    List.exists_cons_of_ne_nil ((Source.terminated_iff_of_lineAt hat).mp hbreak)
  refine ⟨held, htype, htype ▸ Kind.nodeType_ne_tableControlCell src n.kind, s.stop, before.length,
    line, by rw [hspan, Segment.toSpan], Source.onLine_of_lineAt hat, ?_, ?_⟩
  · simp [hkind, hbreak]
  · rintro cell' ⟨⟩
    exact controlCell_of_lineAt hat hcell hcellType hcellSpan

end Group

/-- A row is followed by its line of delimiters, if it has one, and the rows after it. -/
theorem exists_entries_convertRows {n : Node} {p : Piece} (rest : List Node)
    (hp : (convertNode src none n cursor).piece = some p) (hs : p.segment.stop ≤ src.size)
    (hc : cursor ≤ src.size) :
    ∃ cursor' ≤ src.size, (convertRows src (n :: rest) cursor).entries =
      .node ⟨.children, []⟩ ⟨p.type, p.segment.toSpan⟩ p.below
        (if n.kind = .tableHeader ∧ src[src.lineEnd p.segment.stop]? = some newline then
          .leaf .children .tableControlCell (Segment.toSpan ⟨src.lineEnd p.segment.stop + 1,
            src.trimReturn (src.lineEnd p.segment.stop + 1)
              (src.lineEnd (src.lineEnd p.segment.stop + 1))⟩)
            (convertRows src rest cursor').entries
        else (convertRows src rest cursor').entries) := by
  have hcursor := cursor_convertNode_le hc n none
  have hcontrol := piece_controlRow_eq hp hs
  rw [convertRows]
  dsimp only
  split
  · rename_i hkind
    refine ⟨(controlRow src (convertNode src none n cursor)).cursor, ?_, ?_⟩
    · rw [cursor_controlRow]
      exact reach_le_size hcursor
    · rw [cons_of_some hp]
      by_cases hbreak : src[src.lineEnd p.segment.stop]? = some newline
      · rw [if_pos hbreak] at hcontrol
        rw [if_pos ⟨hkind, hbreak⟩, cons_of_some hcontrol]
        rfl
      · rw [if_neg hbreak] at hcontrol
        rw [if_neg fun h => hbreak h.2, cons_of_none hcontrol]
  · rename_i hkind
    exact ⟨_, hcursor, by rw [cons_of_some hp, if_neg fun h => hkind h.1]⟩

/-- One induction on the rows: each leaves its group before those of the rows after it. -/
theorem exists_rowGroups {nodes : List Node}
    (h : ∀ n ∈ nodes, n.Everywhere (Node.InRange src.size)) (hc : cursor ≤ src.size)
    {parent : NodeId} {base : Nat}
    (ht : ∀ m ∈ ((convertRows src nodes cursor).entries.number parent base).heads,
      t.node? m.id = some m) :
    ∃ groups : List (DocTokens.Node × Option DocTokens.Node),
      Tree.fieldIds ((convertRows src nodes cursor).entries.fields base) =
        (groups.flatMap fun g => g.1 :: g.2.toList).map
          (fun m : DocTokens.Node => (m.id : NodeId)) ∧
      List.Forall₂ (fun n g => RowGroup src t n g.1 g.2) (nodes.filter (!·.kind.isPlaceless))
        groups := by
  induction nodes generalizing cursor base with
  | nil => exact ⟨[], rfl, .nil⟩
  | cons n rest ih =>
    obtain ⟨hn, hrest⟩ := List.forall_mem_cons.mp h
    cases hplace : n.kind.isPlaceless with
    | true =>
      have hnone : (convertNode src none n cursor).piece = none := piece_convertNode hplace none
      have hkind : n.kind ≠ .tableHeader := by
        intro hk
        rw [hk] at hplace
        cases hplace
      rw [convertRows] at ht ⊢
      rw [List.filter_cons_of_neg (by simp [hplace])]
      simp only [if_neg hkind, cons_of_none hnone] at ht ⊢
      exact ih hrest (cursor_convertNode_le hc n none) ht
    | false =>
      obtain ⟨p, hp, htype⟩ := exists_piece hplace src none cursor
      have hstop := stop_piece_le hn hc none p hp
      obtain ⟨cursor', hcursor', hentries⟩ := exists_entries_convertRows rest hp hstop hc
      rw [hentries] at ht ⊢
      rw [List.filter_cons_of_pos (by simp [hplace])]
      simp only [Forest.number, Forest.heads, List.mem_cons, List.mem_append] at ht
      have hrow := ht _ (.inl rfl)
      have hmore := fun m hm => ht m (.inr (.inr hm))
      split at hmore
      · rename_i hheader
        simp only [Forest.leaf, Forest.number, Forest.heads, List.mem_cons,
          List.nil_append] at hmore
        obtain ⟨groups, hids, hgroups⟩ := ih hrest hcursor' fun m hm => hmore m (.inr hm)
        have hcell := hmore _ (.inl rfl)
        have hgroup := rowGroup_of_header hrow htype rfl hstop hheader.1 hheader.2 hcell rfl rfl
        refine ⟨(_, some _) :: groups, ?_, .cons hgroup hgroups⟩
        rw [if_pos hheader]
        exact congrArg
          (fun ids => (base : NodeId) :: ((base + 1 + p.below.size : Nat) : Int) :: ids) hids
      · rename_i hheader
        obtain ⟨groups, hids, hgroups⟩ := ih hrest hcursor' hmore
        have hgroup := rowGroup_of_row hrow htype rfl hstop hheader
        refine ⟨(_, none) :: groups, ?_, .cons hgroup hgroups⟩
        rw [if_neg hheader]
        exact congrArg ((base : NodeId) :: ·) hids

end Rows

/-! ## Documents -/

section Documents

variable {src : Source} {document n : Node} {v : Step} {c : DocTokens.Node × Forest DocTokens.Node}

theorem below_table {cursor : Nat} {rows : Conversion} :
    ∀ p ∈ (table src cursor rows).piece, p.below = rows.entries := by
  intro p hp
  unfold table at hp
  split at hp <;> cases hp <;> rfl

/-- A table that conversion is done with. -/
theorem Step.Leaves.holdsRows (hv : v.Leaves src document c)
    (h : document.Everywhere (Node.InRange src.size)) (hn : v.node? = some n)
    (hkind : n.kind = .table) : HoldsRows src (convert src document).1 n.children c.1 := by
  have hrange : n.Everywhere (Node.InRange src.size) := h.of_mem_finishedAll (hv.mem_nodes n hn)
  obtain ⟨kind, lines, rows⟩ := n
  obtain rfl : kind = .table := hkind
  have hpiece := hv.converted _ hn
  rw [convertNode_table] at hpiece
  obtain ⟨⟨parent, id, hc⟩, -, hbelow⟩ := hv.held
  rw [Step.branch, below_table _ hpiece] at hc
  rw [hc] at hbelow ⊢
  exact exists_rowGroups (fun m hm => hrange.children m hm) (cursor_courseOf_le v hv.mem) hbelow

end Documents

/-- The lines found by looking for line feeds are those of the index, at every offset. So each table
of a document holds its rows, and right behind the row of each header the line of delimiters, where
the line on which the row ends has a line feed: it is the whole line after that one without one
carriage return, and one token. -/
theorem convert_control_lines (src : Source) (document : Node)
    (h : document.Everywhere (Node.InRange src.size)) :
    let t := (convert src document).1
    (∀ pos ≤ src.size, ∃ l line, src.OnLine pos l line ∧
      src.lineStart pos = (LineIndex.ofBytes src.toList).lineStart l ∧
      src.lineEnd pos = (LineIndex.ofBytes src.toList).lineStart l + line.length) ∧
    List.Forall₂ (fun n c => t.node? c.1.id = some c.1 ∧ c.1.type = n.kind.nodeType src ∧
      (n.kind = .table → HoldsRows src t n.children c.1))
      (finishedAll (Node.convertsBelow src) document.children) t.branches := by
  intro t
  refine ⟨fun pos => Source.exists_onLine, ?_⟩
  have hsteps : List.Forall₂ (fun n? c => ∃ v : Step, v.node? = n? ∧ v.Leaves src document c)
      ((nodeSteps src document).map Step.node?) t.branches :=
    List.forall₂_map_left_iff.mpr ((convert_steps src document).2.imp fun v c h => ⟨v, rfl, h⟩)
  rw [node?_nodeSteps, List.forall₂_map_left_iff] at hsteps
  refine hsteps.imp ?_
  rintro n c ⟨v, hn, hv⟩
  have hbecomes : n.Becomes src v.branch :=
    ⟨v.marker, v.cursor, v.piece, hv.converted n hn, rfl⟩
  exact ⟨hv.held.2.1, hv.held.type_eq.symm.trans hbecomes.type_eq, hv.holdsRows h hn⟩

def delimitedSource : Source := (utf8 "|a|\n|-|\r\n|b|\n|c|").toArray

/-- A table with two headers, the last on a line without a line feed. -/
def delimitedDocument : Node :=
  .mk .document []
    [.mk .table []
      [.mk .tableHeader [] [.mk .tableCell [] [.text ⟨1, 2⟩]],
        .mk .tableRow [] [.mk .tableCell [] [.text ⟨10, 11⟩]],
        .mk .tableHeader [] [.mk .tableCell [] [.text ⟨14, 15⟩]]]]

/-- The line after the first header is the only line of delimiters. -/
theorem convert_control_lines_two_headers :
    delimitedDocument.Everywhere (Node.InRange delimitedSource.size) ∧
    (let t := (convert delimitedSource delimitedDocument).1
     List.Forall₂ (fun n c => t.node? c.1.id = some c.1 ∧
        c.1.type = n.kind.nodeType delimitedSource ∧
        (n.kind = .table → HoldsRows delimitedSource t n.children c.1))
      (finishedAll (Node.convertsBelow delimitedSource) delimitedDocument.children) t.branches ∧
     t.nodes.toList.filterMap (fun n => if n.type = .tableControlCell then some n.span else none) =
      [⟨4, 7⟩]) := by
  have hrange : delimitedDocument.Everywhere (Node.InRange delimitedSource.size) := by
    simp only [delimitedDocument, Node.text, Node.leaf, Node.everywhere_mk_iff,
      List.forall_mem_cons, List.not_mem_nil, IsEmpty.forall_iff, implies_true, and_true]
    and_intros
    all_goals
      constructor <;> simp +decide
  obtain ⟨-, hrows⟩ := convert_control_lines delimitedSource delimitedDocument hrange
  exact ⟨hrange, hrows, by decide +kernel⟩

end Markdown

end DocTokens
