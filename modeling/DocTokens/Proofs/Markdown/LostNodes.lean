import DocTokens.Proofs.Markdown.AutoLinks
import DocTokens.Proofs.Markdown.Breaks

/-! # Nodes without a recoverable place

Most nodes get their place from their segments, their lines or what is below them, some from a
search that starts at the cursor. Where all of this fails, the node becomes a point at the cursor.
-/

namespace DocTokens.Markdown

variable {src : Source} {n : Node} {nodes : List Node} {cursor : Nat}

/-- Nothing tells where a node stands that is entered at the cursor: it has no extent, no line from
the cursor on is a break, no text from the cursor on spells the label, or nothing in it has a
place. -/
def Node.IsLost (src : Source) (cursor : Nat) (n : Node) : Prop :=
  match n.kind with
  | .thematicBreak => src.NoBreak cursor
  | .autoLink label _ => ∀ s : Segment, s.Quotes src (src.slice label.start label.stop) →
      s.start < s.stop → s.start < cursor
  | .htmlBlock _ closure => n.lines = [] ∧ closure = none
  | .list _ | .table => ∀ m ∈ n.children, m.kind.isPlaceless = true
  | .fencedCode info => info = none ∧ n.extent src = none
  | _ => n.extent src = none

/-! ## Nothing to go by -/

theorem segments_convertAll (h : ∀ m ∈ nodes, m.kind.isPlaceless = true) (marker : Option UInt8) :
    (convertAll src marker nodes cursor).segments = [] := by
  induction nodes generalizing cursor with
  | nil => rfl
  | cons n rest ih =>
    obtain ⟨hn, hrest⟩ := List.forall_mem_cons.mp h
    rw [convertAll, Conversion.cons, piece_convertNode hn]
    exact ih hrest

theorem segments_convertRows (h : ∀ m ∈ nodes, m.kind.isPlaceless = true) :
    (convertRows src nodes cursor).segments = [] := by
  induction nodes generalizing cursor with
  | nil => rfl
  | cons n rest ih =>
    obtain ⟨hn, hrest⟩ := List.forall_mem_cons.mp h
    have hkind : n.kind ≠ .tableHeader := by
      intro hk
      rw [hk] at hn
      cases hn
    rw [convertRows, if_neg hkind, Conversion.cons, piece_convertNode hn]
    exact ih hrest

/-- A block with nothing in it has no lines. -/
theorem lines_eq_nil (hcontent : n.content src = none) (hblock : n.kind.isBlock = true) :
    n.lines = [] := by
  unfold Node.content at hcontent
  rw [hblock, if_pos rfl] at hcontent
  cases hlines : n.lines with
  | nil => rfl
  | cons line lines =>
    obtain ⟨stop, hplace⟩ := firstToLast?_cons line lines
    rw [hlines, hplace] at hcontent
    cases h : Node.extents src n.children <;> simp [h, hull?] at hcontent

/-! ## One kind after another -/

/-- The piece, if there is one, is a point at the cursor. -/
def Outcome.AtCursor (cursor : Nat) (o : Outcome) : Prop := ∀ p ∈ o.piece, p.segment = .point cursor

theorem atCursor_leafAt (type : NodeType) (below : Forest Shape) :
    (leafAt src cursor type (.point cursor) below).AtCursor cursor := by
  rintro p ⟨⟩
  rfl

theorem atCursor_container (type : NodeType) (inner : Conversion) :
    (container src type none cursor inner).AtCursor cursor := by
  rintro p ⟨⟩
  rfl

theorem atCursor_paragraph (hc : cursor ≤ src.size) (inner : Conversion) :
    (paragraph src none cursor inner).AtCursor cursor := by
  rintro p ⟨⟩
  have hstop : src.trimNewline cursor cursor = cursor :=
    Nat.le_antisymm (src.trimNewline_le cursor cursor) (Source.le_trimNewline (Nat.le_refl _) hc)
  exact congrArg (Segment.mk cursor) hstop

theorem atCursor_thematicBreak (hc : cursor ≤ src.size) (h : src.NoBreak cursor) :
    (thematicBreak src cursor).AtCursor cursor := by
  obtain ⟨s, hbreak, ⟨-, rfl⟩ | ⟨l, hfirst, -⟩⟩ := thematicBreak_spec hc
  · rw [hbreak]
    exact atCursor_leafAt _ _
  · exact absurd hfirst.isBreak (h l hfirst.isLine hfirst.le_start)

theorem atCursor_autoLink {label : Segment} (protocol : Option Bytes)
    (h : ∀ s : Segment, s.Quotes src (src.slice label.start label.stop) → s.start < s.stop →
      s.start < cursor) : (autoLink src label protocol cursor).AtCursor cursor := by
  unfold autoLink
  extract_lets text found? url
  have hnone : found? = none := by
    -- an empty label is not searched for
    by_cases hne : text = []
    · exact if_pos (by simp [hne])
    · have hfound : found? = Bytes.find? text (src.suffix cursor) := if_neg (by simpa using hne)
      rw [hfound]
      rcases Segment.find?_suffix_spec src hne cursor with ⟨k, -, hfirst⟩ | ⟨hnone, -⟩
      · have hlt := h _ hfirst.quotes (Nat.lt_add_of_pos_right (List.length_pos_iff.mpr hne))
        exact absurd hfirst.le_start (Nat.not_le.mpr hlt)
      · exact hnone
  rw [hnone]
  exact atCursor_leafAt _ _

theorem atCursor_list {inner : Conversion} (h : inner.segments = []) :
    (list cursor inner).AtCursor cursor := by
  rintro p ⟨⟩
  simp [h, firstToLast?]

theorem atCursor_table {rows : Conversion} (h : rows.segments = []) :
    (table src cursor rows).AtCursor cursor := by
  unfold table
  rw [h]
  rintro p ⟨⟩
  rfl

/-- One case for each kind of node. -/
theorem atCursor_convertKind (h : n.IsLost src cursor) (hc : cursor ≤ src.size)
    (ht : n.kind ≠ .table) {inner : Conversion}
    (hinner : (∀ m ∈ n.children, m.kind.isPlaceless = true) → inner.segments = [])
    (marker : Option UInt8) : (convertKind src marker n cursor inner).AtCursor cursor := by
  unfold convertKind
  extract_lets extent
  have hextent : extent = n.kind.extent src (n.content src) := n.extent_eq src
  unfold Node.IsLost at h
  cases hk : n.kind with
  | thematicBreak => exact atCursor_thematicBreak hc (by simpa [hk] using h)
  | autoLink label protocol => exact atCursor_autoLink protocol (by simpa [hk] using h)
  | htmlBlock type closure =>
    simp only [hk] at h ⊢
    obtain ⟨hlines, rfl⟩ := h
    rw [hlines]
    exact atCursor_leafAt _ _
  | list => exact atCursor_list (hinner (by simpa [hk] using h))
  | table => exact absurd hk ht
  | fencedCode info =>
    simp only [hk] at h hextent ⊢
    obtain ⟨rfl, hnone⟩ := h
    rw [lines_eq_nil (hextent.symm.trans hnone) (by rw [hk]; rfl), show extent = none from hnone]
    exact atCursor_container _ _
  | heading | codeBlock =>
    simp only [hk] at h hextent ⊢
    rw [lines_eq_nil (hextent.symm.trans h) (by rw [hk]; rfl), show extent = none from h]
    exact atCursor_container _ _
  | paragraph | textBlock =>
    simp only [hk] at h ⊢
    rw [show extent = none from h]
    exact atCursor_paragraph hc _
  | link destination | image destination =>
    simp only [hk] at h hextent ⊢
    rw [Option.map_eq_none_iff.mp (hextent.symm.trans h)]
    rintro p ⟨⟩
    rfl
  | rawHtml segments =>
    simp only [hk] at h hextent ⊢
    rw [rawHtml, show firstToLast? segments = none from hextent.symm.trans h]
    rintro p ⟨⟩
  | string => rintro p ⟨⟩
  | text | formula | underline | spacing | latex | directive =>
    simp only [hk] at h hextent
    cases hextent.symm.trans h
  | blockquote | listItem | document | emphasis | strikethrough | codeSpan | tableHeader | tableRow
  | tableCell | otherBlock | otherInline =>
    simp only [hk] at h ⊢
    rw [show extent = none from h]
    exact atCursor_container _ _

theorem atCursor_convertNode (h : n.IsLost src cursor) (hc : cursor ≤ src.size)
    (marker : Option UInt8) : (convertNode src marker n cursor).AtCursor cursor := by
  obtain ⟨kind, lines, children⟩ := n
  by_cases hk : kind = .table
  · subst hk
    rw [convertNode_table]
    exact atCursor_table (segments_convertRows h)
  · rw [convertNode_of_ne hk]
    exact atCursor_convertKind h hc hk (fun hchildren => segments_convertAll hchildren _) marker

end DocTokens.Markdown
