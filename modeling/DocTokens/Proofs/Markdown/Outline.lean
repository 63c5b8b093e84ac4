import DocTokens.Proofs.Markdown.Spans
import DocTokens.Proofs.Numbering

/-! # Outlines

Beside what is below it in its document, a converted node may hold nodes and values made up for the
parts that matter to classification. The skeleton of a tree is what is left without these; the
outline of a document is what its kinds prescribe. Every markdown node with a place becomes one node
of the prescribed type, with made up entries on both sides of what is below it.
-/

namespace DocTokens

/-! ## Made up nodes -/

/-- The types whose plain text children are made up. -/
def NodeType.holdsText (type : NodeType) : Bool :=
  type == .formulaSpan || type == .underline || type == .opCode

/-- The slots that hold made up nodes only. -/
def Slot.isDerived (slot : Slot) : Bool :=
  [Slot.opcode, .label, .keys, .href, .code, .text, .lang, .bullet].contains slot

/-- Whether a node is made up, by the type of its parent, its slot and its type. -/
def isSynthesized (parent : NodeType) (slot : Slot) (type : NodeType) : Bool :=
  slot.isDerived || (parent.holdsText && type == .text) || type == .tableControlCell

namespace Forest

/-- What is left of a forest without plain values and made up nodes. -/
def skeleton {α : Type} (type : α → NodeType) : NodeType → Forest α → Forest NodeType
  | _, nil => nil
  | parent, value _ _ rest => rest.skeleton type parent
  | parent, node label head below rest =>
    if isSynthesized parent label.slot (type head) then rest.skeleton type parent
    else .node label (type head) (below.skeleton type (type head)) (rest.skeleton type parent)

variable {f g : Forest Shape} {parent : NodeType}

theorem append_nil {α : Type} (f : Forest α) : f ++ nil = f := by
  induction f with
  | nil => rfl
  | value label v rest ih => exact congrArg (value label v) ih
  | node label head below rest _ ih => exact congrArg (node label head below) ih

theorem skeleton_append (parent : NodeType) (f g : Forest Shape) :
    (f ++ g).skeleton Shape.type parent =
      f.skeleton Shape.type parent ++ g.skeleton Shape.type parent := by
  induction f with
  | nil => rfl
  | value label v rest ih => exact ih
  | node label head below rest _ ih =>
    change (node label head below (rest ++ g)).skeleton Shape.type parent = _
    rw [skeleton, skeleton, ih]
    split <;> rfl

/-- Numbers, parents and fields do not matter for the skeleton. -/
theorem skeleton_number (f : Forest Shape) (type : NodeType) (parent : NodeId) (base : Nat) :
    (f.number parent base).skeleton Node.type type = f.skeleton Shape.type type := by
  induction f generalizing type parent base with
  | nil => rfl
  | value label v rest ih => exact ih type parent base
  | node label head below rest ihb ihr => rw [number, skeleton, skeleton, ihb, ihr]

theorem plain_append (hf : f.Plain) (hg : g.Plain) : (f ++ g).Plain := by
  induction f with
  | nil => exact hg
  | value label v rest ih => exact ⟨hf.1, ih hf.2⟩
  | node label head below rest _ ih => exact ⟨hf.1, ih hf.2⟩

/-- All of the forest is made up for a parent of the given type. -/
def Made (parent : NodeType) : Forest Shape → Prop
  | nil => True
  | value _ v rest => (∀ id, v ≠ .child id) ∧ rest.Made parent
  | node label head below rest =>
    isSynthesized parent label.slot head.type = true ∧ below = nil ∧ rest.Made parent

theorem Made.plain (h : f.Made parent) : f.Plain := by
  induction f with
  | nil => trivial
  | value label v rest ih => exact ⟨h.1, ih h.2⟩
  | node label head below rest _ ih =>
    obtain ⟨_, rfl, hrest⟩ := h
    exact ⟨trivial, ih hrest⟩

theorem Made.skeleton_eq (h : f.Made parent) : f.skeleton Shape.type parent = nil := by
  induction f with
  | nil => rfl
  | value label v rest ih => exact ih h.2
  | node label head below rest _ ih =>
    rw [skeleton, if_pos h.1]
    exact ih h.2.2

theorem made_derived {slot : Slot} (hs : slot.isDerived = true) (type : NodeType) (span : Span)
    (hf : f.Made parent) : (leaf slot type span f).Made parent :=
  ⟨by simp [isSynthesized, hs], rfl, hf⟩

theorem made_text (hp : parent.holdsText = true) (slot : Slot) (span : Span) (hf : f.Made parent) :
    (leaf slot .text span f).Made parent :=
  ⟨by simp [isSynthesized, hp], rfl, hf⟩

theorem made_literal (label : Label) (text : Bytes) :
    (value label (.literal text) nil : Forest Shape).Made parent :=
  ⟨by simp, trivial⟩

end Forest

/-- The types of the nodes of a tree that are not made up, as the forest below the root. -/
def Tree.skeleton (t : Tree) : Option (NodeType × Forest NodeType) :=
  t.unfold.map fun (root, below) => (root.type, below.skeleton Node.type root.type)

namespace Markdown

/-! ## What each kind prescribes -/

/-- Whether a text spells a word of small letters, each of them small or capital. -/
def spells : (word text : Bytes) → Bool
  | [], [] => true
  | c :: word, b :: text => (b == c || b + 32 == c) && spells word text
  | _, _ => false

namespace Kind

/-- The kinds that have nothing below them. -/
def isLeaf : Kind → Bool
  | text _ | string | fencedCode _ | codeBlock | thematicBreak | htmlBlock _ _ | rawHtml _
  | autoLink _ _ | directive _ | formula _ | underline _ | spacing _ _ | latex _ => true
  | _ => false

/-- The kinds without a place in the source. -/
def isPlaceless : Kind → Bool
  | string => true
  | rawHtml segments => segments.isEmpty
  | _ => false

/-- The type of the node for a markdown node. -/
def nodeType (src : Source) : Kind → NodeType
  | text _ => .text
  | paragraph | textBlock => .paragraph
  | heading _ => .heading
  | blockquote => .blockquote
  | emphasis level => if 1 < level then .strong else .em
  | strikethrough => .del
  | codeSpan => .codeSpan
  | fencedCode (some info) =>
    if spells (utf8 "math") (fenceLanguage src info) then .formula
    else if spells (utf8 "latex") (fenceLanguage src info) then .latex
    else .code
  | fencedCode none | codeBlock => .code
  | thematicBreak => .hr
  | htmlBlock type _ => if type = 2 then .comment else .unknown
  | rawHtml (s :: _) =>
    if (utf8 "<!--").isPrefixOf (src.toList.drop s.start) then .comment else .unknown
  | list _ => .list
  | listItem => .listItem
  | link _ | autoLink _ _ => .link
  | image _ => .image
  | table => .table
  | tableHeader | tableRow => .tableRow
  | tableCell => .tableCell
  | directive _ => .opCode
  | formula _ => .formulaSpan
  | underline _ => .underline
  | spacing _ thin => if thin then .thinNonBreakingSpace else .nonBreakingSpace
  | latex _ => .latexSpan
  | rawHtml [] | string | document | otherBlock | otherInline => .unknown

end Kind

/-- A plain child with the given type. -/
def outlined (type : NodeType) (below rest : Forest NodeType) : Forest NodeType :=
  .node ⟨.children, []⟩ type below rest

mutual

/-- What is below a node in the outline of its document. -/
def Node.outline (src : Source) : Node → Forest NodeType
  | .mk _ _ children => outlines src children

/-- The nodes with a place in the source, each with the type its kind prescribes. -/
def outlines (src : Source) : List Node → Forest NodeType
  | [] => .nil
  | n :: rest =>
    if n.kind.isPlaceless then outlines src rest
    else outlined (n.kind.nodeType src) (n.outline src) (outlines src rest)

end

/-- Whether what is below a node is converted with it. Leaf kinds leave it out, but a code block
whose place cannot be told is a plain container. -/
def Node.convertsBelow (src : Source) (n : Node) : Bool :=
  match n.kind with
  | .fencedCode info => (fenceStart? src info n.lines).isNone
  | .codeBlock => n.lines.isEmpty
  | kind => !kind.isLeaf

/-- A node of a leaf kind has no children. -/
def Node.Closed (n : Node) : Prop := n.kind.isLeaf = true → n.children = []

theorem lowerByte_eq_iff {b c : UInt8} (hc : Bytes.isLower c = true) :
    Bytes.lowerByte b = c ↔ b = c ∨ b + 32 = c := by
  have ha : (ascii 'a').toNat = 97 ∧ (ascii 'z').toNat = 122 := by decide
  have hA : (ascii 'A').toNat = 65 ∧ (ascii 'Z').toNat = 90 := by decide
  have hgap : (32 : UInt8).toNat = 32 := rfl
  have hb := b.toNat_lt
  simp only [Bytes.isLower, Bytes.lowerByte, Bytes.isUpper, Bool.and_eq_true, decide_eq_true_eq,
    UInt8.le_iff_toNat_le] at *
  split <;> simp only [← UInt8.toNat_inj, UInt8.toNat_add] <;> omega

theorem spells_eq {word : Bytes} (hw : ∀ c ∈ word, Bytes.isLower c = true) (text : Bytes) :
    spells word text = (text.map Bytes.lowerByte == word) := by
  induction word generalizing text with
  | nil => cases text <;> rfl
  | cons c word ih =>
    cases text with
    | nil => rfl
    | cons b text =>
      have hb := lowerByte_eq_iff (b := b) (hw c List.mem_cons_self)
      rw [spells, ih (fun d hd => hw d (List.mem_cons_of_mem _ hd)), List.map_cons,
        List.cons_beq_cons]
      congr 1
      rw [Bool.eq_iff_iff, beq_iff_eq, hb]
      simp

theorem fenceType_eq (language : Bytes) :
    fenceType language =
      if spells (utf8 "math") language then .formula
      else if spells (utf8 "latex") language then .latex else .code := by
  have hmath : (utf8 "math").all Bytes.isLower = true := by decide
  have hlatex : (utf8 "latex").all Bytes.isLower = true := by decide
  rw [spells_eq (List.all_eq_true.mp hmath), spells_eq (List.all_eq_true.mp hlatex), fenceType]

/-! ## One kind after another -/

/-- The outcome is a node of the given type around `content`, with nothing else below it but what is
made up for it. -/
def Outcome.Wraps (type : NodeType) (content : Forest Shape) (o : Outcome) : Prop :=
  ∃ segment before after, o.piece = some ⟨type, segment, before ++ (content ++ after)⟩ ∧
    before.Made type ∧ after.Made type

section Kinds

variable {src : Source} {cursor : Nat} {type : NodeType} {s : Segment} {inner : Conversion}
  {below : Forest Shape}

theorem wraps_leafAt (h : below.Made type) : (leafAt src cursor type s below).Wraps type .nil := by
  refine ⟨s, below, .nil, ?_, h, trivial⟩
  change some (Piece.mk type s below) = some (Piece.mk type s (below ++ .nil))
  rw [Forest.append_nil]

theorem wraps_of_entries {o : Outcome} (h : o.piece = some ⟨type, s, inner.entries⟩) :
    o.Wraps type inner.entries := by
  refine ⟨s, .nil, .nil, ?_, trivial, trivial⟩
  rw [h, Forest.append_nil]
  rfl

theorem wraps_container (type : NodeType) (extent : Option Segment) :
    (container src type extent cursor inner).Wraps type inner.entries :=
  wraps_of_entries rfl

theorem wraps_heading (lines : List Segment) (extent : Option Segment) :
    (heading src lines extent cursor inner).Wraps .heading inner.entries := by
  unfold heading
  split
  · exact wraps_container _ _
  · exact wraps_of_entries rfl

theorem wraps_blockquote (extent : Option Segment) :
    (blockquote src extent cursor inner).Wraps .blockquote inner.entries := by
  unfold blockquote
  split
  · exact wraps_container _ _
  · exact wraps_of_entries rfl

theorem wraps_listItem (marker : Option UInt8) (extent : Option Segment) :
    (listItem src marker extent cursor inner).Wraps .listItem inner.entries := by
  unfold listItem
  extract_lets bullet?
  clear_value bullet?
  split
  · rename_i s bullet
    have hbullet : (Forest.leaf .bullet .text bullet.toSpan .nil).Made .listItem :=
      Forest.made_derived (by decide) _ _ trivial
    refine ⟨⟨bullet.start, src.trimNewline bullet.start s.stop⟩, _, .nil, ?_, hbullet, trivial⟩
    rw [Forest.append_nil]
    rfl
  · exact wraps_container _ _

theorem wraps_link (type : NodeType) (destination : Bytes) (content : Option Segment) :
    (link src type destination content cursor inner).Wraps type inner.entries := by
  unfold link
  extract_lets parts target warnings
  have htarget : target.Made type := by
    simp only [target]
    split
    · trivial
    · split
      · exact Forest.made_derived (by decide) _ _ trivial
      · exact Forest.made_literal _ _
  exact ⟨_, .nil, target, rfl, trivial, htarget⟩

theorem wraps_table (rows : Conversion) : (table src cursor rows).Wraps .table rows.entries := by
  unfold table
  split
  · exact wraps_of_entries rfl
  · exact wraps_of_entries rfl

/-- A fenced block that starts nowhere is a container; its language is unknown then. -/
theorem wraps_fencedCode (info : Option Segment) (lines : List Segment) (extent : Option Segment) :
    (fencedCode src info lines extent cursor inner).Wraps ((Kind.fencedCode info).nodeType src)
      (if (fenceStart? src info lines).isNone then inner.entries else .nil) := by
  have hnone : ∀ i, info = some i → fenceStart? src info lines ≠ none := by
    rintro i rfl
    simp [fenceStart?]
  generalize hcontent :
    (if (fenceStart? src info lines).isNone then inner.entries else .nil) = content
  unfold fencedCode
  split
  · rename_i hstart
    subst hcontent
    rw [hstart]
    cases info with
    | none => exact wraps_container _ _
    | some i => exact absurd hstart (hnone i rfl)
  · rename_i start hstart
    rw [hstart] at hcontent
    subst hcontent
    extract_lets body stop stop' language type code below
    have htype : type = (Kind.fencedCode info).nodeType src := by
      cases info with
      | none => rfl
      | some i => exact fenceType_eq _
    rw [← htype]
    have hcode : code.Made type := by
      cases hb : body with
      | none => simp only [code, hb, Forest.Made]
      | some b =>
        simp only [code, hb]
        refine Forest.made_derived ?_ _ _ trivial
        split <;> decide
    have hbelow : below.Made type := by
      cases info with
      | none => exact hcode
      | some i =>
        simp only [below]
        split
        · exact Forest.made_derived (by decide) _ _ hcode
        · exact hcode
    exact wraps_leafAt hbelow

theorem firstToLast?_cons (s : Segment) (rest : List Segment) :
    ∃ stop, firstToLast? (s :: rest) = some ⟨s.start, stop⟩ := by
  simp [firstToLast?, List.getLast?_cons]

theorem wraps_indentedCode (lines : List Segment) (extent : Option Segment) :
    (indentedCode src lines extent cursor inner).Wraps .code
      (if lines.isEmpty then inner.entries else .nil) := by
  cases lines with
  | nil => exact wraps_container _ _
  | cons line lines =>
    obtain ⟨stop, hplace⟩ := firstToLast?_cons line lines
    rw [indentedCode, hplace]
    exact wraps_leafAt (Forest.made_derived (by decide) _ _ trivial)

theorem wraps_htmlBlock (type : Nat) (closure : Option Segment) (lines : List Segment) :
    (htmlBlock src type closure lines cursor).Wraps
      ((Kind.htmlBlock type closure).nodeType src) .nil := by
  unfold htmlBlock
  extract_lets nodeType place
  clear_value place
  split
  · exact wraps_leafAt trivial
  · exact wraps_leafAt trivial

theorem wraps_rawHtml (s : Segment) (rest : List Segment) :
    (rawHtml src (s :: rest) cursor).Wraps ((Kind.rawHtml (s :: rest)).nodeType src) .nil := by
  obtain ⟨stop, hplace⟩ := firstToLast?_cons s rest
  have htype : (Kind.rawHtml (s :: rest)).nodeType src =
      if src.startsWith s.start (utf8 "<!--") then .comment else .unknown := by
    rw [Kind.nodeType, Source.startsWith_eq_isPrefixOf, Source.suffix_eq_drop]
  rw [rawHtml, hplace, htype]
  exact wraps_leafAt trivial

theorem wraps_autoLink (label : Segment) (protocol : Option Bytes) :
    (autoLink src label protocol cursor).Wraps .link .nil := by
  unfold autoLink
  extract_lets text found?
  clear_value found?
  split
  · exact wraps_leafAt (Forest.made_literal _ _)
  · exact wraps_leafAt (Forest.made_derived (by decide) _ _ trivial)

theorem made_keyEntries (entries : List KeyEntry) : (keyEntries src entries).Made .opCode := by
  induction entries with
  | nil => trivial
  | cons entry rest ih =>
    refine ⟨rfl, rfl, ?_⟩
    split
    · exact ih
    · exact Forest.made_text (by decide) _ _ ih

theorem wraps_directive (d : Directive) : (directive src d cursor).Wraps .opCode .nil := by
  unfold directive
  extract_lets keys labelled errors
  have hkeys : keys.Made .opCode := made_keyEntries d.keys
  have hlabelled : labelled.Made .opCode := by
    cases hl : d.label with
    | none => simpa only [labelled, hl] using hkeys
    | some l =>
      simp only [labelled, hl]
      exact Forest.made_derived (by decide) _ _ hkeys
  have hleaf : (leafAt src cursor .opCode d.segment
      (.leaf .opcode .text d.name.toSpan labelled)).Wraps .opCode .nil :=
    wraps_leafAt (Forest.made_derived (by decide) _ _ hlabelled)
  exact hleaf

theorem wraps_delimited (ht : type.holdsText = true) (width : Nat) :
    (delimited src type s width cursor).Wraps type .nil :=
  wraps_leafAt (Forest.made_text ht _ _ trivial)

end Kinds

section Conversions

variable {src : Source} {cursor : Nat} {inner : Conversion} {n : Node}

theorem piece_convertKind (h : n.kind.isPlaceless = true) (marker : Option UInt8) :
    (convertKind src marker n cursor inner).piece = none := by
  unfold convertKind
  cases hk : n.kind with
  | string => rfl
  | rawHtml segments =>
    obtain rfl : segments = [] := by simpa [hk, Kind.isPlaceless] using h
    rfl
  | _ => simp [hk, Kind.isPlaceless] at h

/-- One case for each kind of node. -/
theorem wraps_convertKind (h : n.kind.isPlaceless = false) (ht : n.kind ≠ .table)
    (marker : Option UInt8) :
    (convertKind src marker n cursor inner).Wraps (n.kind.nodeType src)
      (if n.convertsBelow src then inner.entries else .nil) := by
  unfold convertKind Node.convertsBelow
  extract_lets extent
  cases hk : n.kind with
  | text s | spacing s thin | latex s | thematicBreak => exact wraps_leafAt trivial
  | fencedCode info => exact wraps_fencedCode info n.lines extent
  | codeBlock => exact wraps_indentedCode n.lines extent
  | htmlBlock type closure => exact wraps_htmlBlock type closure n.lines
  | rawHtml segments =>
    cases segments with
    | nil => simp [hk, Kind.isPlaceless] at h
    | cons s rest => exact wraps_rawHtml s rest
  | autoLink label protocol => exact wraps_autoLink label protocol
  | directive d => exact wraps_directive d
  | formula s | underline s => exact wraps_delimited rfl _
  | heading level => exact wraps_heading n.lines extent
  | blockquote => exact wraps_blockquote extent
  | listItem => exact wraps_listItem marker extent
  | link destination | image destination => exact wraps_link _ destination _
  | paragraph | textBlock | list => exact wraps_of_entries rfl
  | document | emphasis | strikethrough | codeSpan | tableHeader | tableRow | tableCell
  | otherBlock | otherInline => exact wraps_container _ extent
  | string => simp [hk, Kind.isPlaceless] at h
  | table => exact absurd hk ht

/-- What stands below a node: the rows of a table with its lines of delimiters, else the
children. -/
def convertBelow (src : Source) (n : Node) (cursor : Nat) : Conversion :=
  if n.kind = .table then convertRows src n.children cursor
  else convertAll src n.kind.marker? n.children cursor

theorem piece_convertNode (h : n.kind.isPlaceless = true) (marker : Option UInt8) :
    (convertNode src marker n cursor).piece = none := by
  cases n with
  | mk kind lines children =>
    rw [convertNode_of_ne (by rintro rfl; cases h)]
    exact piece_convertKind h marker

theorem wraps_convertNode (h : n.kind.isPlaceless = false) (marker : Option UInt8) (cursor : Nat) :
    (convertNode src marker n cursor).Wraps (n.kind.nodeType src)
      (if n.convertsBelow src then (convertBelow src n cursor).entries else .nil) := by
  cases n with
  | mk kind lines children =>
    by_cases hk : kind = .table
    · subst hk
      rw [convertNode_table]
      exact wraps_table _
    · have hbelow : convertBelow src (.mk kind lines children) cursor =
          convertAll src kind.marker? children cursor := if_neg hk
      rw [convertNode_of_ne hk, hbelow]
      exact wraps_convertKind h hk marker

/-- Only leaf kinds leave out what is below them. -/
theorem Node.isLeaf_of_not_convertsBelow (h : n.convertsBelow src = false) :
    n.kind.isLeaf = true := by
  unfold convertsBelow at h
  cases hk : n.kind with
  | text | string | fencedCode | codeBlock | thematicBreak | htmlBlock | rawHtml | autoLink
  | directive | formula | underline | spacing | latex => rfl
  | _ =>
    rw [hk] at h
    cases h

end Conversions

end Markdown

end DocTokens
