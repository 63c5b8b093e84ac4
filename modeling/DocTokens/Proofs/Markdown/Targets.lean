import DocTokens.Proofs.Markdown.KeyLists
import DocTokens.Proofs.Markdown.Outline
import Mathlib.Data.List.Forall2

/-! # Link targets and diagnostics

What a node adds of its own to what is below it. A link adds its target: a text node where the
source spells the destination behind it, a literal otherwise; and a link without a destination or a
directive that is not closed adds a diagnostic. No other kind adds either.
-/

namespace DocTokens

/-! ## Quoted texts -/

theorem Bytes.stands_find? {pattern s : Bytes} {n : Nat} (h : find? pattern s = some n) :
    Stands s n pattern := by
  induction s generalizing n with
  | nil =>
    rw [find?] at h
    split at h
    · cases h
      simp_all [Stands]
    · cases h
  | cons b rest ih =>
    rw [find?] at h
    split at h
    · rename_i hp
      cases h
      exact List.isPrefixOf_iff_prefix.mp hp
    · obtain ⟨m, hm, rfl⟩ := Option.map_eq_some_iff.mp h
      exact ih hm

/-- The segment is a range of the source that spells a text. -/
structure Segment.Quotes (src : Source) (text : Bytes) (s : Segment) : Prop where
  within : s.Within src.size
  slice_eq : src.slice s.start s.stop = text

theorem Segment.quotes_of_stands {src : Source} {text : Bytes} {pos : Nat} (hne : text ≠ [])
    (h : Bytes.Stands src.toList pos text) : Segment.Quotes src text ⟨pos, pos + text.length⟩ := by
  have hle : text.length ≤ src.size - pos := by
    simpa using h.length_le
  have hpos := List.length_pos_iff.mpr hne
  refine ⟨⟨Nat.le_add_right _ _, by dsimp only; omega⟩, ?_⟩
  rw [Source.slice, Array.toList_extract]
  exact h.extract_eq

/-! ## Entries in a slot -/

/-- The fields of a node in a slot. -/
def Node.fieldsIn (slot : Slot) (n : Node) : List Field := n.fields.toList.filter (·.slot = slot)

namespace Forest

/-- The entries of a forest in a slot: nodes on the left, plain values on the right. -/
def entriesIn (slot : Slot) : Forest Shape → List (Shape ⊕ Value)
  | nil => []
  | value label v rest =>
    if label.slot = slot then .inr v :: rest.entriesIn slot else rest.entriesIn slot
  | node label head _ rest =>
    if label.slot = slot then .inl head :: rest.entriesIn slot else rest.entriesIn slot

variable {slot slot' : Slot}

theorem entriesIn_append (slot : Slot) (f g : Forest Shape) :
    (f ++ g).entriesIn slot = f.entriesIn slot ++ g.entriesIn slot := by
  induction f with
  | nil => rfl
  | value label v rest ih =>
    change (value label v (rest ++ g)).entriesIn slot = _
    rw [entriesIn, entriesIn, ih]
    split <;> rfl
  | node label head below rest _ ih =>
    change (node label head below (rest ++ g)).entriesIn slot = _
    rw [entriesIn, entriesIn, ih]
    split <;> rfl

theorem entriesIn_leaf (h : slot' ≠ slot) (type : NodeType) (span : Span) (rest : Forest Shape) :
    (leaf slot' type span rest).entriesIn slot = rest.entriesIn slot :=
  if_neg h

end Forest

/-- The tree stores an entry in a field. -/
def Tree.Stores (t : Tree) : Shape ⊕ Value → Field → Prop
  | .inl head, f => ∃ m : Node, f.value = .child m.id ∧ t.node? m.id = some m ∧
      m.type = head.type ∧ m.span = head.span
  | .inr v, f => f.value = v

/-- A tree with the nodes of a forest stores its entries in the fields that hold the forest. -/
theorem Tree.stores_entriesIn (slot : Slot) {t : Tree} (f : Forest Shape) (parent : NodeId)
    (base : Nat) (ht : ∀ m ∈ (f.number parent base).heads, t.node? m.id = some m) :
    List.Forall₂ t.Stores (f.entriesIn slot) ((f.fields base).filter (·.slot = slot)) := by
  induction f generalizing parent base with
  | nil => exact .nil
  | value label v rest ih =>
    have hrest := ih parent base ht
    by_cases hslot : label.slot = slot
    · rw [Forest.entriesIn, if_pos hslot, Forest.fields, List.filter_cons_of_pos (by simpa)]
      exact .cons rfl hrest
    · rw [Forest.entriesIn, if_neg hslot, Forest.fields, List.filter_cons_of_neg (by simpa)]
      exact hrest
  | node label head below rest _ ih =>
    simp only [Forest.number, Forest.heads, List.mem_cons, List.mem_append] at ht
    have hhead := ht _ (.inl rfl)
    have hrest := ih parent _ fun m hm => ht m (.inr (.inr hm))
    by_cases hslot : label.slot = slot
    · rw [Forest.entriesIn, if_pos hslot, Forest.fields, List.filter_cons_of_pos (by simpa)]
      exact .cons ⟨_, rfl, hhead, rfl, rfl⟩ hrest
    · rw [Forest.entriesIn, if_neg hslot, Forest.fields, List.filter_cons_of_neg (by simpa)]
      exact hrest

namespace Markdown

/-! ## What is due -/

/-- An entry that stands for a target: a text node over `written`, or a literal `whole`. -/
def Names (src : Source) (written whole : Bytes) : Shape ⊕ Value → Prop
  | .inl head => ∃ s : Segment, head = ⟨.text, s.toSpan⟩ ∧ s.Quotes src written
  | .inr v => v = .literal whole

/-- A field that stands for a target: it leads to a text node over `written`, or holds `whole`. -/
def NamesIn (t : Tree) (src : Source) (written whole : Bytes) (f : Field) : Prop :=
  (∃ (id : NodeId) (m : DocTokens.Node) (s : Segment), f.value = .child id ∧ t.node? id = some m ∧
    m.type = .text ∧ m.span = s.toSpan ∧ s.Quotes src written) ∨
  f.value = .literal whole

theorem Names.namesIn {t : Tree} {src : Source} {written whole : Bytes} {e : Shape ⊕ Value}
    {f : Field} (h : Names src written whole e) (ht : t.Stores e f) :
    NamesIn t src written whole f := by
  rcases e with head | v
  · obtain ⟨s, rfl, hs⟩ := h
    obtain ⟨m, hvalue, hm, htype, hspan⟩ := ht
    exact .inl ⟨m.id, m, s, hvalue, hm, htype, hspan, hs⟩
  · exact .inr (Eq.trans ht h)

namespace Kind

/-- The address that an automatic link stands for. -/
def autoLinkUrl (src : Source) (label : Segment) (protocol : Option Bytes) : Bytes :=
  match protocol with
  | some p => p ++ utf8 "://" ++ src.slice label.start label.stop
  | none => src.slice label.start label.stop

/-- Which targets a node has: one if it is a link with a destination, none otherwise. -/
def Aims {α : Type} (src : Source) (names : (written whole : Bytes) → α → Prop) (targets : List α) :
    Kind → Prop
  | link destination | image destination =>
    if destination = [] then targets = []
    else ∃ target, targets = [target] ∧ names destination destination target
  | autoLink label protocol =>
    ∃ target, targets = [target] ∧
      names (src.slice label.start label.stop) (autoLinkUrl src label protocol) target
  | _ => targets = []

/-- The diagnostics that a node calls for, given the span of what it becomes. -/
def due (src : Source) (span : Span) : Kind → List Diagnostic
  | link destination | image destination =>
    if destination = [] then [⟨utf8 "link has an empty destination", span, .warning⟩] else []
  | directive d =>
    match d.unclosed with
    | none => []
    | some u =>
      if u.start < u.stop then
        [⟨utf8 "macro " ++ src.slice d.name.start d.name.stop ++ utf8 " has an unclosed "
          ++ src.slice u.start u.stop, u.toSpan, .error⟩]
      else []
  | _ => []

theorem Aims.transfer {α β : Type} {src : Source} {names : Bytes → Bytes → α → Prop}
    {names' : Bytes → Bytes → β → Prop} {R : α → β → Prop} {as : List α} {bs : List β} {kind : Kind}
    (h : kind.Aims src names as) (hR : List.Forall₂ R as bs)
    (hnames : ∀ written whole a b, R a b → names written whole a → names' written whole b) :
    kind.Aims src names' bs := by
  have hnone : as = [] → bs = [] := by
    rintro rfl
    exact List.forall₂_nil_left_iff.mp hR
  have hone : ∀ {written whole}, (∃ a, as = [a] ∧ names written whole a) →
      ∃ b, bs = [b] ∧ names' written whole b := by
    rintro written whole ⟨a, rfl, ha⟩
    obtain ⟨b, rest, hab, hrest, rfl⟩ := List.forall₂_cons_left_iff.mp hR
    obtain rfl := List.forall₂_nil_left_iff.mp hrest
    exact ⟨b, rfl, hnames _ _ a b hab ha⟩
  cases kind with
  | link destination | image destination =>
    cases destination with
    | nil => exact hnone h
    | cons b rest => exact hone h
  | autoLink label protocol => exact hone h
  | _ => exact hnone h

end Kind

/-! ## One kind after another -/

/-- The outcome adds neither a target nor a diagnostic to those of what is below it. -/
structure Outcome.Quiet (below : Conversion) (o : Outcome) : Prop where
  diagnostics : o.diagnostics = below.diagnostics
  targets : ∀ p ∈ o.piece, p.below.entriesIn .href = below.entries.entriesIn .href

/-- The outcome adds what is due for its kind. -/
structure Outcome.Adds (src : Source) (kind : Kind) (below : Conversion) (o : Outcome) : Prop where
  diagnostics : ∀ p ∈ o.piece, o.diagnostics = below.diagnostics ++ kind.due src p.segment.toSpan
  targets : ∀ p ∈ o.piece, kind.Aims src (Names src) (p.below.entriesIn .href)

section Kinds

variable {src : Source} {cursor : Nat} {n : Node} {inner below : Conversion} {o : Outcome}
  {kind : Kind}

theorem Outcome.Quiet.adds (h : o.Quiet below) (hbelow : below.entries.entriesIn .href = [])
    (hdue : ∀ span, kind.due src span = [])
    (haims : ∀ targets, targets = [] → kind.Aims src (Names src) targets) :
    o.Adds src kind below where
  diagnostics p _ := by rw [h.diagnostics, hdue, List.append_nil]
  targets p hp := haims _ ((h.targets p hp).trans hbelow)

theorem quiet_leafAt {type : NodeType} {s : Segment} {f : Forest Shape}
    (h : f.entriesIn .href = []) (start : Nat) :
    (leafAt src cursor type s f).Quiet (.empty start) where
  diagnostics := rfl
  targets := by
    rintro p ⟨⟩
    exact h

theorem quiet_of_entries {type : NodeType} {s : Segment}
    (hpiece : o.piece = some ⟨type, s, inner.entries⟩) (hd : o.diagnostics = inner.diagnostics) :
    o.Quiet inner where
  diagnostics := hd
  targets := by
    rw [hpiece]
    rintro p ⟨⟩
    rfl

theorem quiet_containerAt (type : NodeType) (s : Segment) :
    (containerAt src type s inner).Quiet inner :=
  quiet_of_entries rfl rfl

theorem quiet_heading (lines : List Segment) (extent : Option Segment) :
    (heading src lines extent cursor inner).Quiet inner := by
  unfold heading
  split
  · exact quiet_containerAt _ _
  · exact quiet_containerAt _ _

theorem quiet_blockquote (extent : Option Segment) :
    (blockquote src extent cursor inner).Quiet inner := by
  unfold blockquote
  split
  · exact quiet_containerAt _ _
  · exact quiet_containerAt _ _

theorem quiet_listItem (marker : Option UInt8) (extent : Option Segment) :
    (listItem src marker extent cursor inner).Quiet inner := by
  unfold listItem
  extract_lets bullet?
  clear_value bullet?
  split
  · refine ⟨rfl, ?_⟩
    rintro p ⟨⟩
    exact Forest.entriesIn_leaf (by decide) _ _ _
  · exact quiet_containerAt _ _

theorem quiet_table (rows : Conversion) : (table src cursor rows).Quiet rows := by
  unfold table
  split
  · exact quiet_of_entries rfl rfl
  · exact quiet_containerAt _ _

theorem quiet_fencedCode (info : Option Segment) (lines : List Segment) (extent : Option Segment)
    (start : Nat) : (fencedCode src info lines extent cursor inner).Quiet
      (if (fenceStart? src info lines).isNone then inner else .empty start) := by
  generalize hbelow : (if (fenceStart? src info lines).isNone then inner else .empty start) = below
  unfold fencedCode
  split
  · rename_i hstart
    subst hbelow
    rw [hstart]
    exact quiet_containerAt _ _
  · rename_i hstart
    rw [hstart] at hbelow
    subst hbelow
    extract_lets body stop stop' language type code below
    have hcode : code.entriesIn .href = [] := by
      cases hb : body with
      | none => simp only [code, hb, Forest.entriesIn]
      | some b =>
        simp only [code, hb]
        refine Forest.entriesIn_leaf ?_ _ _ _
        split <;> decide
    refine quiet_leafAt ?_ start
    cases info with
    | none => exact hcode
    | some i =>
      simp only [below]
      split
      · exact (Forest.entriesIn_leaf (by decide) _ _ _).trans hcode
      · exact hcode

theorem quiet_indentedCode (lines : List Segment) (extent : Option Segment) (start : Nat) :
    (indentedCode src lines extent cursor inner).Quiet
      (if lines.isEmpty then inner else .empty start) := by
  cases lines with
  | nil => exact quiet_containerAt _ _
  | cons line lines =>
    obtain ⟨stop, hplace⟩ := firstToLast?_cons line lines
    rw [indentedCode, hplace]
    exact quiet_leafAt (Forest.entriesIn_leaf (by decide) _ _ _) start

theorem quiet_htmlBlock (type : Nat) (closure : Option Segment) (lines : List Segment)
    (start : Nat) : (htmlBlock src type closure lines cursor).Quiet (.empty start) := by
  unfold htmlBlock
  extract_lets nodeType place
  clear_value place
  split
  · exact quiet_leafAt rfl start
  · exact quiet_leafAt rfl start

theorem quiet_none (start : Nat) : (Outcome.mk none cursor []).Quiet (.empty start) where
  diagnostics := rfl
  targets := by
    rintro p ⟨⟩

theorem quiet_rawHtml (segments : List Segment) (start : Nat) :
    (rawHtml src segments cursor).Quiet (.empty start) := by
  unfold rawHtml
  split
  · exact quiet_none start
  · exact quiet_leafAt rfl start

/-- A destination that is found behind a link stands there. -/
theorem quotes_href {destination : Bytes} {isImage : Bool} {content h : Segment}
    (hh : (linkParts src destination isImage content).href = some h) :
    h.Quotes src destination := by
  unfold linkParts at hh
  extract_lets outer p q href r at hh
  split at hh
  · have hhref : href = some h := by
      split at hh <;> exact hh
    simp only [href] at hhref
    split at hhref
    · rename_i hstarts
      cases hhref
      simp only [Bool.and_eq_true, Bool.not_eq_true', List.isEmpty_eq_false_iff] at hstarts
      refine Segment.quotes_of_stands hstarts.1 ?_
      have hprefix := hstarts.2
      rwa [Source.startsWith_eq_isPrefixOf, List.isPrefixOf_iff_prefix, Source.suffix_eq_drop]
        at hprefix
    · cases hhref
  · cases hh

/-- The warning of a link carries the span of the link. -/
theorem adds_link (hinner : inner.entries.entriesIn .href = []) (type : NodeType)
    (destination : Bytes) (content : Option Segment) :
    (link src type destination content cursor inner).Adds src (.link destination) inner := by
  unfold link
  extract_lets parts target warnings
  constructor
  · rintro p ⟨⟩
    cases destination with
    | nil => rfl
    | cons b rest => rfl
  · rintro p ⟨⟩
    change (Kind.link destination).Aims src (Names src) ((inner.entries ++ target).entriesIn .href)
    rw [Forest.entriesIn_append, hinner, List.nil_append]
    cases destination with
    | nil => exact rfl
    | cons b rest =>
      cases hhref : parts.href with
      | none =>
        simp only [target, hhref]
        exact ⟨.inr (.literal (b :: rest)), rfl, rfl⟩
      | some h =>
        simp only [target, hhref]
        refine ⟨.inl ⟨.text, h.toSpan⟩, rfl, h, rfl, ?_⟩
        cases hc : content with
        | none => simp [parts, hc] at hhref
        | some s =>
          simp only [parts, hc] at hhref
          exact quotes_href hhref

theorem adds_autoLink (label : Segment) (protocol : Option Bytes) (start : Nat) :
    (autoLink src label protocol cursor).Adds src (.autoLink label protocol) (.empty start) := by
  unfold autoLink
  extract_lets text found? url
  cases hfound : found? with
  | none =>
    refine ⟨fun p _ => rfl, ?_⟩
    rintro p ⟨⟩
    exact ⟨_, rfl, rfl⟩
  | some k =>
    refine ⟨fun p _ => rfl, ?_⟩
    rintro p ⟨⟩
    refine ⟨_, rfl, _, rfl, ?_⟩
    simp only [found?] at hfound
    split at hfound
    · cases hfound
    · rename_i hne
      have hstands := Bytes.stands_find? hfound
      rw [Source.suffix_eq_drop, Bytes.Stands, List.drop_drop] at hstands
      exact Segment.quotes_of_stands (by simpa using hne) hstands

theorem entriesIn_keyEntries (entries : List KeyEntry) :
    (keyEntries src entries).entriesIn .href = [] := by
  have hslot : Slot.keys ≠ .href := by decide
  induction entries with
  | nil => rfl
  | cons entry rest ih =>
    simp only [keyEntries]
    rw [Forest.entriesIn, if_neg hslot]
    split
    · exact ih
    · exact (Forest.entriesIn_leaf (by decide) _ _ _).trans ih

theorem adds_directive (d : Directive) (start : Nat) :
    (directive src d cursor).Adds src (.directive d) (.empty start) := by
  constructor
  · intro p _
    cases hu : d.unclosed with
    | none => simp only [directive, Kind.due, hu, Option.filter_none]; rfl
    | some u =>
      by_cases hlt : u.start < u.stop
      · simp [directive, Kind.due, hu, Option.filter, Segment.isEmpty, hlt, Conversion.empty]
      · simp [directive, Kind.due, hu, Option.filter, Segment.isEmpty, hlt, Conversion.empty]
  · unfold directive
    extract_lets keys labelled errors
    have hlabelled : labelled.entriesIn .href = [] := by
      cases hl : d.label with
      | none => simpa only [labelled, hl] using entriesIn_keyEntries d.keys
      | some l =>
        simp only [labelled, hl]
        exact (Forest.entriesIn_leaf (by decide) _ _ _).trans (entriesIn_keyEntries d.keys)
    rintro p ⟨⟩
    exact (Forest.entriesIn_leaf (by decide) _ _ _).trans hlabelled

/-- One case for each kind: what is below a node is handed on, and what is due for it is added. -/
theorem adds_convertKind (hinner : inner.entries.entriesIn .href = []) (ht : n.kind ≠ .table)
    (marker : Option UInt8) (start : Nat) : (convertKind src marker n cursor inner).Adds src n.kind
      (if n.convertsBelow src then inner else .empty start) := by
  have hbelow :
      (if n.convertsBelow src then inner else .empty start).entries.entriesIn .href = [] := by
    split
    · exact hinner
    · rfl
  unfold convertKind Node.convertsBelow at *
  extract_lets extent
  cases hk : n.kind with
  | link destination => exact adds_link hinner _ destination _
  | image destination =>
    exact ⟨(adds_link hinner _ destination _).diagnostics,
      (adds_link hinner _ destination _).targets⟩
  | autoLink label protocol => exact adds_autoLink label protocol start
  | directive d => exact adds_directive d start
  | text | spacing | latex | thematicBreak =>
    exact (quiet_leafAt rfl start).adds rfl (fun _ => rfl) fun _ h => h
  | formula | underline =>
    exact (quiet_leafAt (Forest.entriesIn_leaf (by decide) _ _ _) start).adds rfl (fun _ => rfl)
      fun _ h => h
  | string => exact (quiet_none start).adds rfl (fun _ => rfl) fun _ h => h
  | fencedCode info =>
    rw [hk] at hbelow
    exact (quiet_fencedCode info n.lines extent start).adds hbelow (fun _ => rfl) fun _ h => h
  | codeBlock =>
    rw [hk] at hbelow
    exact (quiet_indentedCode n.lines extent start).adds hbelow (fun _ => rfl) fun _ h => h
  | htmlBlock type closure =>
    exact (quiet_htmlBlock type closure n.lines start).adds rfl (fun _ => rfl) fun _ h => h
  | rawHtml segments => exact (quiet_rawHtml segments start).adds rfl (fun _ => rfl) fun _ h => h
  | heading level => exact (quiet_heading n.lines extent).adds hinner (fun _ => rfl) fun _ h => h
  | blockquote => exact (quiet_blockquote extent).adds hinner (fun _ => rfl) fun _ h => h
  | list => exact (quiet_of_entries rfl rfl).adds hinner (fun _ => rfl) fun _ h => h
  | listItem => exact (quiet_listItem marker extent).adds hinner (fun _ => rfl) fun _ h => h
  | paragraph | textBlock | document | emphasis | strikethrough | codeSpan | tableHeader
  | tableRow | tableCell | otherBlock | otherInline =>
    exact (quiet_containerAt _ _).adds hinner (fun _ => rfl) fun _ h => h
  | table => exact absurd hk ht

/-! ## Nodes -/

section Slots

/-! Converted nodes are plain children: sequences of them hold nothing in any other slot. -/

variable {slot : Slot} (h : slot ≠ .children)
include h

theorem entriesIn_cons (o : Outcome) (rest : Conversion) :
    (Conversion.cons o rest).entries.entriesIn slot = rest.entries.entriesIn slot := by
  unfold Conversion.cons
  split
  · rfl
  · exact if_neg h.symm

theorem entriesIn_convertAll (marker : Option UInt8) (nodes : List Node) (cursor : Nat) :
    (convertAll src marker nodes cursor).entries.entriesIn slot = [] := by
  induction nodes generalizing cursor with
  | nil => rfl
  | cons n rest ih =>
    rw [convertAll, entriesIn_cons h]
    exact ih _

theorem entriesIn_convertRows (nodes : List Node) (cursor : Nat) :
    (convertRows src nodes cursor).entries.entriesIn slot = [] := by
  induction nodes generalizing cursor with
  | nil => rfl
  | cons n rest ih =>
    rw [convertRows]
    dsimp only
    split
    · rw [entriesIn_cons h, entriesIn_cons h]
      exact ih _
    · rw [entriesIn_cons h]
      exact ih _

end Slots

/-- What is converted with a node. -/
def convertedBelow (src : Source) (n : Node) (cursor : Nat) : Conversion :=
  if n.convertsBelow src then convertBelow src n cursor else .empty cursor

theorem adds_convertNode (src : Source) (n : Node) (marker : Option UInt8) (cursor : Nat) :
    (convertNode src marker n cursor).Adds src n.kind (convertedBelow src n cursor) := by
  cases n with
  | mk kind lines children =>
    by_cases hk : kind = .table
    · subst hk
      rw [convertNode_table]
      exact (quiet_table _).adds (entriesIn_convertRows (by decide) children cursor) (fun _ => rfl)
        fun _ h => h
    · have hbelow : convertBelow src (.mk kind lines children) cursor =
          convertAll src kind.marker? children cursor := if_neg hk
      rw [convertNode_of_ne hk, convertedBelow, hbelow]
      exact adds_convertKind (n := .mk kind lines children)
        (entriesIn_convertAll (by decide) _ children cursor) hk marker cursor

/-- Nodes without a place report nothing, whatever is below them. -/
theorem diagnostics_of_placeless (h : n.kind.isPlaceless = true) (marker : Option UInt8) :
    (convertNode src marker n cursor).diagnostics = [] := by
  cases n with
  | mk kind lines children =>
    rw [convertNode_of_ne (by rintro rfl; cases h)]
    cases kind with
    | string => rfl
    | rawHtml segments =>
      obtain rfl : segments = [] := List.isEmpty_iff.mp h
      rfl
    | _ => cases h

end Kinds

end Markdown

end DocTokens
