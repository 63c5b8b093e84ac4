import DocTokens.Proofs.Differences
import DocTokens.Proofs.ForestDumps
import DocTokens.Proofs.Markdown.Structure

/-! # Dumps of converted documents

Conversion takes slots and types from fixed words and leaves values in one slot only. Keys are the
one part of a dump that comes from the document as it is. So the tree of a document is known from
its dump unless a key has a line feed, and an empty difference of two dumps means that the trees are
equal.
-/

namespace DocTokens.Markdown

/-- The keys of a directive stand on one line each. -/
def Node.KeysOnLine (src : Source) (n : Node) : Prop :=
  ∀ d, n.kind = .directive d → ∀ e ∈ d.keys, newline ∉ src.slice e.key.start e.key.stop

/-- What is below the piece is legible. -/
def Outcome.Legible (o : Outcome) : Prop := ∀ p ∈ o.piece, p.below.Legible

theorem Kind.isWord_nodeType (src : Source) (kind : Kind) :
    Bytes.isWord (utf8 (kind.nodeType src).name) = true := by
  unfold Kind.nodeType
  repeat' split
  all_goals decide

/-! ## One kind after another -/

section Kinds

variable {src : Source} {cursor : Nat} {inner : Conversion} {below : Forest Shape} {n : Node}

theorem legible_leaf {slot : Slot} (h : Bytes.isWord (utf8 slot.name) = true) (span : Span)
    (hrest : below.Legible) : (Forest.leaf slot .text span below).Legible :=
  ⟨h, List.not_mem_nil, rfl, trivial, hrest⟩

theorem legible_literal (text : Bytes) :
    (.value ⟨.href, []⟩ (.literal text) .nil : Forest Shape).Legible :=
  ⟨by decide, rfl, by simp, trivial⟩

theorem legible_leafAt (type : NodeType) (s : Segment) (h : below.Legible) :
    (leafAt src cursor type s below).Legible := by
  rintro p ⟨⟩
  exact h

section Containers

variable (hi : inner.entries.Legible)
include hi

theorem legible_containerAt (type : NodeType) (s : Segment) :
    (containerAt src type s inner).Legible := by
  rintro p ⟨⟩
  exact hi

theorem legible_heading (lines : List Segment) (extent : Option Segment) :
    (heading src lines extent cursor inner).Legible := by
  unfold heading
  split
  · exact legible_containerAt hi _ _
  · exact legible_containerAt hi _ _

theorem legible_blockquote (extent : Option Segment) :
    (blockquote src extent cursor inner).Legible := by
  unfold blockquote
  split
  · exact legible_containerAt hi _ _
  · exact legible_containerAt hi _ _

theorem legible_listItem (marker : Option UInt8) (extent : Option Segment) :
    (listItem src marker extent cursor inner).Legible := by
  unfold listItem
  extract_lets bullet?
  clear_value bullet?
  split
  · rintro p ⟨⟩
    exact legible_leaf (by decide) _ hi
  · exact legible_containerAt hi _ _

theorem legible_link (type : NodeType) (destination : Bytes) (content : Option Segment) :
    (link src type destination content cursor inner).Legible := by
  unfold link
  extract_lets parts target warnings
  have htarget : target.Legible := by
    simp only [target]
    split
    · trivial
    · split
      · exact legible_leaf (by decide) _ trivial
      · exact legible_literal destination
  rintro p ⟨⟩
  exact Forest.legible_append hi htarget

theorem legible_fencedCode (info : Option Segment) (lines : List Segment)
    (extent : Option Segment) : (fencedCode src info lines extent cursor inner).Legible := by
  unfold fencedCode
  split
  · exact legible_containerAt hi _ _
  · extract_lets body stop stop' language type code below
    have hslot : Bytes.isWord (utf8 (if type = .code then Slot.code else .text).name) = true := by
      split <;> decide
    have hcode : code.Legible := by
      simp only [code]
      cases body with
      | none => trivial
      | some b => exact legible_leaf hslot _ trivial
    refine legible_leafAt _ _ ?_
    simp only [below]
    split
    · split
      · exact legible_leaf (by decide) _ hcode
      · exact hcode
    · exact hcode

theorem legible_indentedCode (lines : List Segment) (extent : Option Segment) :
    (indentedCode src lines extent cursor inner).Legible := by
  unfold indentedCode
  split
  · exact legible_containerAt hi _ _
  · exact legible_leafAt _ _ (legible_leaf (by decide) _ trivial)

end Containers

theorem legible_htmlBlock (type : Nat) (closure : Option Segment) (lines : List Segment) :
    (htmlBlock src type closure lines cursor).Legible := by
  unfold htmlBlock
  extract_lets nodeType place
  clear_value place
  split
  · exact legible_leafAt _ _ trivial
  · exact legible_leafAt _ _ trivial

theorem legible_rawHtml (segments : List Segment) : (rawHtml src segments cursor).Legible := by
  unfold rawHtml
  split
  · rintro p ⟨⟩
  · exact legible_leafAt _ _ trivial

theorem legible_autoLink (label : Segment) (protocol : Option Bytes) :
    (autoLink src label protocol cursor).Legible := by
  unfold autoLink
  extract_lets text found? url
  cases found? with
  | none => exact legible_leafAt _ _ (legible_literal _)
  | some k => exact legible_leafAt _ _ (legible_leaf (by decide) _ trivial)

theorem legible_keyEntries {keys : List KeyEntry}
    (h : ∀ e ∈ keys, newline ∉ src.slice e.key.start e.key.stop) :
    (keyEntries src keys).Legible := by
  induction keys with
  | nil => trivial
  | cons e keys ih =>
    obtain ⟨hkey, hkeys⟩ := List.forall_mem_cons.mp h
    rw [keyEntries]
    refine ⟨rfl, hkey, rfl, trivial, ?_⟩
    split
    · exact ih hkeys
    · exact legible_leaf (by decide) _ (ih hkeys)

theorem legible_directive {d : Directive}
    (h : ∀ e ∈ d.keys, newline ∉ src.slice e.key.start e.key.stop) :
    (directive src d cursor).Legible := by
  have hkeys := legible_keyEntries h
  rintro p ⟨⟩
  refine legible_leaf (by decide) _ ?_
  split
  · exact legible_leaf (by decide) _ hkeys
  · exact hkeys

/-- One case for each kind of node. -/
theorem legible_convertKind (hi : inner.entries.Legible) (hkeys : n.KeysOnLine src)
    (marker : Option UInt8) : (convertKind src marker n cursor inner).Legible := by
  unfold convertKind
  extract_lets extent
  cases hk : n.kind with
  | text | spacing | latex | thematicBreak => exact legible_leafAt _ _ trivial
  | formula | underline => exact legible_leafAt _ _ (legible_leaf (by decide) _ trivial)
  | directive d => exact legible_directive (hkeys d hk)
  | string => rintro p ⟨⟩
  | fencedCode info => exact legible_fencedCode hi info n.lines extent
  | codeBlock => exact legible_indentedCode hi n.lines extent
  | htmlBlock type closure => exact legible_htmlBlock type closure n.lines
  | rawHtml segments => exact legible_rawHtml segments
  | autoLink label protocol => exact legible_autoLink label protocol
  | heading level => exact legible_heading hi n.lines extent
  | blockquote => exact legible_blockquote hi extent
  | list =>
    rintro p ⟨⟩
    exact hi
  | listItem => exact legible_listItem hi marker extent
  | link destination | image destination => exact legible_link hi _ destination _
  | paragraph | textBlock | document | emphasis | strikethrough | codeSpan | table | tableHeader
  | tableRow | tableCell | otherBlock | otherInline => exact legible_containerAt hi _ _

end Kinds

/-! ## Documents -/

section Sequences

variable {src : Source} {cursor : Nat}

theorem legible_cons {o : Outcome} (ho : o.Legible)
    (htype : ∀ p ∈ o.piece, Bytes.isWord (utf8 p.type.name) = true) {rest : Conversion}
    (hrest : rest.entries.Legible) : (Conversion.cons o rest).entries.Legible := by
  cases hp : o.piece with
  | none =>
    rw [cons_of_none hp]
    exact hrest
  | some p =>
    rw [cons_of_some hp]
    exact ⟨by decide, List.not_mem_nil, htype p hp, ho p hp, hrest⟩

theorem isWord_convertNode (src : Source) (n : Node) (marker : Option UInt8) (cursor : Nat) :
    ∀ p ∈ (convertNode src marker n cursor).piece, Bytes.isWord (utf8 p.type.name) = true := by
  intro p hp
  cases hplace : n.kind.isPlaceless with
  | true =>
    rw [piece_convertNode hplace] at hp
    cases hp
  | false =>
    obtain ⟨segment, before, after, hpiece, -⟩ := wraps_convertNode hplace marker cursor
    obtain rfl := Option.some.inj (hp.symm.trans hpiece)
    exact n.kind.isWord_nodeType src

section Nodes

variable {nodes : List Node}
  (h : ∀ n ∈ nodes, ∀ marker cursor, (convertNode src marker n cursor).Legible)
include h

theorem legible_convertAll (marker : Option UInt8) :
    (convertAll src marker nodes cursor).entries.Legible := by
  induction nodes generalizing cursor with
  | nil => trivial
  | cons n rest ih =>
    rw [convertAll]
    exact legible_cons (h n List.mem_cons_self marker cursor)
      (isWord_convertNode src n marker cursor)
      (ih fun m hm => h m (List.mem_cons_of_mem _ hm))

theorem legible_convertRows : (convertRows src nodes cursor).entries.Legible := by
  induction nodes generalizing cursor with
  | nil => trivial
  | cons n rest ih =>
    have ho := h n List.mem_cons_self none cursor
    have htype := isWord_convertNode src n none cursor
    have hrest := fun cursor => @ih cursor fun m hm => h m (List.mem_cons_of_mem _ hm)
    rw [convertRows]
    dsimp only
    split
    · refine legible_cons ho htype (legible_cons (fun p hp => ?_) (fun p hp => ?_) (hrest _))
      · rw [(piece_controlRow src _ p hp).2]
        trivial
      · rw [(piece_controlRow src _ p hp).1]
        decide
    · exact legible_cons ho htype (hrest _)

end Nodes

theorem legible_convertNode {n : Node} (h : n.Everywhere (Node.KeysOnLine src))
    (marker : Option UInt8) (cursor : Nat) : (convertNode src marker n cursor).Legible := by
  induction h generalizing marker cursor with
  | @mk kind lines children hhere _ ih =>
    by_cases hk : kind = .table
    · subst hk
      rw [convertNode_table]
      unfold table
      split
      · rintro p ⟨⟩
        exact legible_convertRows ih
      · exact legible_containerAt (legible_convertRows ih) _ _
    · rw [convertNode_of_ne hk]
      exact legible_convertKind (legible_convertAll ih _) hhere marker

/-- The dump of a converted document is read back. -/
theorem dump_convert_inj {src src' : Source} {document document' : Node}
    (h : document.Everywhere (Node.KeysOnLine src))
    (h' : document'.Everywhere (Node.KeysOnLine src')) :
    (convert src document).1.dump = (convert src' document').1.dump ↔
      (convert src document).1 = (convert src' document').1 := by
  refine Forest.dump_toTree_inj ?_ ?_ rfl rfl
  · exact legible_convertAll (fun n hn => legible_convertNode (h.children n hn)) none
  · exact legible_convertAll (fun n hn => legible_convertNode (h'.children n hn)) none

end Sequences

/-- Documents with keys that stand on one line have the same dump only if their trees are the same.
So, where the difference of two texts is empty exactly when they are equal, so is the report on the
trees. -/
theorem convert_dump_faithful (src src' : Source) (document document' : Node)
    (h : document.Everywhere (Node.KeysOnLine src))
    (h' : document'.Everywhere (Node.KeysOnLine src')) :
    let want := (convert src document).1
    let got := (convert src' document').1
    (want.dump = got.dump ↔ want = got) ∧
    ∀ lineDiff : Bytes → Bytes → Bytes,
      (∀ actual expected, lineDiff actual expected = [] ↔ actual = expected) →
      (Diff.trees lineDiff want got = [] ↔ want = got) := by
  intro want got
  have hdump := dump_convert_inj h h'
  refine ⟨hdump, fun lineDiff hdiff => ?_⟩
  rw [Diff.trees, Diff.report_eq_nil_iff (hdiff _ _), eq_comm]
  exact hdump

def forgedSource : Source := (utf8 "!M\x7bk]: Text#9[3,19): v\x7d [a]").toArray

/-- A key that reads like the rest of a line of a dump, and a link whose destination is given
elsewhere. -/
def forgedDocument (destination : Bytes) : Node :=
  .mk .document []
    [.mk .paragraph [⟨0, 27⟩]
      [.leaf (.directive ⟨⟨0, 23⟩, ⟨1, 2⟩, none, [⟨⟨3, 19⟩, ⟨21, 22⟩⟩], none⟩),
        .mk (.link destination) [] [.text ⟨25, 26⟩]]]

/-- A byte that is no text and the four characters of its escape are two destinations. -/
theorem convert_dump_faithful_escape :
    (∀ destination, (forgedDocument destination).Everywhere (Node.KeysOnLine forgedSource)) ∧
    (let want := (convert forgedSource (forgedDocument [0xff])).1
     let got := (convert forgedSource (forgedDocument (utf8 "\\xff"))).1
     (want.dump = got.dump ↔ want = got) ∧ (Diff.trees Diff.lines want got = [] ↔ want = got) ∧
     want.size = 8 ∧ want.dump ≠ got.dump) := by
  have hkeys : ∀ destination,
      (forgedDocument destination).Everywhere (Node.KeysOnLine forgedSource) := by
    intro destination
    simp only [forgedDocument, Node.text, Node.leaf, Node.everywhere_mk_iff, List.forall_mem_cons,
      List.not_mem_nil, IsEmpty.forall_iff, implies_true, and_true]
    and_intros
    all_goals
      rintro d ⟨⟩
    decide
  obtain ⟨hdump, hreport⟩ := convert_dump_faithful forgedSource forgedSource
    (forgedDocument [0xff]) (forgedDocument (utf8 "\\xff")) (hkeys _) (hkeys _)
  exact ⟨hkeys, hdump, hreport Diff.lines Diff.lines_eq_nil_iff, by decide +kernel,
    by decide +kernel⟩

end DocTokens.Markdown
