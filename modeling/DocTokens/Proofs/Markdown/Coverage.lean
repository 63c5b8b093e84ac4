import DocTokens.Markdown.Parse
import DocTokens.Proofs.Markdown.Counterparts

/-! # Coverage

The extent of a node covers the extents of all that is converted with it. An inline container is put
at its extent, and so are the nodes below it when something in each of them has a position: there
containers cover what they hold. A block quote or a list item covers the extents below it as well,
but a block inside may reach further than its extent.
-/

namespace DocTokens

/-! ## Covering -/

/-- One span contains the other. -/
def Span.Covers (outer inner : Span) : Prop := outer.start ≤ inner.start ∧ inner.stop ≤ outer.stop

instance (outer inner : Span) : Decidable (outer.Covers inner) :=
  inferInstanceAs (Decidable (_ ∧ _))

/-- One segment contains the other. -/
structure Segment.Covers (outer inner : Segment) : Prop where
  start_le : outer.start ≤ inner.start
  stop_le : inner.stop ≤ outer.stop

namespace Segment.Covers

variable {a b c : Segment}

theorem refl (a : Segment) : a.Covers a := ⟨Nat.le_refl _, Nat.le_refl _⟩

theorem trans (h : a.Covers b) (h' : b.Covers c) : a.Covers c :=
  ⟨Nat.le_trans h.start_le h'.start_le, Nat.le_trans h'.stop_le h.stop_le⟩

theorem hull_left (a b : Segment) : (a.hull b).Covers a :=
  ⟨Nat.min_le_left _ _, Nat.le_max_left _ _⟩

theorem hull_right (a b : Segment) : (a.hull b).Covers b :=
  ⟨Nat.min_le_right _ _, Nat.le_max_right _ _⟩

theorem toSpan (h : a.Covers b) : a.toSpan.Covers b.toSpan :=
  ⟨Int.ofNat_le.mpr h.start_le, Int.ofNat_le.mpr h.stop_le⟩

end Segment.Covers

namespace Source

variable {src : Source} {p : UInt8 → Bool} {start stop stop' : Nat}

theorem exists_of_at? {i : Nat} (h : src.at? i p = true) : ∃ b, src[i]? = some b ∧ p b = true := by
  unfold at? at h
  split at h
  · exact ⟨_, ‹_›, h⟩
  · cases h

/-- All bytes that a move back crosses satisfy the predicate, and there are no more than the
limit. -/
theorem back_spec (src : Source) (p : UInt8 → Bool) (limit pos : Nat) :
    pos ≤ src.back p limit pos + limit ∧
      ∀ i, src.back p limit pos ≤ i → i < pos → src.at? i p = true := by
  induction limit generalizing pos with
  | zero =>
    refine ⟨Nat.le_refl pos, fun i hle hlt => ?_⟩
    rw [back] at hle
    omega
  | succ limit ih =>
    rw [back]
    split
    · rename_i hstep
      simp only [Bool.and_eq_true, decide_eq_true_eq] at hstep
      obtain ⟨hlimit, hcrossed⟩ := ih (pos - 1)
      refine ⟨by omega, fun i hle hlt => ?_⟩
      by_cases hi : i = pos - 1
      · exact hi ▸ hstep.2
      · exact hcrossed i hle (by omega)
    · exact ⟨by omega, fun i hle hlt => by omega⟩

theorem forward_spec (src : Source) (p : UInt8 → Bool) (limit pos : Nat) :
    src.forward p limit pos ≤ pos + limit ∧
      ∀ i, pos ≤ i → i < src.forward p limit pos → src.at? i p = true := by
  induction limit generalizing pos with
  | zero =>
    refine ⟨Nat.le_refl pos, fun i hle hlt => ?_⟩
    rw [forward] at hlt
    omega
  | succ limit ih =>
    rw [forward]
    split
    · rename_i hstep
      obtain ⟨hlimit, hcrossed⟩ := ih (pos + 1)
      refine ⟨by omega, fun i hle hlt => ?_⟩
      by_cases hi : i = pos
      · exact hi ▸ hstep
      · exact hcrossed i (by omega) hlt
    · exact ⟨by omega, fun i hle hlt => by omega⟩

theorem trimNewline_le (src : Source) (start stop : Nat) : src.trimNewline start stop ≤ stop := by
  refine Nat.le_trans (trimReturn_le src start _) ?_
  split <;> omega

/-- Trimming takes two bytes only where a carriage return stands before the line feed. -/
theorem trimNewline_cases (src : Source) (start stop : Nat) :
    min stop src.size ≤ src.trimNewline start stop + 1 ∨
      src.trimNewline start stop + 2 = min stop src.size ∧ start < src.trimNewline start stop + 1 ∧
        src.at? (src.trimNewline start stop) (· == ascii '\r') = true := by
  unfold trimNewline trimReturn
  extract_lets a b
  have hb : a ≤ b + 1 := by
    simp only [b]
    split <;> omega
  split
  · rename_i hreturn
    simp only [Bool.and_eq_true, decide_eq_true_eq] at hreturn
    by_cases hab : a ≤ b - 1 + 1
    · exact .inl hab
    · exact .inr ⟨by omega, by omega, hreturn.2⟩
  · exact .inl hb

theorem trimNewline_lt (hlt : start < stop) (h : src.at? (stop - 1) (· == ascii '\r') = true) :
    src.trimNewline start stop < stop := by
  have hsize := lt_of_at? h
  unfold trimNewline
  extract_lets a b
  have ha : a = stop := Nat.min_eq_left (by omega)
  have hb : b = stop ∨ b < stop := by
    simp only [b, ha]
    split <;> omega
  rcases hb with hb | hb
  · rw [hb, trimReturn, if_pos (by simp [hlt, h])]
    omega
  · exact Nat.lt_of_le_of_lt (trimReturn_le src start b) hb

theorem trimNewline_congr (start : Nat) (h : min stop src.size = min stop' src.size) :
    src.trimNewline start stop = src.trimNewline start stop' := by
  unfold trimNewline
  rw [h]

theorem trimNewline_mono (start : Nat) (h : stop ≤ stop') :
    src.trimNewline start stop ≤ src.trimNewline start stop' := by
  by_cases heq : min stop src.size = min stop' src.size
  · exact Nat.le_of_eq (trimNewline_congr start heq)
  · have hle := src.trimNewline_le start stop
    have hsize := src.trimNewline_le_size start stop
    rcases src.trimNewline_cases start stop' with htrim | ⟨htrim, hstart, hreturn⟩
    · omega
    · by_cases hend : min stop src.size = src.trimNewline start stop' + 1
      · -- the shorter range ends between the two bytes of the line break and loses the first
        have hcut : min stop src.size = min (src.trimNewline start stop' + 1) src.size := by omega
        have hlt : src.trimNewline start (src.trimNewline start stop' + 1) <
            src.trimNewline start stop' + 1 := trimNewline_lt hstart hreturn
        rw [trimNewline_congr start hcut]
        omega
      · omega

end Source

namespace Markdown

variable {src : Source}

/-! ## Widening -/

/-- The outer segment adds at most `limit` bytes on each side of the inner one, all of them `P`. -/
structure Widens (src : Source) (P : UInt8 → Prop) (limit : Nat) (inner outer : Segment) :
    Prop where
  before_le : inner.start ≤ outer.start + limit
  before : ∀ i, outer.start ≤ i → i < inner.start → ∃ b, src[i]? = some b ∧ P b
  after_le : outer.stop ≤ inner.stop + limit
  after : ∀ i, inner.stop ≤ i → i < outer.stop → ∃ b, src[i]? = some b ∧ P b

theorem widens_widen {P : UInt8 → Prop} {p : UInt8 → Bool} (hp : ∀ b, p b = true → P b)
    (limit : Nat) (s : Segment) : Widens src P limit s (widen src p limit s) := by
  obtain ⟨hbefore, hback⟩ := src.back_spec p limit s.start
  obtain ⟨hafter, hforward⟩ := src.forward_spec p limit s.stop
  refine ⟨hbefore, fun i hle hlt => ?_, hafter, fun i hle hlt => ?_⟩
  · obtain ⟨b, hb, hpb⟩ := Source.exists_of_at? (hback i hle hlt)
    exact ⟨b, hb, hp b hpb⟩
  · obtain ⟨b, hb, hpb⟩ := Source.exists_of_at? (hforward i hle hlt)
    exact ⟨b, hb, hp b hpb⟩

theorem covers_widen (p : UInt8 → Bool) (limit : Nat) (s : Segment) :
    (widen src p limit s).Covers s :=
  ⟨src.back_le p limit s.start, src.le_forward p limit s.stop⟩

theorem covers_widenCodeSpan (s : Segment) : (widenCodeSpan src s).Covers s := by
  unfold widenCodeSpan
  extract_lets start stop
  have hinner : Segment.Covers ⟨start, stop⟩ s := by
    constructor
    · simp only [start]
      split <;> omega
    · simp only [stop]
      split <;> omega
  exact (covers_widen _ _ _).trans hinner

theorem covers_widenBrackets (isImage : Bool) (s : Segment) :
    (widenBrackets src isImage s).Covers s := by
  constructor
  · simp only [widenBrackets]
    split <;> split <;> omega
  · simp only [widenBrackets]
    split <;> omega

/-- The extent of a link covers its text also when it ends at a parenthesis behind it. -/
theorem covers_linkParts (destination : Bytes) (isImage : Bool) (s : Segment) :
    (linkParts src destination isImage s).extent.Covers s := by
  unfold linkParts
  extract_lets outer p q href r
  have houter : outer.Covers s := covers_widenBrackets isImage s
  split
  · have hp : outer.stop + 1 ≤ p := src.le_forward _ _ _
    have hq : p ≤ q := src.le_forward _ _ _
    have hr : q ≤ r := by
      cases hh : href with
      | none => simp only [r, hh, Nat.le_refl]
      | some h =>
        have hstop : h.stop = q + destination.length := by
          simp only [href] at hh
          split at hh
          · cases hh
            rfl
          · cases hh
        simp only [r, hh]
        omega
    split
    · rename_i n _
      have hstop := houter.stop_le
      refine ⟨houter.start_le, ?_⟩
      change s.stop ≤ r + n + 1
      omega
    · exact houter
  · exact houter

/-! ## Extents cover extents -/

theorem covers_extents {ns : List Node} {n : Node} {s : Segment} (hn : n ∈ ns)
    (hs : n.extent src = some s) : ∃ h, Node.extents src ns = some h ∧ h.Covers s := by
  induction ns with
  | nil => cases hn
  | cons m ns ih =>
    rw [Node.extents]
    rcases List.mem_cons.mp hn with rfl | hn
    · rw [hs]
      cases Node.extents src ns with
      | none => exact ⟨s, rfl, .refl s⟩
      | some h => exact ⟨s.hull h, rfl, .hull_left s h⟩
    · obtain ⟨h, hh, hcovers⟩ := ih hn
      rw [hh]
      cases m.extent src with
      | none => exact ⟨h, rfl, hcovers⟩
      | some e => exact ⟨e.hull h, rfl, (Segment.Covers.hull_right e h).trans hcovers⟩

theorem covers_content {n : Node} {h : Segment} (hh : Node.extents src n.children = some h) :
    ∃ k, n.content src = some k ∧ k.Covers h := by
  unfold Node.content
  rw [hh]
  cases (if n.kind.isBlock then firstToLast? n.lines else none) with
  | none => exact ⟨h, rfl, .refl h⟩
  | some own => exact ⟨own.hull h, rfl, .hull_right own h⟩

/-- Where what is below a node is converted with it, the node has an extent around its content. -/
theorem covers_extent {n : Node} {k : Segment} (hopen : n.convertsBelow src = true)
    (hk : n.content src = some k) : ∃ s, n.extent src = some s ∧ s.Covers k := by
  rw [Node.extent_eq, hk]
  unfold Node.convertsBelow at hopen
  cases hkind : n.kind with
  | emphasis level => exact ⟨_, rfl, covers_widen _ level k⟩
  | strikethrough => exact ⟨_, rfl, covers_widen _ 2 k⟩
  | codeSpan => exact ⟨_, rfl, covers_widenCodeSpan k⟩
  | link destination => exact ⟨_, rfl, covers_linkParts destination false k⟩
  | image destination => exact ⟨_, rfl, covers_linkParts destination true k⟩
  | text | formula | underline | spacing | latex | directive | rawHtml =>
    rw [hkind] at hopen
    cases hopen
  | _ => exact ⟨k, rfl, .refl k⟩

theorem mem_finishedAll_iff {opens : Node → Bool} {nodes : List Node} {m : Node} :
    m ∈ finishedAll opens nodes ↔ ∃ n ∈ nodes, m ∈ n.finished opens := by
  induction nodes with
  | nil => simp [finishedAll]
  | cons n rest ih => simp [finishedAll, ih]

theorem mem_finishedBelow_iff {n m : Node} : m ∈ n.finishedBelow src ↔
    n.convertsBelow src = true ∧ ∃ k ∈ n.children, k.kind.isPlaceless = false ∧
      (m = k ∨ m ∈ k.finishedBelow src) := by
  have hfinished : ∀ k : Node, m ∈ k.finished (Node.convertsBelow src) ↔
      k.kind.isPlaceless = false ∧ (m = k ∨ m ∈ k.finishedBelow src) := by
    intro k
    cases hplace : k.kind.isPlaceless with
    | true => simp [Node.finished_of_placeless hplace]
    | false =>
      rw [Node.finished_of_placed hplace, List.mem_append, List.mem_singleton, Node.finishedBelow]
      simp [or_comm]
  unfold Node.finishedBelow
  split
  · rename_i hopen
    rw [mem_finishedAll_iff]
    simp only [hfinished, hopen, true_and, Node.finishedBelow]
  · rename_i hopen
    simp [hopen]

/-- The extent of a node covers the extents of all that is converted with it, at every depth. -/
theorem covers_of_mem_finishedBelow {n m : Node} {e : Segment} (hm : m ∈ n.finishedBelow src)
    (he : m.extent src = some e) : ∃ s, n.extent src = some s ∧ s.Covers e := by
  induction n using Node.of_children with
  | h n ih =>
    obtain ⟨hopen, k, hk, -, hbelow⟩ := mem_finishedBelow_iff.mp hm
    obtain ⟨d, hd, hchild⟩ : ∃ d, k.extent src = some d ∧ d.Covers e := by
      rcases hbelow with rfl | hbelow
      · exact ⟨e, he, .refl e⟩
      · exact ih k hk hbelow
    -- from the extent of the child to the hull of all children, the content and the extent
    obtain ⟨h, hh, hhull⟩ := covers_extents hk hd
    obtain ⟨c, hc, hcontent⟩ := covers_content hh
    obtain ⟨s, hs, hextent⟩ := covers_extent hopen hc
    exact ⟨s, hs, hextent.trans (hcontent.trans (hhull.trans hchild))⟩

/-! ## Inline containers -/

namespace Kind

/-- The kinds of inline nodes. -/
def isInline : Kind → Bool
  | text _ | string | codeSpan | emphasis _ | strikethrough | link _ | image _ | autoLink _ _
  | rawHtml _ | directive _ | formula _ | underline _ | spacing _ _ | latex _ | otherInline => true
  | _ => false

/-- The inline kinds whose place follows from what is below them. -/
def isInlineContainer : Kind → Bool
  | codeSpan | emphasis _ | strikethrough | link _ | image _ | otherInline => true
  | _ => false

/-- The inline kinds that carry a position of their own. -/
def isPositioned : Kind → Bool
  | text _ | directive _ | formula _ | underline _ | spacing _ _ | latex _ => true
  | rawHtml segments => !segments.isEmpty
  | _ => false

/-- What the extent of a node may add around the hull of its children, where delimiters mark it. -/
def Delimits (src : Source) (inner outer : Segment) : Kind → Prop
  | emphasis level => Widens src (fun b => b = ascii '*' ∨ b = ascii '_') level inner outer
  | strikethrough => Widens src (fun b => b = ascii '~') 2 inner outer
  | _ => True

end Kind

namespace Node

/-- The first node stands below the second, at any depth. -/
inductive Below : Node → Node → Prop where
  | child {m n : Node} : m ∈ n.children → Below m n
  | deeper {k m n : Node} : m ∈ n.children → Below k m → Below k n

/-- An inline node whose place can be told: no automatic link, and no container without a position
below it. -/
structure Grounded (n : Node) : Prop where
  inline : n.kind.isInline = true
  not_autoLink : ∀ label protocol, n.kind ≠ .autoLink label protocol
  positioned : n.kind.isInlineContainer = true →
    ∃ m : Node, m.Below n ∧ m.kind.isPositioned = true

/-- The first node stands below the second, but not below raw HTML without segments there. -/
inductive ShownBelow : Node → Node → Prop where
  | child {m n : Node} : m ∈ n.children → ShownBelow m n
  | deeper {k m n : Node} : m ∈ n.children → m.kind ≠ .rawHtml [] → ShownBelow k m → ShownBelow k n

theorem ShownBelow.toBelow {m n : Node} (h : m.ShownBelow n) : m.Below n := by
  induction h with
  | child hmem => exact .child hmem
  | deeper hmem _ _ ih => exact .deeper hmem ih

/-- A grounded node whose position shows: raw HTML without segments has no extent, and what is below
it does not count. -/
structure Anchored (n : Node) : Prop extends Grounded n where
  shown : n.kind.isInlineContainer = true →
    ∃ m : Node, m.ShownBelow n ∧ m.kind.isPositioned = true

end Node

section Inline

variable {n : Node} {s : Segment}

theorem exists_extent_of_positioned (h : n.kind.isPositioned = true) :
    ∃ s, n.extent src = some s := by
  rw [Node.extent_eq]
  cases hk : n.kind with
  | rawHtml segments =>
    cases segments with
    | nil =>
      rw [hk] at h
      cases h
    | cons first rest =>
      obtain ⟨stop, hplace⟩ := firstToLast?_cons first rest
      exact ⟨_, hplace⟩
  | text | directive | formula | underline | spacing | latex => exact ⟨_, rfl⟩
  | _ =>
    rw [hk] at h
    cases h

/-- Where something below an anchored node has an extent, the node has one. -/
theorem Node.Anchored.exists_extent (h : n.Anchored) (hne : n.kind ≠ .rawHtml []) {k : Segment}
    (hk : Node.extents src n.children = some k) : ∃ s, n.extent src = some s := by
  obtain ⟨c, hc, -⟩ := covers_content hk
  cases hplace : n.kind.isPositioned with
  | true => exact exists_extent_of_positioned hplace
  | false =>
    have hauto := h.not_autoLink
    have hinline := h.inline
    rw [Node.extent_eq, hc]
    cases hkind : n.kind with
    | rawHtml segments =>
      have hnil : segments = [] := by simpa [hkind, Kind.isPositioned] using hplace
      exact absurd (hkind.trans (congrArg Kind.rawHtml hnil)) hne
    | autoLink label protocol => exact absurd hkind (hauto label protocol)
    | text | directive | formula | underline | spacing | latex =>
      rw [hkind] at hplace
      cases hplace
    | string | codeSpan | emphasis | strikethrough | link | image | otherInline => exact ⟨_, rfl⟩
    | _ =>
      rw [hkind] at hinline
      cases hinline

/-- A position that shows below a node, with its subtree anchored, shows in the hull of its
children. -/
theorem exists_extents_of_shown {m : Node} (h : m.ShownBelow n) (hm : m.kind.isPositioned = true)
    (hn : n.Everywhere Node.Anchored) : ∃ k, Node.extents src n.children = some k := by
  induction h with
  | child hmem =>
    obtain ⟨s, hs⟩ := exists_extent_of_positioned hm
    obtain ⟨k, hk, -⟩ := covers_extents hmem hs
    exact ⟨k, hk⟩
  | deeper hmem hne _ ih =>
    obtain ⟨k, hk⟩ := ih (hn.children _ hmem)
    obtain ⟨s, hs⟩ := (hn.children _ hmem).here.exists_extent hne hk
    obtain ⟨h, hh, -⟩ := covers_extents hmem hs
    exact ⟨h, hh⟩

theorem exists_extents_of_container (src : Source) (hn : n.Everywhere Node.Anchored)
    (h : n.kind.isInlineContainer = true) : ∃ k, Node.extents src n.children = some k := by
  obtain ⟨m, hshown, hm⟩ := hn.here.shown h
  exact exists_extents_of_shown hshown hm hn

theorem Kind.ne_rawHtml_of_isInlineContainer {kind : Kind} (h : kind.isInlineContainer = true)
    (segments : List Segment) : kind ≠ .rawHtml segments := by
  rintro rfl
  cases h

/-- Where the place of an inline node comes from. -/
theorem Kind.isInline_cases {kind : Kind} (h : kind.isInline = true) :
    kind.isPositioned = true ∨ kind.isInlineContainer = true ∨ kind.isPlaceless = true ∨
      ∃ label protocol, kind = .autoLink label protocol := by
  cases kind with
  | text | directive | formula | underline | spacing | latex => exact .inl rfl
  | rawHtml segments =>
    cases segments with
    | nil => exact .inr (.inr (.inl rfl))
    | cons _ _ => exact .inl rfl
  | codeSpan | emphasis | strikethrough | link | image | otherInline => exact .inr (.inl rfl)
  | string => exact .inr (.inr (.inl rfl))
  | autoLink label protocol => exact .inr (.inr (.inr ⟨label, protocol, rfl⟩))
  | _ => cases h

/-- Anchored nodes with a place have an extent. -/
theorem exists_extent_of_anchored (hn : n.Everywhere Node.Anchored)
    (hplace : n.kind.isPlaceless = false) : ∃ s, n.extent src = some s := by
  rcases Kind.isInline_cases hn.here.inline with
    hpositioned | hcontainer | hplaceless | ⟨label, protocol, hauto⟩
  · exact exists_extent_of_positioned hpositioned
  · obtain ⟨k, hk⟩ := exists_extents_of_container src hn hcontainer
    exact hn.here.exists_extent (Kind.ne_rawHtml_of_isInlineContainer hcontainer []) hk
  · rw [hplace] at hplaceless
    cases hplaceless
  · exact absurd hauto (hn.here.not_autoLink label protocol)

/-- An inline node with an extent is put there, wherever the cursor is. -/
theorem segment_eq_of_extent {marker : Option UInt8} {cursor : Nat} {p : Piece} (hn : n.Anchored)
    (hs : n.extent src = some s) (hp : (convertNode src marker n cursor).piece = some p) :
    p.segment = s := by
  have hinline := hn.inline
  have hauto := hn.not_autoLink
  cases n with
  | mk kind lines children =>
    change kind.isInline = true at hinline
    rw [convertNode_of_ne (by rintro rfl; cases hinline)] at hp
    cases kind with
    | text t | formula t | underline t | spacing t | latex t | directive d =>
      cases hs
      cases hp
      rfl
    | rawHtml segments =>
      change firstToLast? segments = some s at hs
      simp only [convertKind, Node.kind, rawHtml, hs] at hp
      cases hp
      rfl
    | emphasis | strikethrough | codeSpan | otherInline =>
      simp only [convertKind, Node.kind, container, hs] at hp
      cases hp
      rfl
    | link destination | image destination =>
      rw [Node.extent_eq] at hs
      obtain ⟨k, hk, rfl⟩ := Option.map_eq_some_iff.mp hs
      simp only [convertKind, Node.kind, link, hk] at hp
      cases hp
      rfl
    | string => cases hp
    | autoLink label protocol => exact absurd rfl (hauto label protocol)
    | _ => cases hinline

theorem content_of_inline (h : n.kind.isInline = true) :
    n.content src = Node.extents src n.children := by
  have hblock : n.kind.isBlock = false := by
    cases hk : n.kind with
    | text | string | codeSpan | emphasis | strikethrough | link | image | autoLink | rawHtml
    | directive | formula | underline | spacing | latex | otherInline => rfl
    | _ =>
      rw [hk] at h
      cases h
  rw [Node.content, hblock]
  rfl

theorem Kind.delimits_extent {kind : Kind} {inner outer : Segment}
    (h : kind.extent src (some inner) = some outer) : kind.Delimits src inner outer := by
  cases kind with
  | emphasis level =>
    cases h
    exact widens_widen (by simp [isEmphasisMark]) level inner
  | strikethrough =>
    cases h
    exact widens_widen (by simp [isTilde]) 2 inner
  | _ => trivial

variable {t : Tree} {c : DocTokens.Node × Forest DocTokens.Node}

theorem Node.Counterpart.type_eq (h : n.Counterpart src t c) : c.1.type = n.kind.nodeType src := by
  obtain ⟨b, hbecomes, hholds⟩ := h
  exact hholds.type_eq.symm.trans hbecomes.type_eq

theorem Node.Counterpart.span_eq (h : n.Counterpart src t c) (hn : n.Anchored)
    (hs : n.extent src = some s) : c.1.span = s.toSpan := by
  obtain ⟨b, ⟨marker, cursor, p, hpiece, rfl⟩, hholds⟩ := h
  rw [← hholds.span_eq, ← segment_eq_of_extent hn hs hpiece]

theorem Node.Everywhere.of_mem_finishedBelow {P : Node → Prop} {m : Node} (h : n.Everywhere P)
    (hm : m ∈ n.finishedBelow src) : m.Everywhere P ∧ m.kind.isPlaceless = false := by
  induction n using Node.of_children with
  | h n ih =>
    obtain ⟨-, k, hk, hplace, hbelow⟩ := mem_finishedBelow_iff.mp hm
    rcases hbelow with rfl | hbelow
    · exact ⟨h.children m hk, hplace⟩
    · exact ih k hk (h.children k hk) hbelow

/-- The counterpart of an anchored container covers the counterparts of all that is converted with
it. -/
theorem Node.Counterpart.covers (h : n.Counterpart src t c) (hn : n.Everywhere Node.Anchored)
    (hs : n.extent src = some s) :
    List.Forall₂ (fun m d => d.1.type = m.kind.nodeType src ∧ c.1.span.Covers d.1.span)
      (n.finishedBelow src) (c.2.branches Node.type c.1.type) := by
  refine ((List.forall₂_and_left _ _).mpr ⟨fun m hm => hm, h.below⟩).imp ?_
  rintro m d ⟨hm, hcounterpart⟩
  obtain ⟨hanchored, hplace⟩ := hn.of_mem_finishedBelow hm
  obtain ⟨e, he⟩ := exists_extent_of_anchored hanchored hplace
  obtain ⟨s', hs', hcovers⟩ := covers_of_mem_finishedBelow hm he
  obtain rfl : s' = s := Option.some.inj (hs'.symm.trans hs)
  refine ⟨hcounterpart.type_eq, ?_⟩
  rw [h.span_eq hn.here hs, hcounterpart.span_eq hanchored.here he]
  exact hcovers.toSpan

end Inline

/-- An inline container whose subtree is anchored is put at its extent, which adds nothing but
delimiters to the hull of its children, and covers every node that is converted with it. -/
theorem convert_inline_covers (src : Source) (document : Node) :
    let t := (convert src document).1
    List.Forall₂ (fun n c =>
        n.kind.isInlineContainer = true → n.Everywhere Node.Anchored →
        ∃ inner s, Node.extents src n.children = some inner ∧ n.extent src = some s ∧
          c.1.span = s.toSpan ∧ n.kind.Delimits src inner s ∧
          List.Forall₂ (fun m d => d.1.type = m.kind.nodeType src ∧ c.1.span.Covers d.1.span)
            (n.finishedBelow src) (c.2.branches Node.type c.1.type))
      (finishedAll (Node.convertsBelow src) document.children) t.branches := by
  intro t
  refine (convert_counterparts src document).1.imp ?_
  intro n c hcounterpart hcontainer hanchored
  obtain ⟨inner, hinner⟩ := exists_extents_of_container src hanchored hcontainer
  have hne := Kind.ne_rawHtml_of_isInlineContainer hcontainer []
  obtain ⟨s, hs⟩ := hanchored.here.exists_extent hne hinner
  refine ⟨inner, s, hinner, hs, hcounterpart.span_eq hanchored.here hs, ?_,
    hcounterpart.covers hanchored hs⟩
  rw [Node.extent_eq, content_of_inline hanchored.here.inline, hinner] at hs
  exact Kind.delimits_extent hs

def nestedSource : Source := (utf8 "*[`a`](u) ~~b~~*").toArray

/-- A link with a code span and struck out text, both emphasized. -/
def nestedEmphasis : Node :=
  .mk (.emphasis 1) []
    [.mk (.link (utf8 "u")) [] [.mk .codeSpan [] [.text ⟨3, 4⟩]], .text ⟨9, 10⟩,
      .mk .strikethrough [] [.text ⟨12, 13⟩]]

def nestedDocument : Node := .mk .document [] [.mk .paragraph [⟨0, 16⟩] [nestedEmphasis]]

theorem grounded_of_below {n m : Node} (hn : n.kind.isInlineContainer = true) (h : m.Below n)
    (hm : m.kind.isPositioned = true) : n.Grounded := by
  refine ⟨?_, ?_, fun _ => ⟨m, h, hm⟩⟩
  · cases hk : n.kind with
    | codeSpan | emphasis | strikethrough | link | image | otherInline => rfl
    | _ =>
      rw [hk] at hn
      cases hn
  · intro label protocol hk
    rw [hk] at hn
    cases hn

theorem anchored_of_shown {n m : Node} (hn : n.kind.isInlineContainer = true) (h : m.ShownBelow n)
    (hm : m.kind.isPositioned = true) : n.Anchored :=
  ⟨grounded_of_below hn h.toBelow hm, fun _ => ⟨m, h, hm⟩⟩

theorem anchored_text (s : Segment) : (Node.text s).Everywhere Node.Anchored := by
  refine .mk ⟨⟨rfl, ?_, ?_⟩, ?_⟩ (by simp)
  · rintro label protocol ⟨⟩
  · rintro ⟨⟩
  · rintro ⟨⟩

theorem anchored_nestedEmphasis : nestedEmphasis.Everywhere Node.Anchored := by
  have htext : ∀ {s : Segment} {kind : Kind} {rest : List Node},
      (Node.text s).ShownBelow (.mk kind [] (.text s :: rest)) := .child List.mem_cons_self
  have hcode : (Node.mk .codeSpan [] [.text ⟨3, 4⟩]).Everywhere Node.Anchored :=
    .mk (anchored_of_shown rfl htext rfl) (List.forall_mem_singleton.mpr (anchored_text _))
  have hcodeShown : (Node.text ⟨3, 4⟩).ShownBelow
      (.mk (.link (utf8 "u")) [] [.mk .codeSpan [] [.text ⟨3, 4⟩]]) :=
    .deeper List.mem_cons_self (by rintro ⟨⟩) htext
  have hlink : (Node.mk (.link (utf8 "u")) []
      [.mk .codeSpan [] [.text ⟨3, 4⟩]]).Everywhere Node.Anchored :=
    .mk (anchored_of_shown rfl hcodeShown rfl) (List.forall_mem_singleton.mpr hcode)
  have hstruck : (Node.mk .strikethrough [] [.text ⟨12, 13⟩]).Everywhere Node.Anchored :=
    .mk (anchored_of_shown rfl htext rfl) (List.forall_mem_singleton.mpr (anchored_text _))
  refine .mk (anchored_of_shown rfl
    (.deeper List.mem_cons_self (by rintro ⟨⟩) hcodeShown) rfl) ?_
  simp only [List.forall_mem_cons]
  exact ⟨hlink, anchored_text _, hstruck, by simp⟩

/-- The emphasis adds one mark on each side and covers all of the six nodes in it. -/
theorem convert_inline_covers_nested :
    nestedEmphasis.kind.isInlineContainer = true ∧ nestedEmphasis.Everywhere Node.Anchored ∧
    ∃ c ∈ (convert nestedSource nestedDocument).1.branches, c.1.span = ⟨0, 16⟩ ∧
      (Kind.emphasis 1).Delimits nestedSource ⟨1, 15⟩ ⟨0, 16⟩ ∧
      (nestedEmphasis.finishedBelow nestedSource).length = 6 ∧
      List.Forall₂ (fun m d => d.1.type = m.kind.nodeType nestedSource ∧ c.1.span.Covers d.1.span)
        (nestedEmphasis.finishedBelow nestedSource) (c.2.branches Node.type c.1.type) := by
  have hpair := (convert_inline_covers nestedSource nestedDocument).get (i := 6)
    (by decide +kernel) (by decide +kernel)
  obtain ⟨inner, s, hinner, hs, hspan, hdelimits, hbelow⟩ := hpair rfl anchored_nestedEmphasis
  have hextents : Node.extents nestedSource nestedEmphasis.children = some ⟨1, 15⟩ := by
    decide +kernel
  have hextent : nestedEmphasis.extent nestedSource = some ⟨0, 16⟩ := by decide +kernel
  obtain rfl : inner = ⟨1, 15⟩ := Option.some.inj (hinner.symm.trans hextents)
  obtain rfl : s = ⟨0, 16⟩ := Option.some.inj (hs.symm.trans hextent)
  exact ⟨rfl, anchored_nestedEmphasis, _, List.get_mem _ _, hspan, hdelimits, rfl, hbelow⟩

def hollowSource : Source := (utf8 "a b").toArray

/-- The only text of the inner emphasis stands below raw HTML without segments. -/
def hollowEmphasis : Node :=
  .mk (.emphasis 1) []
    [.mk (.emphasis 1) [] [.mk (.rawHtml []) [] [.text ⟨2, 2⟩]], .text ⟨2, 2⟩]

def hollowDocument : Node := .mk .document [] [.mk .paragraph [⟨0, 3⟩] [hollowEmphasis]]

theorem placed_hollowDocument : hollowDocument.Everywhere (Node.Placed hollowSource.size) := by
  simp only [hollowDocument, hollowEmphasis, Node.text, Node.leaf, Node.everywhere_mk_iff,
    List.forall_mem_cons, List.not_mem_nil, IsEmpty.forall_iff, implies_true, and_true]
  and_intros
  all_goals
    constructor <;> simp +decide [Node.kind, Node.lines, firstToLast?, Segment.length]

theorem grounded_hollowEmphasis : hollowEmphasis.Everywhere Node.Grounded := by
  have htext : (Node.text ⟨2, 2⟩).Everywhere Node.Grounded :=
    .mk (anchored_text _).here.toGrounded (by simp)
  have hhtml : (Node.mk (.rawHtml []) [] [.text ⟨2, 2⟩]).Everywhere Node.Grounded := by
    refine .mk ⟨rfl, ?_, ?_⟩ (List.forall_mem_singleton.mpr htext)
    · rintro label protocol ⟨⟩
    · rintro ⟨⟩
  have hbelow : (Node.text ⟨2, 2⟩).Below
      (.mk (.emphasis 1) [] [.mk (.rawHtml []) [] [.text ⟨2, 2⟩]]) :=
    .deeper List.mem_cons_self (.child List.mem_cons_self)
  have hinner : (Node.mk (.emphasis 1) []
      [.mk (.rawHtml []) [] [.text ⟨2, 2⟩]]).Everywhere Node.Grounded :=
    .mk (grounded_of_below rfl hbelow rfl) (List.forall_mem_singleton.mpr hhtml)
  refine .mk (grounded_of_below rfl (.deeper List.mem_cons_self hbelow) rfl) ?_
  simp only [List.forall_mem_cons]
  exact ⟨hinner, htext, by simp⟩

/-- A container whose positions all stand below raw HTML without segments may leave the container
around it: it has no extent and is put at the cursor. -/
theorem hollow_not_covered :
    let t := (convert hollowSource hollowDocument).1
    hollowDocument.Everywhere (Node.Placed hollowSource.size) ∧
    hollowEmphasis.kind.isInlineContainer = true ∧ hollowEmphasis.Everywhere Node.Grounded ∧
    ∃ outer inner, t.node? 2 = some outer ∧ t.node? 3 = some inner ∧ inner.parent = 2 ∧
      outer.type = .em ∧ inner.type = .em ∧ outer.span = ⟨2, 2⟩ ∧ inner.span = ⟨0, 0⟩ ∧
      ¬ outer.span.Covers inner.span := by
  refine ⟨placed_hollowDocument, rfl, grounded_hollowEmphasis, _, _, rfl, rfl, ?_⟩
  decide +kernel

/-! ## Block containers -/

section Block

variable {n : Node} {s e : Segment} {cursor : Nat} {inner : Conversion}

theorem covers_blockquote (he : s.Covers e) :
    ∀ p ∈ (blockquote src (some s) cursor inner).piece,
      p.segment.Covers ⟨e.start, src.trimNewline p.segment.start e.stop⟩ := by
  rintro p ⟨⟩
  refine ⟨Nat.le_trans (src.lineStart_le s.start) he.start_le, ?_⟩
  exact Nat.le_trans (Source.trimNewline_mono _ he.stop_le)
    (Source.le_lineEnd (src.trimNewline_le_size _ _))

theorem covers_listItem (marker : Option UInt8) (he : s.Covers e) :
    ∀ p ∈ (listItem src marker (some s) cursor inner).piece,
      p.segment.Covers ⟨e.start, src.trimNewline p.segment.start e.stop⟩ := by
  unfold listItem
  extract_lets bullet?
  have hbullet : ∀ b ∈ bullet?, b.start ≤ s.start := by
    intro b hb
    cases hm : marker with
    | none => simp [bullet?, hm] at hb
    | some m =>
      simp only [bullet?, hm, Option.mem_def, Option.filter_eq_some_iff, decide_eq_true_eq] at hb
      exact Nat.le_trans (listMarker?_ordered hb.1) hb.2
  cases hb : bullet? with
  | none =>
    rintro p ⟨⟩
    exact ⟨he.start_le, Nat.le_trans (src.trimNewline_le _ _) he.stop_le⟩
  | some bullet =>
    rintro p ⟨⟩
    exact ⟨Nat.le_trans (hbullet bullet hb) he.start_le, Source.trimNewline_mono _ he.stop_le⟩

/-- A block quote or a list item covers its extent, but for a line break at the end. -/
theorem covers_block (hn : n.kind = .blockquote ∨ n.kind = .listItem)
    (hs : n.extent src = some s) (he : s.Covers e) (marker : Option UInt8) (cursor : Nat) :
    ∀ p ∈ (convertNode src marker n cursor).piece,
      p.segment.Covers ⟨e.start, src.trimNewline p.segment.start e.stop⟩ := by
  cases n with
  | mk kind lines children =>
    rcases hn with rfl | rfl
    · rw [convertNode_of_ne (by decide), convertKind, hs]
      exact covers_blockquote he
    · rw [convertNode_of_ne (by decide), convertKind, hs]
      exact covers_listItem marker he

end Block

/-- A block quote or a list item covers the extent of every node that is converted with it, but for
a line break at the end; and an inline node with an anchored subtree is put at its extent. -/
theorem convert_block_covers (src : Source) (document : Node) :
    let t := (convert src document).1
    List.Forall₂ (fun n c =>
        n.kind = .blockquote ∨ n.kind = .listItem →
        ∃ s : Segment, c.1.span = s.toSpan ∧
          List.Forall₂ (fun m d => d.1.type = m.kind.nodeType src ∧ ∀ e, m.extent src = some e →
              s.Covers ⟨e.start, src.trimNewline s.start e.stop⟩ ∧
              (m.Everywhere Node.Anchored → d.1.span = e.toSpan))
            (n.finishedBelow src) (c.2.branches Node.type c.1.type))
      (finishedAll (Node.convertsBelow src) document.children) t.branches := by
  intro t
  refine (convert_counterparts src document).1.imp ?_
  intro n c hcounterpart hblock
  have hcounterparts := hcounterpart.below
  obtain ⟨b, ⟨marker, cursor, p, hpiece, rfl⟩, hholds⟩ := hcounterpart
  refine ⟨p.segment, hholds.span_eq.symm, ?_⟩
  refine ((List.forall₂_and_left _ _).mpr ⟨fun m hm => hm, hcounterparts⟩).imp ?_
  rintro m d ⟨hm, hbelow⟩
  refine ⟨hbelow.type_eq, fun e he => ?_⟩
  obtain ⟨s, hs, hcovers⟩ := covers_of_mem_finishedBelow hm he
  exact ⟨covers_block hblock hs hcovers marker cursor p hpiece,
    fun hanchored => hbelow.span_eq hanchored.here he⟩

def quotedSource : Source := (utf8 "> a\n> =\n").toArray

/-- The quote covers the extents of the heading and of the text in it. -/
theorem convert_block_covers_quoted :
    ∃ (n : Node) (c : DocTokens.Node × Forest DocTokens.Node) (s : Segment),
      n.kind = .blockquote ∧ c ∈ (convert quotedSource (parse quotedSource)).1.branches ∧
      (n.finishedBelow quotedSource).length = 2 ∧ c.1.span = s.toSpan ∧
      List.Forall₂ (fun m d => d.1.type = m.kind.nodeType quotedSource ∧
          ∀ e, m.extent quotedSource = some e →
            s.Covers ⟨e.start, quotedSource.trimNewline s.start e.stop⟩ ∧
            (m.Everywhere Node.Anchored → d.1.span = e.toSpan))
        (n.finishedBelow quotedSource) (c.2.branches Node.type c.1.type) := by
  have hpair := (convert_block_covers quotedSource (parse quotedSource)).get (i := 2)
    (by decide +kernel) (by decide +kernel)
  obtain ⟨s, hspan, hbelow⟩ := hpair (.inl (by decide +kernel))
  exact ⟨_, _, s, by decide +kernel, List.get_mem _ _, by decide +kernel, hspan, hbelow⟩

/-- It does not cover the heading: the underline is no part of the extent of the heading, which
stands on the lines of its text only. -/
theorem setext_leaves_quote :
    let t := (convert quotedSource (parse quotedSource)).1
    ∃ quote heading, t.node? 1 = some quote ∧ t.node? 2 = some heading ∧ heading.parent = 1 ∧
      quote.type = .blockquote ∧ heading.type = .heading ∧ quote.span = ⟨0, 3⟩ ∧
      heading.span = ⟨0, 7⟩ ∧ ¬ quote.span.Covers heading.span := by
  refine ⟨_, _, rfl, rfl, ?_⟩
  decide +kernel

end Markdown

end DocTokens
