import DocTokens.Markdown.Extent

/-! # Placed documents

A document is placed in its source when every segment it carries lies inside the source, and when
the segments that are read as one range begin before they end. Nothing is asked of siblings, of
nesting or of the kinds that meet. The extent of every node of such a document lies inside the
source.
-/

namespace DocTokens

/-- The segment is a range of the first `size` bytes. -/
structure Segment.Within (size : Nat) (s : Segment) : Prop where
  ordered : s.start ≤ s.stop
  stop_le : s.stop ≤ size

namespace Segment

variable {size : Nat} {s t : Segment}

instance (size : Nat) (s : Segment) : Decidable (s.Within size) :=
  decidable_of_iff (s.start ≤ s.stop ∧ s.stop ≤ size) ⟨fun h => ⟨h.1, h.2⟩, fun h => ⟨h.1, h.2⟩⟩

theorem Within.start_le (h : s.Within size) : s.start ≤ size := Nat.le_trans h.ordered h.stop_le

theorem within_point {p : Nat} (h : p ≤ size) : (point p).Within size := ⟨Nat.le_refl p, h⟩

theorem Within.hull (hs : s.Within size) (ht : t.Within size) : (s.hull t).Within size := by
  have := hs.ordered
  have := hs.stop_le
  have := ht.stop_le
  constructor <;> simp only [Segment.hull] <;> omega

end Segment

theorem Bytes.find?_le {pattern s : Bytes} {n : Nat} (h : find? pattern s = some n) :
    n + pattern.length ≤ s.length := by
  induction s generalizing n with
  | nil =>
    rw [find?] at h
    split at h
    · cases h
      simp_all
    · cases h
  | cons b rest ih =>
    rw [find?] at h
    split at h
    · rename_i hp
      cases h
      simpa using (List.isPrefixOf_iff_prefix.mp hp).length_le
    · obtain ⟨m, hm, rfl⟩ := Option.map_eq_some_iff.mp h
      have hle := ih hm
      rw [List.length_cons]
      omega

/-! ## Moving along a source -/

namespace Source

variable {src : Source} {p : UInt8 → Bool} {pos start stop : Nat}

theorem lt_of_at? (h : src.at? pos p = true) : pos < src.size := by
  unfold at? at h
  split at h
  · rename_i hb
    exact (Array.getElem?_eq_some_iff.mp hb).1
  · cases h

theorem length_slice (h : stop ≤ src.size) : (src.slice start stop).length = stop - start := by
  simp only [slice, Array.length_toList, Array.size_extract]
  omega

theorem lineStartFrom_le (src : Source) (p : Nat) : src.lineStartFrom p ≤ p := by
  induction p with
  | zero => exact Nat.le_refl 0
  | succ p ih =>
    rw [lineStartFrom]
    split <;> omega

theorem lineStart_le (src : Source) (pos : Nat) : src.lineStart pos ≤ pos :=
  Nat.le_trans (lineStartFrom_le src _) (Nat.min_le_left _ _)

theorem lineStart_le_size (src : Source) (pos : Nat) : src.lineStart pos ≤ src.size :=
  Nat.le_trans (lineStartFrom_le src _) (Nat.min_le_right _ _)

theorem lineEndFrom_bounds (src : Source) (fuel p : Nat) :
    p ≤ src.lineEndFrom fuel p ∧ src.lineEndFrom fuel p ≤ p + fuel := by
  induction fuel generalizing p with
  | zero => exact ⟨Nat.le_refl p, Nat.le_refl p⟩
  | succ fuel ih =>
    have := ih (p + 1)
    rw [lineEndFrom]
    split <;> omega

theorem lineEnd_le_size (src : Source) (pos : Nat) : src.lineEnd pos ≤ src.size := by
  have := lineEndFrom_bounds src (src.size - pos) pos
  unfold lineEnd
  split <;> omega

theorem le_lineEnd (h : pos ≤ src.size) : pos ≤ src.lineEnd pos := by
  have := lineEndFrom_bounds src (src.size - pos) pos
  unfold lineEnd
  split <;> omega

theorem back_le (src : Source) (p : UInt8 → Bool) (limit pos : Nat) :
    src.back p limit pos ≤ pos := by
  induction limit generalizing pos with
  | zero => exact Nat.le_refl pos
  | succ limit ih =>
    have := ih (pos - 1)
    rw [back]
    split <;> omega

theorem le_forward (src : Source) (p : UInt8 → Bool) (limit pos : Nat) :
    pos ≤ src.forward p limit pos := by
  induction limit generalizing pos with
  | zero => exact Nat.le_refl pos
  | succ limit ih =>
    have := ih (pos + 1)
    rw [forward]
    split <;> omega

theorem forward_le_size (limit : Nat) (h : pos ≤ src.size) :
    src.forward p limit pos ≤ src.size := by
  induction limit generalizing pos with
  | zero => exact h
  | succ limit ih =>
    rw [forward]
    split
    · exact ih (lt_of_at? ‹_›)
    · exact h

theorem trimReturn_le (src : Source) (start stop : Nat) : src.trimReturn start stop ≤ stop := by
  unfold trimReturn
  split <;> omega

theorem le_trimReturn (h : start ≤ stop) : start ≤ src.trimReturn start stop := by
  unfold trimReturn
  split
  · simp only [Bool.and_eq_true, decide_eq_true_eq] at *
    omega
  · exact h

theorem trimNewline_le_size (src : Source) (start stop : Nat) :
    src.trimNewline start stop ≤ src.size := by
  refine Nat.le_trans (trimReturn_le src start _) ?_
  split <;> omega

theorem le_trimNewline (hstop : start ≤ stop) (hsize : start ≤ src.size) :
    start ≤ src.trimNewline start stop := by
  refine le_trimReturn ?_
  split
  · simp only [Bool.and_eq_true, decide_eq_true_eq] at *
    omega
  · omega

theorem suffix_eq_drop (src : Source) (i : Nat) : src.suffix i = src.toList.drop i := by
  rw [suffix, slice, Array.toList_extract, List.extract_eq_take_drop, ← Array.length_toList,
    ← List.length_drop, List.take_length]

theorem startsWith_eq_isPrefixOf (src : Source) (i : Nat) (pattern : Bytes) :
    src.startsWith i pattern = pattern.isPrefixOf (src.suffix i) := by
  rw [Bool.eq_iff_iff, List.isPrefixOf_iff_prefix, List.prefix_iff_eq_take, suffix_eq_drop,
    startsWith, slice, Array.toList_extract, List.extract_eq_take_drop, Nat.add_sub_cancel_left,
    beq_iff_eq]
  exact eq_comm

theorem length_suffix (src : Source) (i : Nat) : (src.suffix i).length = src.size - i := by
  rw [suffix, length_slice (Nat.le_refl _)]

theorem startsWith_le_size {i : Nat} {pattern : Bytes} (h : src.startsWith i pattern = true)
    (hi : i ≤ src.size) : i + pattern.length ≤ src.size := by
  rw [startsWith_eq_isPrefixOf, List.isPrefixOf_iff_prefix] at h
  have hlen := h.length_le
  rw [length_suffix] at hlen
  omega

theorem find?_suffix_le {i n : Nat} {pattern : Bytes}
    (h : Bytes.find? pattern (src.suffix i) = some n) (hi : i ≤ src.size) :
    i + n + pattern.length ≤ src.size := by
  have hlen := Bytes.find?_le h
  rw [length_suffix] at hlen
  omega

end Source

namespace Markdown

variable {src : Source} {size : Nat} {s : Segment}

/-! ## Widening -/

theorem within_widen (p : UInt8 → Bool) (limit : Nat) (h : s.Within src.size) :
    (widen src p limit s).Within src.size where
  ordered := Nat.le_trans (src.back_le p limit s.start)
    (Nat.le_trans h.ordered (src.le_forward p limit s.stop))
  stop_le := Source.forward_le_size limit h.stop_le

theorem within_widenCodeSpan (h : s.Within src.size) : (widenCodeSpan src s).Within src.size := by
  have hle := h.ordered
  have hsize := h.stop_le
  refine within_widen isBackquote 32 ⟨?_, ?_⟩
  · dsimp only
    split <;> split <;> omega
  · dsimp only
    split
    · simp only [Bool.and_eq_true] at *
      exact Source.lt_of_at? ‹_ ∧ _›.1
    · exact hsize

theorem within_widenBrackets (isImage : Bool) (h : s.Within src.size) :
    (widenBrackets src isImage s).Within src.size := by
  have hle := h.ordered
  have hsize := h.stop_le
  refine ⟨?_, ?_⟩
  · simp only [widenBrackets]
    split <;> split <;> split <;> omega
  · simp only [widenBrackets]
    split
    · exact Source.lt_of_at? ‹_›
    · exact hsize

/-- The extent and the destination of a link are ranges of the source. -/
structure LinkParts.Within (size : Nat) (parts : LinkParts) : Prop where
  extent : parts.extent.Within size
  href : ∀ h ∈ parts.href, h.Within size

/-- A destination that is written at an offset ends inside of the source. -/
theorem within_href (destination : Bytes) {p : Nat} (hp : p ≤ src.size) :
    ∀ h ∈ if !destination.isEmpty && src.startsWith p destination
      then some (Segment.mk p (p + destination.length)) else none,
      h.Within src.size ∧ h.start = p := by
  intro h hh
  split at hh
  · rename_i hstarts
    cases hh
    simp only [Bool.and_eq_true] at hstarts
    exact ⟨⟨Nat.le_add_right _ _, Source.startsWith_le_size hstarts.2 hp⟩, rfl⟩
  · cases hh

theorem within_linkParts (destination : Bytes) (isImage : Bool) (h : s.Within src.size) :
    (linkParts src destination isImage s).Within src.size := by
  unfold linkParts
  extract_lets outer p q href r
  have houter : outer.Within src.size := within_widenBrackets isImage h
  split
  · have hp : outer.stop + 1 ≤ p := Source.le_forward src _ _ _
    have hq : p ≤ q := Source.le_forward src _ _ _
    have hopen : outer.stop < src.size := Source.lt_of_at? ‹_›
    have hqsize : q ≤ src.size := Source.forward_le_size _ (Source.forward_le_size _ hopen)
    have hhref : ∀ h ∈ href, h.Within src.size ∧ h.start = q := within_href destination hqsize
    have hr : q ≤ r ∧ r ≤ src.size := by
      cases hc : href with
      | none =>
        simp only [r, hc]
        exact ⟨Nat.le_refl q, hqsize⟩
      | some h =>
        obtain ⟨hw, hstart⟩ := hhref h hc
        simp only [r, hc]
        exact ⟨hstart ▸ hw.ordered, hw.stop_le⟩
    split
    · rename_i n hn
      obtain ⟨hlt, _⟩ := List.idxOf?_eq_some_iff.mp hn
      rw [Source.length_slice (src.lineEnd_le_size r)] at hlt
      have hend := src.lineEnd_le_size r
      have hordered := houter.ordered
      refine ⟨⟨?_, ?_⟩, fun h hh => (hhref h hh).1⟩
      · change outer.start ≤ r + n + 1
        omega
      · change r + n + 1 ≤ src.size
        omega
    · exact ⟨houter, fun h hh => (hhref h hh).1⟩
  · exact ⟨houter, by simp⟩

/-! ## Documents -/

/-- The segments of a directive. -/
def Directive.segments (d : Directive) : List Segment :=
  d.segment :: d.name :: (d.label.toList ++ d.unclosed.toList ++
    d.keys.flatMap fun entry => [entry.key, entry.value])

theorem Directive.within_keys {d : Directive} (h : ∀ s ∈ d.segments, s.Within size) :
    ∀ entry ∈ d.keys, entry.key.Within size ∧ entry.value.Within size := by
  intro entry hentry
  have hmem : ∀ s ∈ [entry.key, entry.value], s ∈ d.segments := by
    intro s hs
    simp only [Directive.segments, List.mem_cons, List.mem_append, List.mem_flatMap]
    exact .inr (.inr (.inr ⟨entry, hentry, by simpa using hs⟩))
  exact ⟨h _ (hmem _ (by simp)), h _ (hmem _ (by simp))⟩

/-- The segments that a kind carries. -/
def Kind.segments : Kind → List Segment
  | .fencedCode info => info.toList
  | .htmlBlock _ closure => closure.toList
  | .text s | .autoLink s _ | .formula s | .underline s | .spacing s _ | .latex s => [s]
  | .rawHtml segments => segments
  | .directive d => d.segments
  | _ => []

namespace Node

/-- What is taken for granted about the segments of one node. -/
structure Placed (size : Nat) (n : Node) : Prop where
  segments : ∀ s ∈ n.kind.segments, s.Within size
  lines : ∀ s ∈ n.lines, s.Within size
  lines_ordered : ∀ s ∈ firstToLast? n.lines, s.start ≤ s.stop
  rawHtml_ordered : ∀ segments, n.kind = .rawHtml segments →
    ∀ s ∈ firstToLast? segments, s.start ≤ s.stop
  info_start_le : ∀ info, n.kind = .fencedCode (some info) →
    ∀ s ∈ firstToLast? n.lines, info.start ≤ s.stop
  two_le_formula : ∀ s, n.kind = .formula s → 2 ≤ s.length
  four_le_underline : ∀ s, n.kind = .underline s → 4 ≤ s.length

/-- The node and every node below it satisfy `P`. -/
inductive Everywhere (P : Node → Prop) : Node → Prop where
  | mk {kind : Kind} {lines : List Segment} {children : List Node} :
    P (.mk kind lines children) → (∀ n ∈ children, n.Everywhere P) →
      Everywhere P (.mk kind lines children)

theorem Everywhere.here {P : Node → Prop} {n : Node} (h : n.Everywhere P) : P n := by
  cases h
  assumption

theorem Everywhere.children {P : Node → Prop} {n : Node} (h : n.Everywhere P) :
    ∀ m ∈ n.children, m.Everywhere P := by
  cases h
  assumption

end Node

/-! ## Extents -/

theorem within_firstToLast? {segments : List Segment} (h : ∀ s ∈ segments, s.Within size)
    (ho : ∀ s ∈ firstToLast? segments, s.start ≤ s.stop) :
    ∀ s ∈ firstToLast? segments, s.Within size := by
  intro s hs
  refine ⟨ho s hs, ?_⟩
  unfold firstToLast? at hs
  split at hs
  · rename_i hlast
    cases hs
    exact (h _ (List.mem_of_getLast? hlast)).stop_le
  · cases hs

theorem within_hull? {a b : Option Segment} (ha : ∀ s ∈ a, s.Within size)
    (hb : ∀ s ∈ b, s.Within size) : ∀ s ∈ hull? a b, s.Within size := by
  intro s hs
  unfold hull? at hs
  split at hs
  · cases hs
    exact (ha _ rfl).hull (hb _ rfl)
  · cases hs
    exact ha _ rfl
  · exact hb s hs

theorem within_map {content : Option Segment} {f : Segment → Segment}
    (hf : ∀ s, s.Within size → (f s).Within size) (h : ∀ s ∈ content, s.Within size) :
    ∀ s ∈ content.map f, s.Within size := by
  intro s hs
  obtain ⟨t, ht, rfl⟩ := Option.map_eq_some_iff.mp hs
  exact hf t (h t ht)

namespace Node

variable {n : Node}

theorem Placed.lines_within (h : n.Placed size) : ∀ s ∈ firstToLast? n.lines, s.Within size :=
  within_firstToLast? h.lines h.lines_ordered

theorem Placed.own_within (h : n.Placed size) :
    ∀ s ∈ if n.kind.isBlock then firstToLast? n.lines else none, s.Within size := by
  intro s hs
  split at hs
  · exact h.lines_within s hs
  · cases hs

/-- A kind turns content inside of the source into an extent inside of the source. -/
theorem Placed.kind_extent (h : n.Placed src.size) {content : Option Segment}
    (hc : ∀ s ∈ content, s.Within src.size) :
    ∀ s ∈ n.kind.extent src content, s.Within src.size := by
  have hs := h.segments
  have hr := h.rawHtml_ordered
  cases hk : n.kind with
  | text t | formula t | underline t | spacing t | latex t | directive d =>
    rintro s ⟨⟩
    exact hs _ (by simp [hk, Kind.segments, Directive.segments])
  | rawHtml segments =>
    exact within_firstToLast? (by simpa [hk, Kind.segments] using hs) (hr segments hk)
  | emphasis level => exact within_map (fun s hs => within_widen _ level hs) hc
  | strikethrough => exact within_map (fun s hs => within_widen _ 2 hs) hc
  | codeSpan => exact within_map (fun s hs => within_widenCodeSpan hs) hc
  | link d | image d => exact within_map (fun s hs => (within_linkParts d _ hs).extent) hc
  | _ => exact hc

theorem extent_eq (src : Source) (n : Node) : n.extent src = n.kind.extent src (n.content src) := by
  cases n
  rfl

theorem within_extents {ns : List Node} (h : ∀ n ∈ ns, ∀ s ∈ n.extent src, s.Within src.size) :
    ∀ s ∈ extents src ns, s.Within src.size := by
  induction ns with
  | nil => simp [extents]
  | cons n ns ih =>
    rw [extents]
    exact within_hull? (h n List.mem_cons_self) (ih fun m hm => h m (List.mem_cons_of_mem _ hm))

theorem Everywhere.within_extent (h : n.Everywhere (Placed src.size)) :
    ∀ s ∈ n.extent src, s.Within src.size := by
  induction h with
  | mk hn _ ih =>
    rw [extent_eq]
    exact hn.kind_extent (within_hull? hn.own_within (within_extents ih))

theorem Everywhere.within_content (h : n.Everywhere (Placed src.size)) :
    ∀ s ∈ n.content src, s.Within src.size :=
  within_hull? h.here.own_within (within_extents fun m hm => (h.children m hm).within_extent)

end Node

end Markdown

end DocTokens
