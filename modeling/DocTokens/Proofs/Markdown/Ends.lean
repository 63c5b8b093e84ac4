import DocTokens.Proofs.Markdown.Course

/-! # Ends inside of the source

Where all segments of a document lie inside of its source, every node of its tree ends there.
Nothing is asked of the order of segments: a node may then end before it starts. So the cursor is
the furthest end of all that conversion is done with.
-/

namespace DocTokens.Markdown

/-- The segments of the node are ranges of the first `size` bytes. -/
structure Node.InRange (size : Nat) (n : Node) : Prop where
  segments : ∀ s ∈ n.kind.segments, s.Within size
  lines : ∀ s ∈ n.lines, s.Within size

/-! ## Extents -/

section Extents

variable {src : Source} {size : Nat} {s : Segment} {n : Node}

/-- Where the extent of a link ends does not depend on where its text starts. -/
theorem stop_linkParts_le (destination : Bytes) (isImage : Bool) (h : s.stop ≤ src.size) :
    (linkParts src destination isImage s).extent.stop ≤ src.size := by
  have hsame : (linkParts src destination isImage s).extent.stop =
      (linkParts src destination isImage ⟨0, s.stop⟩).extent.stop := by
    have houter : (widenBrackets src isImage s).stop =
        (widenBrackets src isImage ⟨0, s.stop⟩).stop := rfl
    unfold linkParts
    dsimp only
    rw [houter]
    split
    · split
      · rfl
      · exact houter
    · exact houter
  rw [hsame]
  exact (within_linkParts (s := ⟨0, s.stop⟩) destination isImage ⟨Nat.zero_le _, h⟩).extent.stop_le

theorem stop_widenCodeSpan_le (h : s.stop ≤ src.size) : (widenCodeSpan src s).stop ≤ src.size :=
  (within_widenCodeSpan (s := ⟨0, s.stop⟩) ⟨Nat.zero_le _, h⟩).stop_le

theorem stop_firstToLast?_le {segments : List Segment} (h : ∀ s ∈ segments, s.stop ≤ size) :
    ∀ s ∈ firstToLast? segments, s.stop ≤ size := by
  intro s hs
  obtain ⟨last, hlast, hstop⟩ := firstToLast?_stop hs
  exact hstop ▸ h last hlast

theorem stop_hull?_le {a b : Option Segment} (ha : ∀ s ∈ a, s.stop ≤ size)
    (hb : ∀ s ∈ b, s.stop ≤ size) : ∀ s ∈ hull? a b, s.stop ≤ size := by
  intro s hs
  unfold hull? at hs
  split at hs
  · cases hs
    exact Nat.max_le.mpr ⟨ha _ rfl, hb _ rfl⟩
  · cases hs
    exact ha _ rfl
  · exact hb s hs

theorem stop_map_le {content : Option Segment} {f : Segment → Segment}
    (hf : ∀ s, s.stop ≤ size → (f s).stop ≤ size) (h : ∀ s ∈ content, s.stop ≤ size) :
    ∀ s ∈ content.map f, s.stop ≤ size := by
  intro s hs
  obtain ⟨t, ht, rfl⟩ := Option.map_eq_some_iff.mp hs
  exact hf t (h t ht)

namespace Node

theorem InRange.kind_extent (h : n.InRange src.size) {content : Option Segment}
    (hc : ∀ s ∈ content, s.stop ≤ src.size) :
    ∀ s ∈ n.kind.extent src content, s.stop ≤ src.size := by
  have hs : ∀ s ∈ n.kind.segments, s.stop ≤ src.size := fun s hs => (h.segments s hs).stop_le
  cases hk : n.kind with
  | text t | formula t | underline t | spacing t | latex t | directive d =>
    rintro s ⟨⟩
    exact hs _ (by simp [hk, Kind.segments, Directive.segments])
  | rawHtml segments => exact stop_firstToLast?_le (by simpa [hk, Kind.segments] using hs)
  | emphasis level => exact stop_map_le (fun s hs => Source.forward_le_size level hs) hc
  | strikethrough => exact stop_map_le (fun s hs => Source.forward_le_size 2 hs) hc
  | codeSpan => exact stop_map_le (fun s hs => stop_widenCodeSpan_le hs) hc
  | link d | image d => exact stop_map_le (fun s hs => stop_linkParts_le d _ hs) hc
  | _ => exact hc

theorem InRange.own_stop_le (h : n.InRange size) :
    ∀ s ∈ if n.kind.isBlock then firstToLast? n.lines else none, s.stop ≤ size := by
  intro s hs
  split at hs
  · exact stop_firstToLast?_le (fun s hs => (h.lines s hs).stop_le) s hs
  · cases hs

theorem stop_extents_le {ns : List Node} (h : ∀ n ∈ ns, ∀ s ∈ n.extent src, s.stop ≤ size) :
    ∀ s ∈ extents src ns, s.stop ≤ size := by
  induction ns with
  | nil => simp [extents]
  | cons n ns ih =>
    rw [extents]
    exact stop_hull?_le (h n List.mem_cons_self) (ih fun m hm => h m (List.mem_cons_of_mem _ hm))

theorem Everywhere.stop_extent_le (h : n.Everywhere (InRange src.size)) :
    ∀ s ∈ n.extent src, s.stop ≤ src.size := by
  induction h with
  | mk hn _ ih =>
    rw [extent_eq]
    exact hn.kind_extent (stop_hull?_le hn.own_stop_le (stop_extents_le ih))

theorem Everywhere.stop_content_le (h : n.Everywhere (InRange src.size)) :
    ∀ s ∈ n.content src, s.stop ≤ src.size :=
  stop_hull?_le h.here.own_stop_le (stop_extents_le fun m hm => (h.children m hm).stop_extent_le)

end Node

end Extents

/-! ## One kind after another -/

/-- The piece ends inside of the first `size` bytes. -/
def Outcome.EndsWithin (size : Nat) (o : Outcome) : Prop := ∀ p ∈ o.piece, p.segment.stop ≤ size

section Ends

variable {src : Source} {cursor : Nat} {n : Node} {inner : Conversion} {extent : Option Segment}

theorem endsWithin_leafAt {s : Segment} (type : NodeType) (below : Forest Shape)
    (h : s.stop ≤ src.size) : (leafAt src cursor type s below).EndsWithin src.size := by
  rintro p ⟨⟩
  exact h

theorem endsWithin_containerAt {s : Segment} (type : NodeType) (h : s.stop ≤ src.size) :
    (containerAt src type s inner).EndsWithin src.size := by
  rintro p ⟨⟩
  exact h

section Containers

variable (hc : cursor ≤ src.size) (he : ∀ s ∈ extent, s.stop ≤ src.size)
include hc he

theorem endsWithin_container (type : NodeType) :
    (container src type extent cursor inner).EndsWithin src.size := by
  refine endsWithin_containerAt type ?_
  cases h : extent with
  | none => exact hc
  | some s => exact he s h

theorem endsWithin_heading (lines : List Segment) :
    (heading src lines extent cursor inner).EndsWithin src.size := by
  unfold heading
  split
  · exact endsWithin_container hc he _
  · refine endsWithin_containerAt _ ?_
    dsimp only
    split <;> exact src.lineEnd_le_size _

theorem endsWithin_blockquote : (blockquote src extent cursor inner).EndsWithin src.size := by
  unfold blockquote
  split
  · exact endsWithin_container hc (by simp) _
  · exact endsWithin_containerAt _ (src.lineEnd_le_size _)

theorem endsWithin_listItem (marker : Option UInt8) :
    (listItem src marker extent cursor inner).EndsWithin src.size := by
  unfold listItem
  extract_lets bullet?
  clear_value bullet?
  split
  · exact endsWithin_containerAt _ (src.trimNewline_le_size _ _)
  · exact endsWithin_container hc he _

theorem endsWithin_fencedCode (info : Option Segment) (lines : List Segment) :
    (fencedCode src info lines extent cursor inner).EndsWithin src.size := by
  unfold fencedCode
  cases fenceStart? src info lines with
  | none => exact endsWithin_container hc he _
  | some start =>
    refine endsWithin_leafAt _ _ (closingFence_bounds ?_).2
    split
    · exact src.trimNewline_le_size _ _
    · exact src.lineEnd_le_size _

theorem endsWithin_indentedCode (lines : List Segment) :
    (indentedCode src lines extent cursor inner).EndsWithin src.size := by
  unfold indentedCode
  split
  · exact endsWithin_container hc he _
  · exact endsWithin_leafAt _ _ (src.trimNewline_le_size _ _)

end Containers

section Leaves

variable (hc : cursor ≤ src.size)
include hc

theorem endsWithin_thematicBreak : (thematicBreak src cursor).EndsWithin src.size := by
  unfold thematicBreak
  extract_lets p
  refine endsWithin_leafAt _ _ ?_
  cases h : breakLine? src (src.size + 1 - p) p with
  | none => exact hc
  | some s => exact (within_breakLine? h).stop_le

theorem endsWithin_htmlBlock (type : Nat) (closure : Option Segment) (lines : List Segment) :
    (htmlBlock src type closure lines cursor).EndsWithin src.size := by
  unfold htmlBlock
  extract_lets nodeType place
  clear_value place
  split
  · exact endsWithin_leafAt _ _ hc
  · exact endsWithin_leafAt _ _ (src.trimNewline_le_size _ _)

theorem endsWithin_autoLink (label : Segment) (protocol : Option Bytes) :
    (autoLink src label protocol cursor).EndsWithin src.size := by
  intro p hp
  exact Int.ofNat_le.mp ((placed_autoLink hc label protocol).piece p hp).shape.stop_le

theorem endsWithin_link (type : NodeType) (destination : Bytes) {content : Option Segment}
    (h : ∀ s ∈ content, s.stop ≤ src.size) :
    (link src type destination content cursor inner).EndsWithin src.size := by
  rintro p ⟨⟩
  cases hs : content with
  | none => exact hc
  | some s => exact stop_linkParts_le destination _ (h s hs)

theorem endsWithin_list (h : ∀ s ∈ inner.segments, s.stop ≤ src.size) :
    (list cursor inner).EndsWithin src.size := by
  rintro p ⟨⟩
  dsimp only [list]
  cases hs : firstToLast? inner.segments with
  | none => exact hc
  | some s => exact stop_firstToLast?_le h s hs

theorem endsWithin_table (rows : Conversion) : (table src cursor rows).EndsWithin src.size := by
  unfold table
  split
  · rintro p ⟨⟩
    exact hc
  · exact endsWithin_containerAt _ (Nat.le_trans (src.trimReturn_le _ _) (src.lineEnd_le_size _))

end Leaves

theorem endsWithin_controlRow (row : Outcome) : (controlRow src row).EndsWithin src.size := by
  unfold controlRow
  split
  · rintro p ⟨⟩
  · dsimp only
    split
    · exact endsWithin_leafAt _ _ (Nat.le_trans (src.trimReturn_le _ _) (src.lineEnd_le_size _))
    · rintro p ⟨⟩

/-- One case for each kind of node. -/
theorem endsWithin_convertKind (hc : cursor ≤ src.size) (hn : n.Everywhere (Node.InRange src.size))
    (hi : ∀ s ∈ inner.segments, s.stop ≤ src.size) (ht : n.kind ≠ .table) (marker : Option UInt8) :
    (convertKind src marker n cursor inner).EndsWithin src.size := by
  have he := hn.stop_extent_le
  have hs : ∀ s ∈ n.kind.segments, s.stop ≤ src.size := fun s hs => (hn.here.segments s hs).stop_le
  unfold convertKind
  extract_lets extent
  cases hk : n.kind with
  | text s | spacing s thin | latex s | formula s | underline s =>
    exact endsWithin_leafAt _ _ (hs s (by simp [hk, Kind.segments]))
  | directive d =>
    rintro p ⟨⟩
    exact hs d.segment (by simp [hk, Kind.segments, Directive.segments])
  | string => rintro p ⟨⟩
  | thematicBreak => exact endsWithin_thematicBreak hc
  | fencedCode info => exact endsWithin_fencedCode hc he info n.lines
  | codeBlock => exact endsWithin_indentedCode hc he n.lines
  | htmlBlock type closure => exact endsWithin_htmlBlock hc type closure n.lines
  | rawHtml segments =>
    simp only [rawHtml]
    split
    · rintro p ⟨⟩
    · rename_i s hplace
      exact endsWithin_leafAt _ _
        (stop_firstToLast?_le (by simpa [hk, Kind.segments] using hs) s hplace)
  | autoLink label protocol => exact endsWithin_autoLink hc label protocol
  | heading level => exact endsWithin_heading hc he n.lines
  | blockquote => exact endsWithin_blockquote hc he
  | list => exact endsWithin_list hc hi
  | listItem => exact endsWithin_listItem hc he marker
  | link destination | image destination =>
    exact endsWithin_link hc _ destination hn.stop_content_le
  | paragraph | textBlock => exact endsWithin_containerAt _ (src.trimNewline_le_size _ _)
  | document | emphasis | strikethrough | codeSpan | tableHeader | tableRow | tableCell
  | otherBlock | otherInline => exact endsWithin_container hc he _
  | table => exact absurd hk ht

/-! ## Steps -/

theorem cursor_convertNode_le (hc : cursor ≤ src.size) (n : Node) (marker : Option UInt8) :
    (convertNode src marker n cursor).cursor ≤ src.size :=
  (course_convertNode src n marker cursor).stop_eq ▸ reach_le_size hc

section Sequences

variable {nodes : List Node} (h : ∀ n ∈ nodes, ∀ marker cursor, cursor ≤ src.size →
  ∀ v ∈ n.steps src marker cursor, v.stop ≤ src.size)
include h

theorem stop_allSteps_le (hc : cursor ≤ src.size) (marker : Option UInt8) :
    ∀ v ∈ allSteps src marker nodes cursor, v.stop ≤ src.size := by
  induction nodes generalizing cursor with
  | nil => simp [allSteps]
  | cons n rest ih =>
    intro v hv
    rw [allSteps, List.mem_append] at hv
    rcases hv with hv | hv
    · exact h n List.mem_cons_self marker cursor hc v hv
    · exact ih (fun m hm => h m (List.mem_cons_of_mem _ hm)) (cursor_convertNode_le hc n marker)
        v hv

theorem stop_rowSteps_le (hc : cursor ≤ src.size) :
    ∀ v ∈ rowSteps src nodes cursor, v.stop ≤ src.size := by
  induction nodes generalizing cursor with
  | nil => simp [rowSteps]
  | cons n rest ih =>
    have ho := h n List.mem_cons_self none cursor hc
    have hrest := fun cursor hc => @ih cursor (fun m hm => h m (List.mem_cons_of_mem _ hm)) hc
    have hcursor := cursor_convertNode_le hc n none
    intro v hv
    rw [rowSteps] at hv
    split at hv
    · simp only [List.mem_append] at hv
      rcases hv with hv | hv | hv
      · exact ho v hv
      · simp only [controlSteps, List.mem_map, Option.mem_toList] at hv
        obtain ⟨p, hp, rfl⟩ := hv
        exact endsWithin_controlRow _ p hp
      · refine hrest _ ?_ v hv
        rw [cursor_controlRow]
        exact reach_le_size hcursor
    · rcases List.mem_append.mp hv with hv | hv
      · exact ho v hv
      · exact hrest _ hcursor v hv

end Sequences

theorem Node.Everywhere.stop_steps_le (h : n.Everywhere (Node.InRange src.size))
    (marker : Option UInt8) (hc : cursor ≤ src.size) :
    ∀ v ∈ n.steps src marker cursor, v.stop ≤ src.size := by
  induction n using Node.of_children generalizing marker cursor with
  | h n ih =>
    have hchildren : ∀ m ∈ n.children, ∀ marker cursor, cursor ≤ src.size →
        ∀ v ∈ m.steps src marker cursor, v.stop ≤ src.size :=
      fun m hm marker cursor hc => ih m hm (h.children m hm) marker hc
    cases hp : (convertNode src marker n cursor).piece with
    | none => simp [Node.steps_of_none hp]
    | some p =>
      have hown : p.segment.stop ≤ src.size := by
        cases n with
        | mk kind lines children =>
          by_cases hk : kind = .table
          · subst hk
            rw [convertNode_table] at hp
            exact endsWithin_table hc _ p hp
          · rw [convertNode_of_ne hk] at hp
            refine endsWithin_convertKind hc h (fun s hs => ?_) hk marker p hp
            obtain ⟨v, hv, rfl⟩ := exists_step_of_mem_segments hs
            exact stop_allSteps_le hchildren hc _ v hv
      intro v hv
      rw [Node.steps_of_some hp, List.mem_append, List.mem_singleton] at hv
      rcases hv with hv | rfl
      · unfold Node.stepsBelow at hv
        split at hv
        · split at hv
          · exact stop_rowSteps_le hchildren hc v hv
          · exact stop_allSteps_le hchildren hc _ v hv
        · cases hv
      · exact hown

end Ends

/-! ## Documents -/

section Documents

variable {src : Source} {document : Node}

theorem stop_courseOf_le (h : document.Everywhere (Node.InRange src.size)) :
    ∀ v ∈ courseOf src document, v.stop ≤ src.size :=
  stop_allSteps_le (fun n hn marker _ hc => (h.children n hn).stop_steps_le marker hc)
    (Nat.zero_le _) none

/-- A node without steps of its own is begun at the furthest end of the steps before it. -/
theorem cursor_of_closed (h : document.Everywhere (Node.InRange src.size))
    {before after : List Step} {v : Step} {n : Node}
    (hsteps : courseOf src document = before ++ v :: after)
    (hn : v.node? = some n) (hclosed : n.convertsBelow src = false) :
    v.cursor = furthest before ∧ ∀ w ∈ before, w.stop ≤ v.cursor := by
  have hcourse := course_convert src document
  have hv : v ∈ courseOf src document := by simp [hsteps]
  have hcursor := hcourse.cursor_eq hsteps ((hcourse.sound v hv).closed n hn hclosed)
  have hstop : ∀ w ∈ before, w.stop ≤ src.size :=
    fun w hw => stop_courseOf_le h w (by simp [hsteps, hw])
  rw [hcursor]
  exact ⟨reach_eq_furthest hstop, fun w hw => stop_le_reach hw (hstop w hw)⟩

end Documents

end DocTokens.Markdown
