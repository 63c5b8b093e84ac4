import DocTokens.Proofs.Markdown.Outcome

/-! # Spans of converted documents

Every kind of node is converted to a placed outcome, and so is a placed document as a whole,
wherever the cursor stands.
-/

namespace DocTokens.Markdown

variable {src : Source} {size cursor : Nat} {s : Segment} {extent : Option Segment}
  {inner : Conversion}

/-! ## Ranges -/

theorem within_getD_point (hc : cursor ≤ src.size) (he : ∀ s ∈ extent, s.Within src.size) :
    (extent.getD (.point cursor)).Within src.size := by
  cases h : extent with
  | none => exact Segment.within_point hc
  | some s => exact he s h

theorem within_trimNewline (hs : s.Within src.size) :
    Segment.Within src.size ⟨s.start, src.trimNewline s.start s.stop⟩ :=
  ⟨Source.le_trimNewline hs.ordered hs.start_le, src.trimNewline_le_size _ _⟩

/-- From the start of the first line to the end of the last. -/
theorem within_wholeLines (hs : s.Within src.size) :
    Segment.Within src.size
      ⟨src.lineStart s.start, src.lineEnd (src.trimNewline (src.lineStart s.start) s.stop)⟩ := by
  have htrim := Source.le_trimNewline
    (Nat.le_trans (src.lineStart_le s.start) hs.ordered) (src.lineStart_le_size s.start)
  exact ⟨Nat.le_trans htrim (Source.le_lineEnd (src.trimNewline_le_size _ _)),
    src.lineEnd_le_size _⟩

/-- The line that starts at an offset, without a carriage return at its end. -/
theorem within_line {p : Nat} (h : p ≤ src.size) :
    Segment.Within src.size ⟨p, src.trimReturn p (src.lineEnd p)⟩ :=
  ⟨Source.le_trimReturn (Source.le_lineEnd h),
    Nat.le_trans (src.trimReturn_le _ _) (src.lineEnd_le_size _)⟩

theorem closingFence_bounds {stop : Nat} (h : stop ≤ src.size) :
    stop ≤ closingFence src stop ∧ closingFence src stop ≤ src.size := by
  unfold closingFence
  extract_lets next p
  split
  · have hnext : stop < next := Nat.lt_succ_of_le (Source.le_lineEnd h)
    have hp : next ≤ p := src.le_forward _ _ _
    simp only [Bool.and_eq_true, decide_eq_true_eq] at *
    have hend := Source.le_lineEnd (Nat.le_of_lt (Source.lt_of_at? ‹_ ∧ _›.2))
    have hle : next ≤ src.trimReturn next (src.lineEnd p) :=
      Source.le_trimReturn (Nat.le_trans hp hend)
    exact ⟨Nat.le_of_lt (Nat.lt_of_lt_of_le hnext hle),
      Nat.le_trans (src.trimReturn_le _ _) (src.lineEnd_le_size _)⟩
  · exact ⟨Nat.le_refl stop, h⟩

theorem firstToLast?_start {lines : List Segment} {line : Segment} (hs : s ∈ firstToLast? lines)
    (hline : lines.head? = some line) : s.start = line.start := by
  unfold firstToLast? at hs
  split at hs
  · rename_i hfirst _
    cases hs
    rw [hline] at hfirst
    cases hfirst
    rfl
  · cases hs

theorem fenceStart?_le {info : Option Segment} {lines : List Segment} {start : Nat}
    (h : fenceStart? src info lines = some start)
    (ho : ∀ s ∈ firstToLast? lines, s.start ≤ s.stop)
    (hinfo : ∀ i ∈ info, ∀ s ∈ firstToLast? lines, i.start ≤ s.stop) :
    start ≤ src.size ∧ ∀ s ∈ firstToLast? lines, start ≤ s.stop := by
  unfold fenceStart? at h
  split at h
  · rename_i i
    cases h
    exact ⟨src.lineStart_le_size _, fun s hs =>
      Nat.le_trans (src.lineStart_le _) (hinfo i rfl s hs)⟩
  · rename_i line hline
    split at h
    · cases h
      refine ⟨src.lineStart_le_size _, fun s hs => ?_⟩
      have hstart := firstToLast?_start hs hline
      have hle := src.lineStart_le (line.start - 1)
      have hordered := ho s hs
      omega
    · cases h
  · cases h

theorem length_fenceLanguage_le {info : Segment} (h : info.Within src.size) :
    info.start + (fenceLanguage src info).length ≤ info.stop := by
  have hle := (List.takeWhile_sublist (· != ascii ' ')
    (l := src.slice info.start info.stop)).length_le
  rw [Source.length_slice h.stop_le] at hle
  have hordered := h.ordered
  simp only [fenceLanguage]
  omega

theorem listMarker?_ordered {marker : UInt8} {p : Nat} {b : Segment}
    (h : listMarker? src marker p = some b) : b.start ≤ b.stop := by
  unfold listMarker? at h
  extract_lets p q at h
  split at h
  · cases h
    have hq : p ≤ q := by
      simp only [q]
      split
      · exact src.le_forward _ _ _
      · exact Nat.le_refl p
    exact Nat.le_succ_of_le hq
  · cases h

theorem within_breakLine? {fuel p : Nat} (h : breakLine? src fuel p = some s) :
    s.Within src.size := by
  induction fuel generalizing p with
  | zero => cases h
  | succ fuel ih =>
    rw [breakLine?] at h
    split at h
    · dsimp only at h
      split at h
      · cases h
        exact within_line ‹_›
      · exact ih h
    · cases h

theorem placed_keyEntries {entries : List KeyEntry}
    (h : ∀ entry ∈ entries, entry.key.Within size ∧ entry.value.Within size) :
    (keyEntries src entries).Placed size := by
  induction entries with
  | nil => trivial
  | cons entry rest ih =>
    obtain ⟨hkey, hvalue⟩ := h entry List.mem_cons_self
    have hrest := ih fun e he => h e (List.mem_cons_of_mem _ he)
    have hplain : ¬ NodeType.text.Gathers := by decide
    refine ⟨hkey.placed _, fun h => absurd h hplain, trivial, ?_⟩
    split
    · exact hrest
    · exact Forest.placed_leaf _ hvalue.fits hrest

/-! ## One kind after another -/

section Kinds

variable (hc : cursor ≤ src.size) (he : ∀ s ∈ extent, s.Within src.size)
  (hi : inner.Placed src.size)
include hc he hi

theorem placed_container (type : NodeType) :
    (container src type extent cursor inner).Placed src.size :=
  placed_containerAt type (within_getD_point hc he) hi

theorem placed_paragraph : (paragraph src extent cursor inner).Placed src.size :=
  placed_containerAt _ (within_trimNewline (within_getD_point hc he)) hi

theorem placed_heading {lines : List Segment} (hl : ∀ s ∈ firstToLast? lines, s.Within src.size) :
    (heading src lines extent cursor inner).Placed src.size := by
  unfold heading
  split
  · exact placed_container hc he hi _
  · rename_i s hs
    extract_lets start stop stop'
    have hlines : Segment.Within src.size ⟨start, stop⟩ := within_wholeLines (hl s hs)
    refine placed_containerAt _ ⟨?_, ?_⟩ hi
    · simp only [stop']
      split
      · simp only [Bool.and_eq_true, decide_eq_true_eq] at *
        exact Nat.le_trans hlines.ordered (Nat.le_of_lt (Source.le_lineEnd ‹_ ∧ _›.2))
      · exact hlines.ordered
    · simp only [stop']
      split
      · exact src.lineEnd_le_size _
      · exact hlines.stop_le

theorem placed_blockquote : (blockquote src extent cursor inner).Placed src.size := by
  unfold blockquote
  split
  · exact placed_container hc he hi _
  · exact placed_containerAt _ (within_wholeLines (he _ rfl)) hi

theorem placed_fencedCode {info : Option Segment} {lines : List Segment}
    (hinfo : ∀ i ∈ info, i.Within src.size) (hl : ∀ s ∈ firstToLast? lines, s.Within src.size)
    (hle : ∀ i ∈ info, ∀ s ∈ firstToLast? lines, i.start ≤ s.stop) :
    (fencedCode src info lines extent cursor inner).Placed src.size := by
  unfold fencedCode
  split
  · exact placed_container hc he hi _
  · rename_i start hstart
    obtain ⟨hsize, hstop⟩ := fenceStart?_le hstart (fun s hs => (hl s hs).ordered) hle
    extract_lets body stop stop' language type code below
    have hbody : start ≤ stop ∧ stop ≤ src.size := by
      cases hb : body with
      | none =>
        simp only [stop, hb]
        exact ⟨Source.le_lineEnd hsize, src.lineEnd_le_size _⟩
      | some b =>
        simp only [stop, hb]
        exact ⟨Source.le_trimNewline (hstop b hb) hsize, src.trimNewline_le_size _ _⟩
    have hfence := closingFence_bounds hbody.2
    have hcode : code.Placed src.size := by
      cases hb : body with
      | none => simp only [code, hb, Forest.Placed]
      | some b =>
        simp only [code, hb]
        exact Forest.placed_leaf _ (within_trimNewline (hl b hb)).fits trivial
    have hbelow : below.Placed src.size := by
      cases hsome : info with
      | none => simpa only [below, hsome] using hcode
      | some i =>
        have hlang := length_fenceLanguage_le (hinfo i hsome)
        have hwithin : Segment.Within src.size ⟨i.start, i.start + language.length⟩ := by
          simp only [language, hsome]
          exact ⟨Nat.le_add_right _ _, Nat.le_trans hlang (hinfo i hsome).stop_le⟩
        simp only [below, hsome]
        split
        · exact Forest.placed_leaf _ hwithin.fits hcode
        · exact hcode
    exact placed_leafAt _ ⟨Nat.le_trans hbody.1 hfence.1, hfence.2⟩ hbelow hc

theorem placed_indentedCode {lines : List Segment}
    (hl : ∀ s ∈ firstToLast? lines, s.Within src.size) :
    (indentedCode src lines extent cursor inner).Placed src.size := by
  unfold indentedCode
  split
  · exact placed_container hc he hi _
  · have hs := within_trimNewline (hl _ ‹_›)
    refine placed_leafAt _ ⟨Nat.le_trans (src.lineStart_le _) hs.ordered, hs.stop_le⟩ ?_ hc
    exact Forest.placed_leaf _ hs.fits trivial

theorem placed_listItem (marker : Option UInt8) :
    (listItem src marker extent cursor inner).Placed src.size := by
  unfold listItem
  extract_lets bullet?
  have hbullet : ∀ s ∈ extent, ∀ b ∈ bullet?, b.start ≤ b.stop ∧ b.stop ≤ s.start := by
    intro s hs b hb
    obtain rfl : extent = some s := hs
    cases hm : marker with
    | none => simp [bullet?, hm] at hb
    | some m =>
      simp only [bullet?, hm, Option.mem_def, Option.filter_eq_some_iff, decide_eq_true_eq] at hb
      exact ⟨listMarker?_ordered hb.1, hb.2⟩
  clear_value bullet?
  split
  · rename_i s bullet
    obtain ⟨hordered, hle⟩ := hbullet s rfl bullet rfl
    have hs := he s rfl
    have hsize : bullet.stop ≤ src.size := Nat.le_trans hle hs.start_le
    have hentries := Forest.placed_leaf .bullet (Segment.Within.fits ⟨hordered, hsize⟩) hi.entries
    have hwhole : Segment.Within src.size ⟨bullet.start, s.stop⟩ :=
      ⟨Nat.le_trans hordered (Nat.le_trans hle hs.ordered), hs.stop_le⟩
    exact placed_containerAt _ (within_trimNewline hwhole)
      ⟨hentries, hi.segments, hi.cursor_le, hi.diagnostics⟩
  · exact placed_container hc he hi _

omit he in
theorem placed_link (type : NodeType) (destination : Bytes) {content : Option Segment}
    (hcontent : ∀ s ∈ content, s.Within src.size) :
    (link src type destination content cursor inner).Placed src.size := by
  unfold link
  extract_lets parts target warnings
  have hparts : parts.Within src.size := by
    cases hsome : content with
    | none =>
      simp only [parts, hsome]
      exact ⟨Segment.within_point hc, by simp⟩
    | some s =>
      simp only [parts, hsome]
      exact within_linkParts _ _ (hcontent s hsome)
  have htarget : target.Placed src.size := by
    simp only [target]
    split
    · trivial
    · split
      · exact Forest.placed_leaf _ (hparts.href _ ‹_›).fits trivial
      · exact Forest.placed_literal _ _
  refine placed_containerAt _ hparts.extent
    ⟨Forest.placed_append hi.entries htarget, hi.segments, hi.cursor_le, ?_⟩
  intro d hd
  cases List.mem_append.mp hd with
  | inl hd => exact hi.diagnostics d hd
  | inr hd =>
    simp only [warnings] at hd
    split at hd
    · cases List.mem_singleton.mp hd
      exact hparts.extent.fits
    · cases hd

end Kinds

section Leaves

variable (hc : cursor ≤ src.size)
include hc

theorem placed_thematicBreak : (thematicBreak src cursor).Placed src.size :=
  placed_leafAt _ (within_getD_point hc fun _ h => within_breakLine? h) trivial hc

theorem placed_htmlBlock (type : Nat) {closure : Option Segment} {lines : List Segment}
    (hclosure : ∀ s ∈ closure, s.Within src.size)
    (hl : ∀ s ∈ firstToLast? lines, s.Within src.size) :
    (htmlBlock src type closure lines cursor).Placed src.size := by
  unfold htmlBlock
  extract_lets nodeType place
  have hplace : ∀ s ∈ place, s.Within src.size := by
    intro s hs
    simp only [place, Option.mem_def] at hs
    split at hs
    · cases hs
    · cases hs
      exact hl _ ‹_›
    · cases hs
      exact hclosure _ rfl
    · rename_i c hlines
      cases hs
      have hb := hl _ hlines
      have hcl := hclosure c rfl
      exact ⟨Nat.le_trans hb.ordered (Nat.le_max_left _ _),
        Nat.max_le.mpr ⟨hb.stop_le, hcl.stop_le⟩⟩
  clear_value place
  split
  · exact placed_leafAt _ (Segment.within_point hc) trivial hc
  · exact placed_leafAt _ (within_trimNewline (hplace _ rfl)) trivial hc

theorem placed_rawHtml {segments : List Segment}
    (hl : ∀ s ∈ firstToLast? segments, s.Within src.size) :
    (rawHtml src segments cursor).Placed src.size := by
  unfold rawHtml
  split
  · exact placed_none hc
  · exact placed_leafAt _ (hl _ ‹_›) trivial hc

theorem placed_autoLink (label : Segment) (protocol : Option Bytes) :
    (autoLink src label protocol cursor).Placed src.size := by
  unfold autoLink
  extract_lets text found?
  have hfound : ∀ n ∈ found?, cursor + n + text.length ≤ src.size := by
    intro n hn
    simp only [found?, Option.mem_def] at hn
    split at hn
    · cases hn
    · exact Source.find?_suffix_le hn hc
  clear_value found?
  split
  · exact placed_leafAt _ (Segment.within_point hc) (Forest.placed_literal _ _) hc
  · rename_i n
    extract_lets href s
    have hhref : href.Within src.size := ⟨Nat.le_add_right _ _, hfound n rfl⟩
    refine placed_leafAt _ ?_ (Forest.placed_leaf _ hhref.fits trivial) hc
    have hle := hhref.ordered
    simp only [s]
    split
    · simp only [Bool.and_eq_true] at *
      exact ⟨by simp only; omega, Source.lt_of_at? ‹_ ∧ _›.2⟩
    · exact hhref

theorem placed_directive {d : Directive} (h : ∀ s ∈ d.segments, s.Within src.size) :
    (directive src d cursor).Placed src.size := by
  unfold directive
  extract_lets keys labelled errors
  have hkeys : keys.Placed src.size := placed_keyEntries (Directive.within_keys h)
  have hlabelled : labelled.Placed src.size := by
    cases hl : d.label with
    | none => simpa only [labelled, hl] using hkeys
    | some l =>
      simp only [labelled, hl]
      exact Forest.placed_leaf _ (h l (by simp [Directive.segments, hl])).fits hkeys
  have herrors : ∀ e ∈ errors, e.span.Fits src.size := by
    intro e he
    simp only [errors] at he
    split at he
    · rename_i u hu
      cases List.mem_singleton.mp he
      have hu' := (Option.filter_eq_some_iff.mp hu).1
      exact (h u (by simp [Directive.segments, hu'])).fits
    · cases he
  have hname := (h d.name (by simp [Directive.segments])).fits
  have hleaf := placed_leafAt .opCode (h d.segment (by simp [Directive.segments]))
    (Forest.placed_leaf .opcode hname hlabelled) hc
  exact ⟨hleaf.piece, hleaf.cursor_le, herrors⟩

/-- The content of a delimited form is what its delimiters leave. -/
theorem placed_delimited (type : NodeType) {width : Nat} (hs : s.Within src.size)
    (hw : 2 * width ≤ s.length) : (delimited src type s width cursor).Placed src.size := by
  have hle := hs.ordered
  have hsize := hs.stop_le
  simp only [Segment.length] at hw
  refine placed_leafAt type hs (Forest.placed_leaf _ ⟨?_, ?_, ?_⟩ trivial) hc <;>
    simp only <;> omega

end Leaves

/-! ## Whole documents -/

theorem bounds_firstToLast? {segments : List Segment}
    (h : ∀ s ∈ segments, s.start ≤ size ∧ s.stop ≤ size) :
    ∀ s ∈ firstToLast? segments, s.start ≤ size ∧ s.stop ≤ size := by
  intro s hs
  unfold firstToLast? at hs
  split at hs
  · rename_i hfirst hlast
    cases hs
    exact ⟨(h _ (List.mem_of_head? hfirst)).1, (h _ (List.mem_of_getLast? hlast)).2⟩
  · cases hs

theorem placed_list (hc : cursor ≤ size) (hi : inner.Placed size) :
    (list cursor inner).Placed size := by
  refine ⟨?_, hi.cursor_le, hi.diagnostics⟩
  rintro p ⟨⟩
  refine ⟨NodeType.Gathers.placed (.inl rfl) ?_, hi.entries⟩
  cases hs : firstToLast? inner.segments with
  | none => exact ⟨hc, hc⟩
  | some s => exact bounds_firstToLast? hi.segments s hs

theorem placed_table (hc : cursor ≤ src.size) (hi : inner.Placed src.size) :
    (table src cursor inner).Placed src.size := by
  unfold table
  split
  · refine ⟨?_, hi.cursor_le, hi.diagnostics⟩
    rintro p ⟨⟩
    exact ⟨NodeType.Gathers.placed (.inr rfl) ⟨hc, hc⟩, hi.entries⟩
  · refine ⟨?_, advance_le hi.cursor_le _, hi.diagnostics⟩
    rintro p ⟨⟩
    exact ⟨NodeType.Gathers.placed (.inr rfl) ⟨src.lineStart_le_size _,
      Nat.le_trans (src.trimReturn_le _ _) (src.lineEnd_le_size _)⟩, hi.entries⟩

theorem placed_controlRow {o : Outcome} (h : o.Placed src.size) :
    (controlRow src o).Placed src.size := by
  unfold controlRow
  split
  · exact placed_none h.cursor_le
  · dsimp only
    split
    · exact placed_leafAt _ (within_line ‹_›) trivial h.cursor_le
    · exact placed_none h.cursor_le

/-- One case for each kind of node. -/
theorem placed_convertKind {n : Node} (hn : n.Everywhere (Node.Placed src.size))
    (marker : Option UInt8) (hc : cursor ≤ src.size) (hi : inner.Placed src.size) :
    (convertKind src marker n cursor inner).Placed src.size := by
  have hp := hn.here
  have hs := hp.segments
  have he := hn.within_extent
  unfold convertKind
  extract_lets extent
  cases hk : n.kind with
  | text s | spacing s thin | latex s =>
    exact placed_leafAt _ (hs s (by simp [hk, Kind.segments])) trivial hc
  | string => exact placed_none hc
  | paragraph | textBlock => exact placed_paragraph hc he hi
  | heading level => exact placed_heading hc he hi hp.lines_within
  | blockquote => exact placed_blockquote hc he hi
  | fencedCode info =>
    refine placed_fencedCode hc he hi ?_ hp.lines_within ?_
    · intro i hi
      exact hs i (by simpa [hk, Kind.segments] using hi)
    · rintro i rfl
      exact hp.info_start_le i hk
  | codeBlock => exact placed_indentedCode hc he hi hp.lines_within
  | thematicBreak => exact placed_thematicBreak hc
  | htmlBlock type closure =>
    refine placed_htmlBlock hc type ?_ hp.lines_within
    intro c hc
    exact hs c (by simpa [hk, Kind.segments] using hc)
  | rawHtml segments =>
    refine placed_rawHtml hc (within_firstToLast? ?_ (hp.rawHtml_ordered segments hk))
    simpa [hk, Kind.segments] using hs
  | list marker => exact placed_list hc hi
  | listItem => exact placed_listItem hc he hi marker
  | link destination | image destination =>
    exact placed_link hc hi _ destination hn.within_content
  | autoLink label protocol => exact placed_autoLink hc label protocol
  | directive d => exact placed_directive hc (by simpa [hk, Kind.segments] using hs)
  | formula s =>
    exact placed_delimited hc _ (hs s (by simp [hk, Kind.segments])) (hp.two_le_formula s hk)
  | underline s =>
    exact placed_delimited hc _ (hs s (by simp [hk, Kind.segments])) (hp.four_le_underline s hk)
  | document | emphasis | strikethrough | codeSpan | table | tableHeader | tableRow | tableCell
  | otherBlock | otherInline => exact placed_container hc he hi _

theorem convertNode_table (marker : Option UInt8) (lines : List Segment) (children : List Node)
    (cursor : Nat) :
    convertNode src marker (.mk .table lines children) cursor =
      table src cursor (convertRows src children cursor) := by
  rw [convertNode]

theorem convertNode_of_ne {kind : Kind} (h : kind ≠ .table) (marker : Option UInt8)
    (lines : List Segment) (children : List Node) (cursor : Nat) :
    convertNode src marker (.mk kind lines children) cursor =
      convertKind src marker (.mk kind lines children) cursor
        (convertAll src kind.marker? children cursor) := by
  rw [convertNode]
  exact h

section Sequences

variable {nodes : List Node} (h : ∀ n ∈ nodes, ∀ (marker : Option UInt8) (cursor : Nat),
  cursor ≤ src.size → (convertNode src marker n cursor).Placed src.size)
include h

theorem placed_convertAll (marker : Option UInt8) (hc : cursor ≤ src.size) :
    (convertAll src marker nodes cursor).Placed src.size := by
  induction nodes generalizing cursor with
  | nil => exact Conversion.Placed.empty hc
  | cons n rest ih =>
    have ho := h n List.mem_cons_self marker cursor hc
    rw [convertAll]
    exact Conversion.Placed.cons ho (ih (fun m hm => h m (List.mem_cons_of_mem _ hm)) ho.cursor_le)

theorem placed_convertRows (hc : cursor ≤ src.size) :
    (convertRows src nodes cursor).Placed src.size := by
  induction nodes generalizing cursor with
  | nil => exact Conversion.Placed.empty hc
  | cons n rest ih =>
    have ho := h n List.mem_cons_self none cursor hc
    have hcontrol := placed_controlRow ho
    have hrest := fun m hm => h m (List.mem_cons_of_mem _ hm)
    rw [convertRows]
    dsimp only
    split
    · exact .cons ho (.cons hcontrol (ih hrest hcontrol.cursor_le))
    · exact .cons ho (ih hrest ho.cursor_le)

end Sequences

/-- Wherever a placed node is met, it is converted to something placed. -/
theorem placed_convertNode {n : Node} (hn : n.Everywhere (Node.Placed src.size))
    (marker : Option UInt8) (cursor : Nat) (hc : cursor ≤ src.size) :
    (convertNode src marker n cursor).Placed src.size := by
  induction hn generalizing marker cursor with
  | @mk kind lines children hp hchildren ih =>
    by_cases hk : kind = .table
    · subst hk
      rw [convertNode_table]
      exact placed_table hc (placed_convertRows ih hc)
    · rw [convertNode_of_ne hk]
      exact placed_convertKind (.mk hp hchildren) marker hc (placed_convertAll ih _ hc)

end DocTokens.Markdown
