import DocTokens.Proofs.Classification
import DocTokens.Proofs.Markdown.DirectiveGrammar
import DocTokens.Proofs.Markdown.Ends
import DocTokens.Proofs.Markdown.SourceLines

/-! # Thematic breaks

A thematic break carries no position. It is put on the first line from the cursor on that looks like
one, which moves the cursor to the end of that line, so that the next break finds a later line.
-/

namespace DocTokens

namespace Markdown

/-! ## Break lines -/

/-- A line of marks. -/
structure BreakForm (spaces : Nat) (mark : UInt8) (gaps : List Bytes) (returns : Nat)
    (line : Bytes) : Prop where
  spaces_le : spaces ≤ 3
  mark_mem : mark ∈ [ascii '-', ascii '*', ascii '_']
  three_le : 3 ≤ gaps.length
  /-- Only spaces and tabs stand after a mark. -/
  blank : ∀ gap ∈ gaps, ∀ b ∈ gap, b ∈ [ascii ' ', ascii '\t']
  line_eq : line = List.replicate spaces (ascii ' ') ++ gaps.flatMap (mark :: ·) ++
    List.replicate returns (ascii '\r')

/-- At most three spaces, then three or more copies of one mark, each with any spaces and tabs after
it, and carriage returns at the end. -/
def IsBreakLine (line : Bytes) : Prop := ∃ spaces mark gaps returns,
  BreakForm spaces mark gaps returns line

section Forms

variable {mark : UInt8} {gaps : List Bytes} {rest line : Bytes} {spaces returns : Nat}

theorem isBreakMark_iff : isBreakMark mark = true ↔ mark ∈ [ascii '-', ascii '*', ascii '_'] := by
  simp [isBreakMark, or_assoc]

theorem isSpaceOrTab_iff {b : UInt8} : isSpaceOrTab b = true ↔ b ∈ [ascii ' ', ascii '\t'] := by
  simp [isSpaceOrTab]

theorem not_isSpaceOrTab_of_mark (h : mark ∈ [ascii '-', ascii '*', ascii '_']) :
    isSpaceOrTab mark = false := by
  simp only [List.mem_cons, List.not_mem_nil, or_false] at h
  rcases h with rfl | rfl | rfl <;> decide

/-- A text of blanks and marks, cut before each mark. -/
theorem exists_gaps (h : ∀ b ∈ rest, b = mark ∨ isSpaceOrTab b = true) :
    ∃ (front : Bytes) (gaps : List Bytes), (∀ b ∈ front, isSpaceOrTab b = true) ∧
      (∀ gap ∈ gaps, ∀ b ∈ gap, isSpaceOrTab b = true) ∧
      rest = front ++ gaps.flatMap (mark :: ·) ∧ gaps.length = rest.count mark := by
  induction rest with
  | nil => exact ⟨[], [], by simp⟩
  | cons b rest ih =>
    obtain ⟨front, gaps, hfront, hgaps, hrest, hlength⟩ :=
      ih fun c hc => h c (List.mem_cons_of_mem _ hc)
    by_cases hb : b = mark
    · -- what stood in front of the first mark is now what stands after this one
      refine ⟨[], front :: gaps, by simp, ?_, by simp [hb, hrest], by simp [hb, hlength]⟩
      intro gap hgap
      rcases List.mem_cons.mp hgap with rfl | hgap
      · exact hfront
      · exact hgaps gap hgap
    · have hblank := (h b List.mem_cons_self).resolve_left hb
      refine ⟨b :: front, gaps, ?_, hgaps, by simp [hrest], by simp [hb, hlength]⟩
      intro c hc
      rcases List.mem_cons.mp hc with rfl | hc
      · exact hblank
      · exact hfront c hc

theorem count_gaps (hmark : isSpaceOrTab mark = false)
    (h : ∀ gap ∈ gaps, ∀ b ∈ gap, isSpaceOrTab b = true) :
    (gaps.flatMap (mark :: ·)).count mark = gaps.length := by
  induction gaps with
  | nil => rfl
  | cons gap gaps ih =>
    have hgap : gap.count mark = 0 := by
      refine List.count_eq_zero.mpr fun hmem => ?_
      rw [h gap List.mem_cons_self mark hmem] at hmark
      cases hmark
    rw [List.flatMap_cons, List.count_append, ih fun g hg => h g (List.mem_cons_of_mem _ hg)]
    simp [hgap, Nat.add_comm]

/-- The carriage returns that are dropped from the end of a line. -/
theorem exists_returns (line : Bytes) : ∃ returns,
    line = (line.reverse.dropWhile (· == ascii '\r')).reverse ++
      List.replicate returns (ascii '\r') := by
  refine ⟨(line.reverse.takeWhile (· == ascii '\r')).length, ?_⟩
  have hreturns : line.reverse.takeWhile (· == ascii '\r') = List.replicate
      (line.reverse.takeWhile (· == ascii '\r')).length (ascii '\r') :=
    List.eq_replicate_of_mem fun b hb => by simpa using List.mem_takeWhile_imp hb
  rw [← List.reverse_replicate, ← hreturns, ← List.reverse_append, List.takeWhile_append_dropWhile,
    List.reverse_reverse]

theorem dropReturns_append (h : ascii '\r' ∉ rest) (returns : Nat) :
    ((rest ++ List.replicate returns (ascii '\r')).reverse.dropWhile (· == ascii '\r')).reverse =
      rest := by
  have hkept : rest.reverse.dropWhile (· == ascii '\r') = rest.reverse := by
    cases hlast : rest.reverse with
    | nil => rfl
    | cons b more =>
      have hb : b ≠ ascii '\r' := by
        rintro rfl
        exact h (List.mem_reverse.mp (hlast ▸ List.mem_cons_self))
      rw [List.dropWhile_cons_of_neg (by simpa using hb)]
  rw [List.reverse_append, List.reverse_replicate, List.dropWhile_append_of_pos (by simp), hkept,
    List.reverse_reverse]

theorem BreakForm.not_mem_return (h : BreakForm spaces mark gaps returns line) :
    ascii '\r' ∉ List.replicate spaces (ascii ' ') ++ gaps.flatMap (mark :: ·) := by
  have hmark : ascii '\r' ≠ mark := by
    rintro rfl
    exact absurd h.mark_mem (by decide)
  have hblank : ∀ gap ∈ gaps, ascii '\r' ∉ gap :=
    fun gap hgap hmem => absurd (h.blank gap hgap _ hmem) (by decide)
  have hspace : ascii '\r' ≠ ascii ' ' := by decide
  simpa [List.mem_replicate, hspace, hmark] using hblank

theorem BreakForm.isThematicBreak (h : BreakForm spaces mark gaps returns line) :
    isThematicBreak line = true := by
  have hmark := not_isSpaceOrTab_of_mark h.mark_mem
  have hblank : ∀ gap ∈ gaps, ∀ b ∈ gap, isSpaceOrTab b = true :=
    fun gap hgap b hb => isSpaceOrTab_iff.mpr (h.blank gap hgap b hb)
  obtain ⟨gap, more, rfl⟩ :=
    List.exists_cons_of_length_pos (Nat.lt_of_lt_of_le (by omega) h.three_le)
  have hspaces : Bytes.spanLength isSpaceByte
      (List.replicate spaces (ascii ' ') ++ (gap :: more).flatMap (mark :: ·)) = spaces := by
    have hnot : isSpaceByte mark = false := by
      simp only [isSpaceOrTab, Bool.or_eq_false_iff] at hmark
      exact hmark.1
    rw [Bytes.spanLength, List.flatMap_cons, List.cons_append, Bytes.takeWhile_eq_of_head?]
    · exact List.length_replicate
    · intro b hb
      rw [List.eq_of_mem_replicate hb]
      rfl
    · rintro b ⟨⟩
      exact hnot
  have hall : ((gap :: more).flatMap (mark :: ·)).all
      (fun b => b == mark || isSpaceOrTab b) = true := by
    simp only [List.all_eq_true, List.mem_flatMap, List.mem_cons, Bool.or_eq_true, beq_iff_eq]
    rintro b ⟨g, hg, rfl | hb⟩
    · exact .inl rfl
    · exact .inr (hblank g (List.mem_cons.mpr hg) b hb)
  have hcount := count_gaps hmark hblank
  unfold Markdown.isThematicBreak
  dsimp only
  rw [h.line_eq, dropReturns_append h.not_mem_return, hspaces, Nat.min_eq_right h.spaces_le,
    List.drop_left' List.length_replicate]
  simp only [List.flatMap_cons, List.cons_append] at hall hcount ⊢
  rw [isBreakMark_iff.mpr h.mark_mem, hall, hcount, decide_eq_true h.three_le]
  rfl

/-- The recogniser accepts the break lines and nothing else. -/
theorem isThematicBreak_iff (line : Bytes) : isThematicBreak line = true ↔ IsBreakLine line := by
  refine ⟨fun h => ?_, fun ⟨_, _, _, _, h⟩ => h.isThematicBreak⟩
  unfold isThematicBreak at h
  extract_lets core rest at h
  obtain ⟨returns, hline⟩ := exists_returns line
  obtain ⟨spaces, hle, hfront⟩ : ∃ spaces ≤ 3,
      core = List.replicate spaces (ascii ' ') ++ rest := by
    refine ⟨min 3 (Bytes.spanLength isSpaceByte core), Nat.min_le_left _ _, ?_⟩
    have htake : core.take (min 3 (Bytes.spanLength isSpaceByte core)) <+:
        core.takeWhile isSpaceByte :=
      List.prefix_of_prefix_length_le (List.take_prefix _ _) (List.takeWhile_prefix _)
        (Nat.le_trans (List.length_take_le _ _) (Nat.min_le_right _ _))
    have hspaces : core.take (min 3 (Bytes.spanLength isSpaceByte core)) =
        List.replicate (min 3 (Bytes.spanLength isSpaceByte core)) (ascii ' ') := by
      refine List.eq_replicate_iff.mpr ⟨?_, fun b hb => ?_⟩
      · have hlength := (List.takeWhile_prefix isSpaceByte (l := core)).length_le
        rw [List.length_take, Bytes.spanLength]
        omega
      · simpa [isSpaceByte] using List.mem_takeWhile_imp (htake.subset hb)
    rw [← hspaces]
    exact (List.take_append_drop _ core).symm
  cases hrest : rest with
  | nil => simp [hrest] at h
  | cons mark more =>
    simp only [hrest, Bool.and_eq_true, decide_eq_true_eq, List.all_eq_true, Bool.or_eq_true,
      beq_iff_eq] at h
    obtain ⟨⟨hmark, hall⟩, hcount⟩ := h
    have hmark := isBreakMark_iff.mp hmark
    have hsolid := not_isSpaceOrTab_of_mark hmark
    obtain ⟨front, gaps, hblank, hgaps, hmarks, hlength⟩ := exists_gaps hall
    obtain rfl : front = [] := by
      cases front with
      | nil => rfl
      | cons b front =>
        obtain rfl : mark = b := (List.cons.inj hmarks).1
        rw [hblank mark List.mem_cons_self] at hsolid
        cases hsolid
    refine ⟨spaces, mark, gaps, returns, hle, hmark, hlength ▸ hcount,
      fun gap hgap b hb => isSpaceOrTab_iff.mp (hgaps gap hgap b hb), ?_⟩
    rw [hrest, hmarks, List.nil_append] at hfront
    exact hfront ▸ hline

end Forms

end Markdown

/-! ## The first break line from an offset on -/

namespace Source

/-- No line that starts at or after the offset is a break line. -/
def NoBreak (src : Source) (p : Nat) : Prop :=
  ∀ l, src.IsLine l → p ≤ l.start → ¬ Markdown.IsBreakLine (src.slice l.start l.stop)

/-- The line is the first break line that starts at or after the offset. -/
structure FirstBreak (src : Source) (p : Nat) (l : Segment) : Prop where
  isLine : src.IsLine l
  le_start : p ≤ l.start
  isBreak : Markdown.IsBreakLine (src.slice l.start l.stop)
  first : ∀ l', src.IsLine l' → p ≤ l'.start →
    Markdown.IsBreakLine (src.slice l'.start l'.stop) → l.start ≤ l'.start

/-- Every break line from the first offset on starts at or after the second. -/
structure Skips (src : Source) (p q : Nat) : Prop where
  le : p ≤ q
  le_start : ∀ l, src.IsLine l → p ≤ l.start →
    Markdown.IsBreakLine (src.slice l.start l.stop) → q ≤ l.start

variable {src : Source} {p q start stop : Nat} {l l' : Segment}

theorem Skips.refl (p : Nat) : src.Skips p p := ⟨Nat.le_refl p, fun _ _ hle _ => hle⟩

theorem Skips.noBreak (h : src.Skips p q) (hq : src.NoBreak q) : src.NoBreak p :=
  fun l hl hle hbreak => hq l hl (h.le_start l hl hle hbreak) hbreak

theorem Skips.firstBreak (h : src.Skips p q) (hq : src.FirstBreak q l) : src.FirstBreak p l where
  isLine := hq.isLine
  le_start := Nat.le_trans h.le hq.le_start
  isBreak := hq.isBreak
  first l' hl' hle hbreak := hq.first l' hl' (h.le_start l' hl' hle hbreak) hbreak

theorem noBreak_of_size_lt (h : src.size < p) : src.NoBreak p := by
  intro l hl hle _
  have := hl.ordered
  have := hl.stop_le
  omega

/-- The lines that start after a place in a line start after the end of the line. -/
theorem IsLine.skips (hl : src.IsLine l) (hp : l.Holds p)
    (h : p = l.start → ¬ Markdown.IsBreakLine (src.slice l.start l.stop)) :
    src.Skips p (l.stop + 1) := by
  refine ⟨Nat.le_succ_of_le hp.le_stop, fun l' hl' hle hbreak => ?_⟩
  rcases Nat.lt_or_ge l.start l'.start with hlt | hge
  · exact hl.stop_lt_start hl' hlt
  · have hstart : p = l.start := Nat.le_antisymm (Nat.le_trans hle hge) hp.start_le
    obtain rfl : l' = l :=
      hl'.eq_of_holds hl hl'.holds_start ⟨by omega, by have := hp.le_stop; omega⟩
    exact absurd hbreak (h hstart)

/-- The line after a line, or nothing. -/
theorem IsLine.next (hl : src.IsLine l) :
    src.size < l.stop + 1 ∨ src.IsLine ⟨l.stop + 1, src.lineEnd (l.stop + 1)⟩ := by
  rcases Nat.lt_or_ge l.stop src.size with hlt | hge
  · exact .inr (hl.isLine_next hlt)
  · exact .inl (Nat.lt_succ_of_le hge)

theorem mem_slice {i : Nat} {b : UInt8} (h : src[i]? = some b) (hstart : start ≤ i)
    (hstop : i < stop) : b ∈ src.slice start stop := by
  obtain ⟨hi, rfl⟩ := Array.getElem?_eq_some_iff.mp h
  simp only [slice, Array.mem_toList_iff]
  exact Array.mem_extract_iff_getElem.mpr
    ⟨i - start, by omega, by simp [Nat.add_sub_cancel' hstart]⟩

end Source

namespace Markdown

variable {src : Source} {p cursor fuel : Nat} {s l : Segment}

/-- The scan finds the first break line, whatever line it starts with, and ends without one only
when there is none. -/
theorem breakLine?_spec (hp : src.size < p ∨ src.IsLine ⟨p, src.lineEnd p⟩)
    (hfuel : src.size < p + fuel) :
    breakLine? src fuel p = none ∧ src.NoBreak p ∨
      ∃ l, src.FirstBreak p l ∧
        breakLine? src fuel p = some ⟨l.start, src.trimReturn l.start l.stop⟩ := by
  induction fuel generalizing p with
  | zero => exact .inl ⟨rfl, Source.noBreak_of_size_lt hfuel⟩
  | succ fuel ih =>
    rw [breakLine?]
    split
    · rename_i hle
      have hline := hp.resolve_left (Nat.not_lt.mpr hle)
      dsimp only
      split
      · rename_i hbreak
        exact .inr ⟨_, ⟨hline, Nat.le_refl p, (isThematicBreak_iff _).mp hbreak,
          fun _ _ hle' _ => hle'⟩, rfl⟩
      · rename_i hbreak
        have hskips : src.Skips p (src.lineEnd p + 1) :=
          hline.skips hline.holds_start fun _ h => hbreak ((isThematicBreak_iff _).mpr h)
        have hlt : src.size < src.lineEnd p + 1 + fuel := by
          have := Source.le_lineEnd hle
          omega
        rcases ih hline.next hlt with ⟨hnone, hno⟩ | ⟨l, hfirst, hsome⟩
        · exact .inl ⟨hnone, hskips.noBreak hno⟩
        · exact .inr ⟨l, hskips.firstBreak hfirst, hsome⟩
    · rename_i hpast
      exact .inl ⟨rfl, Source.noBreak_of_size_lt (Nat.lt_of_not_le hpast)⟩

/-- A break is put on the first break line from the cursor on or, failing that, at the cursor. -/
theorem thematicBreak_spec (hc : cursor ≤ src.size) :
    ∃ s, thematicBreak src cursor = leafAt src cursor .hr s .nil ∧
      (src.NoBreak cursor ∧ s = .point cursor ∨
        ∃ l, src.FirstBreak cursor l ∧ s = ⟨l.start, src.trimReturn l.start l.stop⟩) := by
  unfold thematicBreak
  extract_lets p
  have hp : src.Skips cursor p ∧ (src.size < p ∨ src.IsLine ⟨p, src.lineEnd p⟩) := by
    simp only [p]
    split
    · rename_i hmid
      simp only [Bool.and_eq_true, decide_eq_true_eq, Bool.not_eq_true'] at hmid
      -- the cursor stands inside of a line, the rest of which is passed over
      have hline := src.isLine_lineOf cursor
      refine ⟨hline.skips (Source.holds_lineOf hc) fun heq _ => ?_, hline.next⟩
      rcases hline.starts with hzero | hbreak
      · omega
      · rw [← heq] at hbreak
        rw [Source.at?_beq_iff.mpr hbreak] at hmid
        cases hmid.2
    · rename_i hfront
      simp only [Bool.and_eq_true, decide_eq_true_eq, Bool.not_eq_true', not_and,
        Bool.not_eq_false] at hfront
      obtain ⟨hend, hunbroken⟩ := Source.lineEnd_spec hc
      refine ⟨.refl cursor, .inr ⟨Source.le_lineEnd hc, src.lineEnd_le_size cursor, ?_, hend,
        hunbroken⟩⟩
      rcases Nat.eq_zero_or_pos cursor with hzero | hpos
      · exact .inl hzero
      · exact .inr (Source.at?_beq_iff.mp (hfront hpos))
  obtain ⟨hskips, hline⟩ := hp
  have hfuel : src.size < p + (src.size + 1 - p) := by omega
  refine ⟨_, rfl, ?_⟩
  rcases breakLine?_spec hline hfuel with ⟨hnone, hno⟩ | ⟨l, hfirst, hsome⟩
  · exact .inl ⟨hskips.noBreak hno, by rw [hnone, Option.getD_none]⟩
  · exact .inr ⟨l, hskips.firstBreak hfirst, by rw [hsome, Option.getD_some]⟩

/-- A break line without the last of its carriage returns is not shorter than its marks. -/
theorem three_le_trimReturn (hl : src.IsLine l) (h : IsBreakLine (src.slice l.start l.stop)) :
    l.start + 3 ≤ src.trimReturn l.start l.stop := by
  obtain ⟨spaces, mark, gaps, returns, hform⟩ := h
  have hmarks : gaps.length ≤ (gaps.flatMap (mark :: ·)).length := by
    have hcount := count_gaps (not_isSpaceOrTab_of_mark hform.mark_mem)
      fun gap hgap b hb => isSpaceOrTab_iff.mpr (hform.blank gap hgap b hb)
    exact hcount ▸ List.count_le_length
  have hlength := congrArg List.length hform.line_eq
  rw [Source.length_slice hl.stop_le, List.length_append, List.length_append, List.length_replicate,
    List.length_replicate] at hlength
  have hthree := hform.three_le
  unfold Source.trimReturn
  split
  · rename_i hreturn
    simp only [Bool.and_eq_true, decide_eq_true_eq] at hreturn
    have hmem : ascii '\r' ∈ src.slice l.start l.stop :=
      Source.mem_slice (Source.at?_beq_iff.mp hreturn.2) (by omega) (by omega)
    have hpos : returns ≠ 0 := by
      rintro rfl
      rw [hform.line_eq, List.replicate_zero, List.append_nil] at hmem
      exact hform.not_mem_return hmem
    omega
  · omega

/-! ## Documents -/

/-- The step deals with a thematic break. -/
def Step.IsBreak (v : Step) : Prop := ∃ n, v.node? = some n ∧ n.kind = .thematicBreak

/-- What becomes of a break that is begun at a cursor: a point at the cursor where no break line is
left, else the first break line without one carriage return, which is one token. -/
structure BreakAt (src : Source) (t : Tree) (cursor : Nat) (n : DocTokens.Node) : Prop where
  type_eq : n.type = .hr
  place : src.NoBreak cursor ∧ n.span = Segment.toSpan (.point cursor) ∨
    ∃ l length category, src.FirstBreak cursor l ∧
      n.span = Segment.toSpan ⟨l.start, src.trimReturn l.start l.stop⟩ ∧
      l.start + length = src.trimReturn l.start l.stop ∧ 3 ≤ length ∧ category.IsOf .hr ∧
      t.tokensAt (.ofBytes src.toList) n.id = .ok [⟨src.lineNumber l.start, 0, length, category⟩]

section Documents

variable {document : Node} {v w : Step}

theorem Step.IsBreak.place (h : v.IsBreak) (hv : v ∈ courseOf src document) :
    v.piece.type = .hr ∧ (src.NoBreak v.cursor ∧ v.piece.segment = .point v.cursor ∨
      ∃ l, src.FirstBreak v.cursor l ∧
        v.piece.segment = ⟨l.start, src.trimReturn l.start l.stop⟩) := by
  obtain ⟨⟨kind, lines, children⟩, hn, rfl⟩ := h
  have hpiece := ((course_convert src document).sound v hv).converted _ hn
  obtain ⟨s, hbreak, hplace⟩ := thematicBreak_spec (cursor_courseOf_le v hv)
  rw [convertNode_of_ne (by simp)] at hpiece
  change (thematicBreak src v.cursor).piece = _ at hpiece
  rw [hbreak] at hpiece
  obtain hpiece : (⟨.hr, s, .nil⟩ : Piece) = v.piece := Option.some.inj hpiece
  rw [← hpiece]
  exact ⟨rfl, hplace⟩

/-- A break that is not empty is on a break line. -/
theorem Step.IsBreak.firstBreak (h : v.IsBreak) (hv : v ∈ courseOf src document)
    (hne : v.start < v.stop) : ∃ l, src.FirstBreak v.cursor l ∧ v.start = l.start := by
  rcases (h.place hv).2 with ⟨-, hpoint⟩ | ⟨l, hfirst, hsegment⟩
  · rw [Step.start, Step.stop, hpoint] at hne
    exact absurd hne (Nat.lt_irrefl _)
  · exact ⟨l, hfirst, by rw [Step.start, hsegment]⟩

theorem Step.IsBreak.breakAt (h : v.IsBreak) (hv : v ∈ courseOf src document) {t : Tree}
    {c : DocTokens.Node × Forest DocTokens.Node} (hc : t.Holds v.branch c) :
    BreakAt src t v.cursor c.1 := by
  obtain ⟨htype, hplace⟩ := h.place hv
  have hspan : c.1.span = v.piece.segment.toSpan := hc.span_eq.symm
  have htype' : c.1.type = .hr := hc.type_eq.symm.trans htype
  refine ⟨htype', ?_⟩
  rw [hspan]
  rcases hplace with ⟨hno, hpoint⟩ | ⟨l, hfirst, hsegment⟩
  · exact .inl ⟨hno, by rw [hpoint]⟩
  · have hthree := three_le_trimReturn hfirst.isLine hfirst.isBreak
    have hle := src.trimReturn_le l.start l.stop
    obtain ⟨length, hlength⟩ := Nat.exists_eq_add_of_le (Nat.le_of_add_right_le hthree)
    have hcategory : (⟨7⟩ : Category).IsOf .hr := Category.ofType?_eq_some_iff.mp (by decide)
    have hclassify : t.classify c.1.id = some ⟨7⟩ :=
      Tree.classify_of_isOf (by rw [Tree.typeOf?, hc.2.1, Option.map_some, htype']) hcategory
    refine .inr ⟨l, length, ⟨7⟩, hfirst, by rw [hsegment], hlength.symm, by omega, hcategory, ?_⟩
    refine hfirst.isLine.tokensAt_eq hc.2.1 hclassify ?_ (by omega)
    rw [hspan, hsegment, Segment.toSpan, hlength]

end Documents

/-- The lines that count as breaks; and each break of a document with its place, the furthest end of
all that conversion was done with before it. Breaks that are not empty come after all of that, on
lines of their own. -/
theorem convert_breaks (src : Source) (document : Node)
    (h : document.Everywhere (Node.InRange src.size)) :
    let t := (convert src document).1
    (∀ line, isThematicBreak line = true ↔ IsBreakLine line) ∧
    (nodeSteps src document).map Step.node? =
      (finishedAll (Node.convertsBelow src) document.children).map some ∧
    List.Forall₂ (fun v c => t.node? c.1.id = some c.1 ∧ c.1.span = v.piece.segment.toSpan ∧
      (v.IsBreak → BreakAt src t v.cursor c.1)) (nodeSteps src document) t.branches ∧
    ∀ before v after, courseOf src document = before ++ v :: after → v.IsBreak →
      v.cursor = furthest before ∧
      (v.start < v.stop → ∀ w ∈ before, w.stop ≤ v.start ∧
        (w.IsBreak → w.start < w.stop → src.lineNumber w.start < src.lineNumber v.start)) := by
  intro t
  have hleaves := (convert_steps src document).2
  refine ⟨isThematicBreak_iff, node?_nodeSteps src document, hleaves.imp fun v c hv => ?_, ?_⟩
  · exact ⟨hv.held.2.1, hv.held.span_eq.symm, fun hbreak => hbreak.breakAt hv.mem hv.held⟩
  · intro before v after hsteps hbreak
    have hmem : ∀ w ∈ before ++ [v], w ∈ courseOf src document := by
      intro w hw
      rw [hsteps, List.append_cons]
      exact List.mem_append_left after hw
    obtain ⟨n, hn, hkind⟩ := id hbreak
    have hclosed : n.convertsBelow src = false := by simp [Node.convertsBelow, hkind, Kind.isLeaf]
    obtain ⟨hcursor, hbefore⟩ := cursor_of_closed h hsteps hn hclosed
    refine ⟨hcursor, fun hne w hw => ?_⟩
    obtain ⟨l, hfirst, hstart⟩ := hbreak.firstBreak (hmem v (by simp)) hne
    have hafter : w.stop ≤ v.start := hstart ▸ Nat.le_trans (hbefore w hw) hfirst.le_start
    refine ⟨hafter, fun hwbreak hwne => ?_⟩
    obtain ⟨l', hfirst', hstart'⟩ := hwbreak.firstBreak (hmem w (List.mem_append_left _ hw)) hwne
    rw [hstart, hstart']
    exact hfirst'.isLine.lineNumber_lt hfirst.isLine (by omega)

def brokenSource : Source := (utf8 "a\n---\n * *\t*\r\n").toArray

/-- A paragraph and three breaks, for which there are two lines. -/
def brokenDocument : Node :=
  .mk .document []
    [.mk .paragraph [⟨0, 2⟩] [.text ⟨0, 1⟩], .leaf .thematicBreak, .leaf .thematicBreak,
      .leaf .thematicBreak]

/-- The last break is put at the end of the one before it. -/
theorem convert_breaks_two_lines :
    brokenDocument.Everywhere (Node.InRange brokenSource.size) ∧
    (let t := (convert brokenSource brokenDocument).1
     List.Forall₂ (fun v c => t.node? c.1.id = some c.1 ∧ c.1.span = v.piece.segment.toSpan ∧
        (v.IsBreak → BreakAt brokenSource t v.cursor c.1))
      (nodeSteps brokenSource brokenDocument) t.branches) ∧
    (nodeSteps brokenSource brokenDocument).map (fun v => (v.cursor, v.piece.segment)) =
      [(0, ⟨0, 1⟩), (0, ⟨0, 1⟩), (1, ⟨2, 5⟩), (5, ⟨6, 12⟩), (12, ⟨12, 12⟩)] := by
  have hrange : brokenDocument.Everywhere (Node.InRange brokenSource.size) := by
    simp only [brokenDocument, Node.text, Node.leaf, Node.everywhere_mk_iff, List.forall_mem_cons,
      List.not_mem_nil, IsEmpty.forall_iff, implies_true, and_true]
    and_intros
    all_goals
      constructor <;> simp +decide
  obtain ⟨-, -, hbreaks, -⟩ := convert_breaks brokenSource brokenDocument hrange
  exact ⟨hrange, hbreaks, by decide +kernel⟩

end Markdown

end DocTokens
