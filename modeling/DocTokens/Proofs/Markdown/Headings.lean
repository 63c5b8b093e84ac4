import DocTokens.Proofs.Markdown.Coverage
import DocTokens.Proofs.Markdown.SourceLines

/-! # Headings

A heading starts with the line of its first text. Its end is settled by the front of that line:
after at most three spaces, a number sign makes it end with the line of its last text, and anything
else with the line after that. This is right where the front of the line tells a heading with number
signs from an underlined one, which it does not do behind the marker of a quote or of a list item,
nor where the underlined text itself begins with a number sign.
-/

namespace DocTokens

namespace Source

variable {src : Source} {l : Segment}

/-- The last line of a range that ends in it or with its line feed. -/
theorem IsLine.lineEnd_trimNewline (h : src.IsLine l) {start stop : Nat} (hstart : start ≤ l.start)
    (hstop : l.start ≤ stop) (hle : stop ≤ l.stop + 1) (hsize : stop ≤ src.size)
    (hlt : l.start < stop ∨ start = l.start) :
    src.lineEnd (src.trimNewline start stop) = l.stop := by
  have hordered := h.ordered
  refine h.lineEnd_eq ?_
  unfold trimNewline trimReturn
  extract_lets a b
  have hb : l.Holds b := by
    by_cases hbreak : stop = l.stop + 1
    · have hat : src[l.stop]? = some newline := h.ends.resolve_left (by omega)
      have ha : a = l.stop + 1 := by omega
      have hcut : b = l.stop := by
        simp only [b, ha, Nat.add_sub_cancel]
        rw [if_pos]
        simp only [Bool.and_eq_true, decide_eq_true_eq]
        exact ⟨by omega, at?_beq_iff.mpr hat⟩
      exact hcut ▸ h.holds_stop
    · -- nothing is cut off: a line feed before the end would stand inside of the line
      have ha : l.start ≤ a ∧ a ≤ l.stop := by omega
      have hkept : b = a := by
        simp only [b]
        rw [if_neg]
        simp only [Bool.and_eq_true, decide_eq_true_eq, not_and]
        intro hlt' hat
        exact h.unbroken (a - 1) (by omega) (by omega) (at?_beq_iff.mp hat)
      exact hkept ▸ ⟨ha.1, ha.2⟩
  split
  · rename_i hreturn
    simp only [Bool.and_eq_true, decide_eq_true_eq] at hreturn
    have hne : b ≠ l.start := by
      rintro hb'
      have hat := at?_beq_iff.mp hreturn.2
      rcases h.starts with hzero | hbreak
      · omega
      · rw [hb', hbreak] at hat
        cases hat
    exact ⟨by have := hb.start_le; omega, by have := hb.le_stop; omega⟩
  · exact hb

/-- At most three spaces and a number sign stand at an offset. -/
def FrontSign (src : Source) (pos : Nat) : Prop :=
  ∃ n ≤ 3, (∀ i < n, src[pos + i]? = some (ascii ' ')) ∧ src[pos + n]? = some (ascii '#')

/-- A run of exactly `level` number signs and then blanks stand right before an offset. -/
def SignsBefore (src : Source) (level pos : Nat) : Prop :=
  ∃ start blanks, start + level + blanks = pos ∧ 0 < blanks ∧
    (start = 0 ∨ src[start - 1]? ≠ some (ascii '#')) ∧
    (∀ i < level, src[start + i]? = some (ascii '#')) ∧
    ∀ i < blanks, src[start + level + i]? = some (ascii ' ') ∨
      src[start + level + i]? = some (ascii '\t')

end Source

namespace Markdown

variable {src : Source} {n : Node} {top bottom : Segment}

theorem isAtxLine_iff {pos : Nat} : isAtxLine src pos = true ↔ src.FrontSign pos := by
  rw [isAtxLine, Source.at?_beq_iff]
  constructor
  · intro hsign
    obtain ⟨hlimit, hcrossed⟩ := src.forward_spec isSpaceByte 3 pos
    have hle := src.le_forward isSpaceByte 3 pos
    refine ⟨src.forward isSpaceByte 3 pos - pos, by omega, fun i hi => ?_, ?_⟩
    · exact Source.at?_beq_iff.mp (hcrossed (pos + i) (by omega) (by omega))
    · rwa [Nat.add_sub_cancel' hle]
  · rintro ⟨n, hn, hspaces, hsign⟩
    have hstop : src.at? (pos + n) isSpaceByte = false := by
      simp only [Source.at?, hsign]
      decide
    have hforward : src.forward isSpaceByte 3 pos = pos + n :=
      Source.forward_eq hn (fun i hi => Source.at?_beq_iff.mpr (hspaces i hi)) hstop
    rwa [hforward]

namespace Node

/-- The text of a block stands on the lines from `top` to `bottom`. Its last segment may end with
the line feed of its line; it may be empty only where there is no other line. -/
structure TextOn (src : Source) (n : Node) (top bottom : Segment) : Prop where
  top_line : src.IsLine top
  bottom_line : src.IsLine bottom
  ordered : top.start ≤ bottom.start
  first : ∃ s, n.lines.head? = some s ∧ top.Holds s.start
  last : ∃ s, n.lines.getLast? = some s ∧ s.Within src.size ∧ bottom.Holds s.start ∧
    s.stop ≤ bottom.stop + 1 ∧ (s.start < s.stop ∨ top = bottom)

/-- The one line of text of the node stands behind as many number signs as its level says. -/
def IsAtx (src : Source) (level : Nat) (n : Node) : Prop :=
  ∃ s, n.lines = [s] ∧ src.SignsBefore level s.start

/-- The heading ends as it is written: with its own line if it has number signs, else with the line
under its text. -/
structure EndsAsWritten (src : Source) (level : Nat) (n : Node) (bottom : Segment) (stop : Int) :
    Prop where
  signs : n.IsAtx src level → stop = bottom.stop
  underlined : ¬ n.IsAtx src level →
    ∀ next, src.IsLine next → next.start = bottom.stop + 1 → stop = next.stop

/-- The heading ends as the front of its first line says. -/
structure EndsByFront (src : Source) (top bottom : Segment) (stop : Int) : Prop where
  sign : src.FrontSign top.start → stop = bottom.stop
  other : ¬ src.FrontSign top.start →
    ∀ next, src.IsLine next → next.start = bottom.stop + 1 → stop = next.stop
  last : bottom.stop = src.size → stop = bottom.stop

/-- Where there is a line to lose or to take, the front of the line is right only if it tells the
two sorts of headings apart. -/
theorem EndsByFront.endsAsWritten_iff {level : Nat} {stop : Int}
    (h : EndsByFront src top bottom stop) (hbottom : src.IsLine bottom) :
    n.EndsAsWritten src level bottom stop ↔
      (src.FrontSign top.start ↔ n.IsAtx src level) ∨ bottom.stop = src.size := by
  constructor
  · intro hwritten
    rcases Nat.eq_or_lt_of_le hbottom.stop_le with hlast | hlt
    · exact .inr hlast
    · -- the next line ends after this one, so the two ends differ
      have hnext := hbottom.isLine_next hlt
      have hlater := hnext.ordered
      simp only at hlater
      refine .inl ⟨fun hsign => ?_, fun hatx => ?_⟩
      · by_contra hatx
        have hshort := h.sign hsign
        have hlong := hwritten.underlined hatx _ hnext rfl
        simp only at hlong
        omega
      · by_contra hsign
        have hshort := hwritten.signs hatx
        have hlong := h.other hsign _ hnext rfl
        simp only at hlong
        omega
  · rintro (hfront | hlast)
    · exact ⟨fun hatx => h.sign (hfront.mpr hatx),
        fun hatx => h.other fun hs => hatx (hfront.mp hs)⟩
    · refine ⟨fun _ => h.last hlast, fun _ next hnext hstart => ?_⟩
      have := hnext.ordered
      have := hnext.stop_le
      omega

/-- The lines of a text as one range. -/
theorem TextOn.firstToLast? (h : n.TextOn src top bottom) :
    ∃ s, Markdown.firstToLast? n.lines = some s ∧ src.lineStart s.start = top.start ∧
      src.lineEnd (src.trimNewline top.start s.stop) = bottom.stop := by
  obtain ⟨first, hfirst, htop⟩ := h.first
  obtain ⟨last, hlast, hwithin, hbottom, hle, hempty⟩ := h.last
  have hstart := hbottom.start_le
  refine ⟨⟨first.start, last.stop⟩, ?_, h.top_line.lineStart_eq htop, ?_⟩
  · simp only [Markdown.firstToLast?, hfirst, hlast]
  · refine h.bottom_line.lineEnd_trimNewline h.ordered (Nat.le_trans hstart hwithin.ordered) hle
      hwithin.stop_le ?_
    rcases hempty with hlt | heq
    · exact .inl (Nat.lt_of_le_of_lt hstart hlt)
    · exact .inr (congrArg Segment.start heq)

/-- A heading is put where its text starts, and ends by the front of its first line. -/
theorem TextOn.segment_eq (h : n.TextOn src top bottom) {level : Nat} (hk : n.kind = .heading level)
    (marker : Option UInt8) (cursor : Nat) : ∀ p ∈ (convertNode src marker n cursor).piece,
      p.segment.start = top.start ∧ EndsByFront src top bottom p.segment.stop := by
  obtain ⟨s, hs, hstart, hstop⟩ := h.firstToLast?
  have hbottom := h.bottom_line.stop_le
  cases n with
  | mk kind lines children =>
    obtain rfl : kind = .heading level := hk
    rw [convertNode_of_ne (by simp), convertKind]
    simp only [Node.kind, Node.lines, heading] at hs ⊢
    rw [hs]
    simp only [hstart, hstop]
    rintro p ⟨⟩
    refine ⟨rfl, ?_⟩
    by_cases hfront : src.FrontSign top.start
    · have hsign := isAtxLine_iff.mpr hfront
      simp only [hsign, Bool.not_true, Bool.false_and, Bool.false_eq_true, if_false]
      exact ⟨fun _ => rfl, fun hno => absurd hfront hno, fun _ => rfl⟩
    · have hsign : isAtxLine src top.start = false := by
        rw [← Bool.not_eq_true, isAtxLine_iff]
        exact hfront
      simp only [hsign, Bool.not_false, Bool.true_and, decide_eq_true_eq]
      refine ⟨fun hyes => absurd hyes hfront, fun _ next hnext hafter => ?_, fun hlast => ?_⟩
      · have := hnext.ordered
        have := hnext.stop_le
        rw [if_pos (by omega), ← hafter, hnext.lineEnd_eq hnext.holds_start]
      · rw [if_neg (by omega)]

end Node

/-- A heading starts with the line of its first text and ends by the front of that line. So it ends
as it is written exactly where the front tells whether it has number signs, or at the last line. -/
theorem convert_heading_ends (src : Source) (document : Node) :
    let t := (convert src document).1
    List.Forall₂ (fun n c => ∀ level top bottom, n.kind = .heading level →
        n.TextOn src top bottom →
        c.1.type = .heading ∧ c.1.span.start = top.start ∧
        Node.EndsByFront src top bottom c.1.span.stop ∧
        (n.EndsAsWritten src level bottom c.1.span.stop ↔
          (src.FrontSign top.start ↔ n.IsAtx src level) ∨ bottom.stop = src.size))
      (finishedAll (Node.convertsBelow src) document.children) t.branches := by
  intro t
  refine (convert_counterparts src document).1.imp ?_
  intro n c hcounterpart level top bottom hk htext
  have htype := hcounterpart.type_eq
  obtain ⟨b, ⟨marker, cursor, p, hpiece, rfl⟩, hholds⟩ := hcounterpart
  obtain ⟨hstart, hends⟩ := htext.segment_eq hk marker cursor p hpiece
  rw [hk] at htype
  rw [← hholds.span_eq]
  refine ⟨htype, congrArg Int.ofNat hstart, hends, hends.endsAsWritten_iff htext.bottom_line⟩

def underlinedSource : Source := (utf8 "b\r\nc\n==\nd\n").toArray

/-- A heading of two lines ends with the line under them. -/
theorem convert_heading_ends_underlined :
    ∃ n c, (n, c) ∈ counterparts underlinedSource (parse underlinedSource) ∧
      n.kind = .heading 1 ∧ n.TextOn underlinedSource ⟨0, 2⟩ ⟨3, 4⟩ ∧
      c.1.type = .heading ∧ c.1.span = ⟨0, 7⟩ ∧
      Node.EndsByFront underlinedSource ⟨0, 2⟩ ⟨3, 4⟩ c.1.span.stop ∧
      n.EndsAsWritten underlinedSource 1 ⟨3, 4⟩ c.1.span.stop := by
  obtain ⟨n, c, hmem, hkind, hlines, hspan⟩ : ∃ n c,
      (n, c) ∈ counterparts underlinedSource (parse underlinedSource) ∧ n.kind = .heading 1 ∧
        n.lines = [⟨0, 3⟩, ⟨3, 4⟩] ∧ c.1.span = ⟨0, 7⟩ := exists_counterpart 2 (by decide +kernel)
  have htext : n.TextOn underlinedSource ⟨0, 2⟩ ⟨3, 4⟩ := by
    refine ⟨by decide +kernel, by decide +kernel, by decide, ?_, ?_⟩
    · exact ⟨⟨0, 3⟩, by rw [hlines]; rfl, by decide⟩
    · exact ⟨⟨3, 4⟩, by rw [hlines]; rfl, by decide +kernel, by decide, by decide, .inl (by decide)⟩
  have hfront : ¬ underlinedSource.FrontSign 0 := by
    rw [← isAtxLine_iff]
    decide +kernel
  have hatx : ¬ n.IsAtx underlinedSource 1 := by
    rintro ⟨s, hs, -⟩
    rw [hlines] at hs
    cases hs
  obtain ⟨htype, -, hends, hwritten⟩ :=
    (List.forall₂_iff_zip.mp (convert_heading_ends underlinedSource (parse underlinedSource))).2
      hmem 1 ⟨0, 2⟩ ⟨3, 4⟩ hkind htext
  exact ⟨n, c, hmem, hkind, htext, htype, hspan, hends,
    hwritten.mpr (.inl ⟨fun h => absurd h hfront, fun h => absurd h hatx⟩)⟩

/-- A text of one segment stands on the line that holds it. -/
theorem Node.textOn_singleton {s l : Segment} (hlines : n.lines = [s]) (hl : src.IsLine l)
    (hs : s.Within src.size) (hstart : l.Holds s.start) (hstop : s.stop ≤ l.stop + 1) :
    n.TextOn src l l where
  top_line := hl
  bottom_line := hl
  ordered := Nat.le_refl _
  first := ⟨s, by rw [hlines]; rfl, hstart⟩
  last := ⟨s, by rw [hlines]; rfl, hs, hstart, hstop, .inr rfl⟩

def quotedSignSource : Source := (utf8 "> # a\nb\n").toArray

def signTextSource : Source := (utf8 "#a\n==\n").toArray

/-- Behind the marker of a quote, a heading with a number sign takes the next line, which is none of
it; and a text that begins with a number sign loses the line under it. -/
theorem heading_ends_elsewhere :
    (∃ n c, (n, c) ∈ counterparts quotedSignSource (parse quotedSignSource) ∧
      n.kind = .heading 1 ∧ n.TextOn quotedSignSource ⟨0, 5⟩ ⟨0, 5⟩ ∧
      n.IsAtx quotedSignSource 1 ∧ c.1.span = ⟨0, 7⟩ ∧
      ¬ n.EndsAsWritten quotedSignSource 1 ⟨0, 5⟩ c.1.span.stop) ∧
    ∃ n c, (n, c) ∈ counterparts signTextSource (parse signTextSource) ∧
      n.kind = .heading 1 ∧ n.TextOn signTextSource ⟨0, 2⟩ ⟨0, 2⟩ ∧
      ¬ n.IsAtx signTextSource 1 ∧ c.1.span = ⟨0, 2⟩ ∧
      ¬ n.EndsAsWritten signTextSource 1 ⟨0, 2⟩ c.1.span.stop := by
  constructor
  · obtain ⟨n, c, hmem, hkind, hlines, hspan⟩ : ∃ n c,
        (n, c) ∈ counterparts quotedSignSource (parse quotedSignSource) ∧ n.kind = .heading 1 ∧
          n.lines = [⟨4, 5⟩] ∧ c.1.span = ⟨0, 7⟩ := exists_counterpart 1 (by decide +kernel)
    have hatx : n.IsAtx quotedSignSource 1 :=
      ⟨⟨4, 5⟩, hlines, 2, 1, rfl, by decide, by decide +kernel, by decide +kernel,
        by decide +kernel⟩
    refine ⟨n, c, hmem, hkind, Node.textOn_singleton hlines (by decide +kernel) (by decide +kernel)
      (by decide) (by decide), hatx, hspan, fun hwritten => ?_⟩
    have hstop := hwritten.signs hatx
    rw [hspan] at hstop
    cases hstop
  · obtain ⟨n, c, hmem, hkind, hlines, hspan⟩ : ∃ n c,
        (n, c) ∈ counterparts signTextSource (parse signTextSource) ∧ n.kind = .heading 1 ∧
          n.lines = [⟨0, 2⟩] ∧ c.1.span = ⟨0, 2⟩ := exists_counterpart 1 (by decide +kernel)
    have hatx : ¬ n.IsAtx signTextSource 1 := by
      rintro ⟨s, hs, start, blanks, hsum, hblanks, -⟩
      rw [hlines] at hs
      cases hs
      simp only at hsum
      omega
    refine ⟨n, c, hmem, hkind, Node.textOn_singleton hlines (by decide +kernel) (by decide +kernel)
      (by decide) (by decide), hatx, hspan, fun hwritten => ?_⟩
    have hstop := hwritten.underlined hatx ⟨3, 5⟩ (by decide +kernel) rfl
    rw [hspan] at hstop
    cases hstop

end Markdown

end DocTokens
