import DocTokens.Proofs.ForestTokens
import DocTokens.Proofs.Markdown.Coverage
import DocTokens.Proofs.Positions

/-! # The lines of a source

A line runs from the start of the source or a line feed to the next line feed or the end. An offset
stands in one line only, and `lineStart` and `lineEnd` are the ends of that line, which is also the
one that an index of the lines of the text gives.
-/

namespace DocTokens

/-- The offset stands in the segment or at its end. -/
structure Segment.Holds (s : Segment) (p : Nat) : Prop where
  start_le : s.start ≤ p
  le_stop : p ≤ s.stop

instance (s : Segment) (p : Nat) : Decidable (s.Holds p) :=
  decidable_of_iff (s.start ≤ p ∧ p ≤ s.stop) ⟨fun h => ⟨h.1, h.2⟩, fun h => ⟨h.1, h.2⟩⟩

namespace Source

/-- The segment is a whole line of the source, without its line feed. -/
structure IsLine (src : Source) (l : Segment) : Prop where
  ordered : l.start ≤ l.stop
  stop_le : l.stop ≤ src.size
  starts : l.start = 0 ∨ src[l.start - 1]? = some newline
  ends : l.stop = src.size ∨ src[l.stop]? = some newline
  unbroken : ∀ i, l.start ≤ i → i < l.stop → src[i]? ≠ some newline

/-- The line that holds an offset. -/
def lineOf (src : Source) (p : Nat) : Segment := ⟨src.lineStart p, src.lineEnd p⟩

/-- The number of lines before the line that holds an offset. -/
def lineNumber (src : Source) (p : Nat) : Nat := (src.toList.take p).count newline

variable {src : Source} {l l' : Segment} {p pos : Nat}

/-! ## One line for each offset -/

namespace IsLine

theorem holds_start (h : src.IsLine l) : l.Holds l.start := ⟨Nat.le_refl _, h.ordered⟩

theorem holds_stop (h : src.IsLine l) : l.Holds l.stop := ⟨h.ordered, Nat.le_refl _⟩

theorem start_le (h : src.IsLine l) (h' : src.IsLine l') (hp : l.Holds p) (hp' : l'.Holds p) :
    l'.start ≤ l.start := by
  by_contra hlt
  rcases h'.starts with hzero | hbreak
  · omega
  · have := hp.le_stop
    have := hp'.start_le
    exact h.unbroken (l'.start - 1) (by omega) (by omega) hbreak

theorem le_stop (h : src.IsLine l) (h' : src.IsLine l') (hp : l.Holds p) (hp' : l'.Holds p) :
    l.stop ≤ l'.stop := by
  by_contra hlt
  rcases h'.ends with hsize | hbreak
  · have := h.stop_le
    omega
  · have := hp.start_le
    have := hp'.le_stop
    exact h.unbroken l'.stop (by omega) (by omega) hbreak

theorem eq_of_holds (h : src.IsLine l) (h' : src.IsLine l') (hp : l.Holds p) (hp' : l'.Holds p) :
    l = l' := by
  have hstart := Nat.le_antisymm (h'.start_le h hp' hp) (h.start_le h' hp hp')
  have hstop := Nat.le_antisymm (h.le_stop h' hp hp') (h'.le_stop h hp' hp)
  cases l
  cases l'
  simp_all

/-- A line that starts later starts after the end of the other. -/
theorem stop_lt_start (h : src.IsLine l) (h' : src.IsLine l') (hlt : l.start < l'.start) :
    l.stop < l'.start := by
  by_contra hle
  have heq := h.eq_of_holds h' ⟨Nat.le_of_lt hlt, by omega⟩ h'.holds_start
  rw [heq] at hlt
  exact Nat.lt_irrefl _ hlt

end IsLine

/-! ## The ends of a line -/

theorem lineStartFrom_spec (src : Source) (p : Nat) :
    (src.lineStartFrom p = 0 ∨ src[src.lineStartFrom p - 1]? = some newline) ∧
      ∀ i, src.lineStartFrom p ≤ i → i < p → src[i]? ≠ some newline := by
  induction p with
  | zero => exact ⟨.inl rfl, fun i _ hlt => absurd hlt (Nat.not_lt_zero i)⟩
  | succ p ih =>
    rw [lineStartFrom]
    split
    · rename_i hbreak
      exact ⟨.inr hbreak, fun i hle hlt => by omega⟩
    · rename_i hbyte
      obtain ⟨hstart, hunbroken⟩ := ih
      refine ⟨hstart, fun i hle hlt => ?_⟩
      by_cases hi : i = p
      · exact hi ▸ hbyte
      · exact hunbroken i hle (by omega)

theorem lineEndFrom_spec (src : Source) (fuel p : Nat) :
    (src.lineEndFrom fuel p = p + fuel ∨ src[src.lineEndFrom fuel p]? = some newline) ∧
      ∀ i, p ≤ i → i < src.lineEndFrom fuel p → src[i]? ≠ some newline := by
  induction fuel generalizing p with
  | zero => exact ⟨.inl rfl, fun i hle hlt => absurd hle (Nat.not_le.mpr hlt)⟩
  | succ fuel ih =>
    rw [lineEndFrom]
    split
    · rename_i hbreak
      exact ⟨.inr hbreak, fun i hle hlt => by omega⟩
    · rename_i hbyte
      obtain ⟨hend, hunbroken⟩ := ih (p + 1)
      refine ⟨hend.imp_left fun h => by omega, fun i hle hlt => ?_⟩
      by_cases hi : i = p
      · exact hi ▸ hbyte
      · exact hunbroken i (by omega) hlt

theorem lineEnd_spec (h : pos ≤ src.size) :
    (src.lineEnd pos = src.size ∨ src[src.lineEnd pos]? = some newline) ∧
      ∀ i, pos ≤ i → i < src.lineEnd pos → src[i]? ≠ some newline := by
  obtain ⟨hend, hunbroken⟩ := src.lineEndFrom_spec (src.size - pos) pos
  unfold lineEnd
  split
  · exact ⟨hend.imp_left fun h => by omega, hunbroken⟩
  · exact ⟨.inl rfl, fun i hle hlt => by omega⟩

theorem holds_lineOf (h : pos ≤ src.size) : (src.lineOf pos).Holds pos :=
  ⟨src.lineStart_le pos, le_lineEnd h⟩

/-- Past the end there is only the last line. -/
theorem lineOf_min (src : Source) (p : Nat) : src.lineOf (min p src.size) = src.lineOf p := by
  rcases Nat.le_total p src.size with hle | hge
  · rw [Nat.min_eq_left hle]
  · rw [Nat.min_eq_right hge, lineOf, lineOf, lineStart, lineStart, lineEnd, lineEnd,
      if_neg (Nat.lt_irrefl _), if_neg (Nat.not_lt.mpr hge), Nat.min_self, Nat.min_eq_right hge]

theorem isLine_lineOf (src : Source) (p : Nat) : src.IsLine (src.lineOf p) := by
  rw [← lineOf_min]
  have hle : min p src.size ≤ src.size := Nat.min_le_right _ _
  obtain ⟨hstart, hfront⟩ := src.lineStartFrom_spec (min (min p src.size) src.size)
  obtain ⟨hend, hback⟩ := lineEnd_spec hle
  refine ⟨Nat.le_trans (src.lineStart_le _) (le_lineEnd hle), src.lineEnd_le_size _, hstart, hend,
    fun i hi hlt => ?_⟩
  rcases Nat.lt_or_ge i (min p src.size) with hbefore | hafter
  · exact hfront i hi (by omega)
  · exact hback i hafter hlt

theorem IsLine.lineOf_eq (h : src.IsLine l) (hp : l.Holds p) : src.lineOf p = l := by
  have hsize : p ≤ src.size := Nat.le_trans hp.le_stop h.stop_le
  exact (src.isLine_lineOf p).eq_of_holds h (holds_lineOf hsize) hp

theorem IsLine.lineStart_eq (h : src.IsLine l) (hp : l.Holds p) : src.lineStart p = l.start :=
  congrArg Segment.start (h.lineOf_eq hp)

theorem IsLine.lineEnd_eq (h : src.IsLine l) (hp : l.Holds p) : src.lineEnd p = l.stop :=
  congrArg Segment.stop (h.lineOf_eq hp)

instance (src : Source) (l : Segment) : Decidable (src.IsLine l) :=
  decidable_of_iff (l.start ≤ src.size ∧ src.lineOf l.start = l)
    ⟨fun h => h.2 ▸ src.isLine_lineOf l.start, fun h =>
      ⟨Nat.le_trans h.ordered h.stop_le, h.lineOf_eq h.holds_start⟩⟩

/-- The line after another one starts behind its line feed. -/
theorem IsLine.isLine_next (h : src.IsLine l) (hlt : l.stop < src.size) :
    src.IsLine ⟨l.stop + 1, src.lineEnd (l.stop + 1)⟩ := by
  have hbreak : src[l.stop]? = some newline := h.ends.resolve_left (Nat.ne_of_lt hlt)
  obtain ⟨hend, hunbroken⟩ := lineEnd_spec (Nat.succ_le_of_lt hlt)
  exact ⟨le_lineEnd (Nat.succ_le_of_lt hlt), src.lineEnd_le_size _, .inr hbreak, hend, hunbroken⟩

/-! ## Lines by their numbers -/

section Numbers

variable {before after : List Bytes} {line : Bytes} {o c : Nat}

/-- The line on which an index puts an offset. -/
theorem isLine_of_lineAt
    (h : LineAt (Bytes.splitAt newline src.toList) o before line after c) :
    src.IsLine ⟨o - c, o - c + line.length⟩ := by
  have hoffset := h.offset_eq
  have hcolumn := h.column_le
  have hstart : LineAt (Bytes.splitAt newline src.toList) (o - c) before line after 0 :=
    ⟨h.lines_eq, Nat.zero_le _, by omega⟩
  have hend : LineAt (Bytes.splitAt newline src.toList) (o - c + line.length) before line after
      line.length := ⟨h.lines_eq, Nat.le_refl _, by omega⟩
  have hle := hend.offset_le
  rw [Bytes.intercalate_splitAt, Array.length_toList] at hle
  refine ⟨Nat.le_add_right _ _, hle, ?_, ?_, fun i hi hlt => ?_⟩
  · rcases List.eq_nil_or_concat before with rfl | ⟨front, last, rfl⟩
    · exact .inl hstart.offset_eq
    · have hlength := hstart.offset_eq
      rw [List.concat_eq_append, terminated_append, terminated_cons, terminated_nil,
        List.length_append, List.length_append, List.length_singleton] at hlength
      have hlast : LineAt (Bytes.splitAt newline src.toList) (o - c - 1) front last (line :: after)
          last.length := ⟨by simp [h.lines_eq], Nat.le_refl _, by omega⟩
      have hbreak := hlast.getElem?_of_eq rfl
      rw [Bytes.intercalate_splitAt, Array.getElem?_toList] at hbreak
      exact .inr hbreak
  · cases after with
    | nil =>
      have htext := congrArg List.length hend.text_eq
      rw [Bytes.intercalate_splitAt, Array.length_toList, lineTail, List.append_nil,
        List.length_append] at htext
      exact .inl (hend.offset_eq.trans htext.symm)
    | cons next after =>
      have hbreak := hend.getElem?_of_eq rfl
      rw [Bytes.intercalate_splitAt, Array.getElem?_toList] at hbreak
      exact .inr hbreak
  · have hbyte := LineRange.Tiles.not_newline hstart (n := line.length) (by omega) hi hlt
    rwa [Array.getElem?_toList] at hbyte

/-- A line is one of the lines of the text, with its number of lines before it. -/
theorem IsLine.lineAt (h : src.IsLine l) :
    ∃ before line after, LineAt (Bytes.splitAt newline src.toList) l.start before line after 0 ∧
      before.length = src.lineNumber l.start ∧ line.length = l.stop - l.start := by
  have hle : l.start ≤ src.toList.length := by
    rw [Array.length_toList]
    exact Nat.le_trans h.ordered h.stop_le
  obtain ⟨before, line, after, c, hat⟩ := LineIndex.exists_lineAt hle
  have hcolumn := hat.column_le
  have hoffset := hat.offset_eq
  have heq := h.eq_of_holds (isLine_of_lineAt hat) h.holds_start
    ⟨Nat.sub_le _ _, by simp only; omega⟩
  have hstart : l.start = l.start - c := congrArg Segment.start heq
  have hstop : l.stop = l.start - c + line.length := congrArg Segment.stop heq
  obtain rfl : c = 0 := by omega
  refine ⟨before, line, after, hat, ?_, by omega⟩
  obtain ⟨hbefore, -⟩ := LineIndex.not_newline_of_lineAt hat
  rw [lineNumber, LineIndex.take_of_lineAt hat, List.take_zero, List.append_nil,
    count_terminated hbefore]

theorem IsLine.lineNumber_lt (h : src.IsLine l) (h' : src.IsLine l') (hlt : l.start < l'.start) :
    src.lineNumber l.start < src.lineNumber l'.start := by
  obtain ⟨before, line, after, hat, hbefore, -⟩ := h.lineAt
  obtain ⟨before', line', after', hat', hbefore', -⟩ := h'.lineAt
  rw [← hbefore, ← hbefore']
  rcases Nat.lt_trichotomy before.length before'.length with hcount | hcount | hcount
  · exact hcount
  · have := hat.column_of_length_eq hat' hcount
    omega
  · have := hat'.lt_of_length_lt hat hcount
    omega

/-- The front of a line is one range. -/
theorem IsLine.pieces_eq (h : src.IsLine l) {n : Nat} (hn : l.start + n ≤ l.stop) :
    (LineIndex.ofBytes src.toList).pieces ⟨l.start, (l.start + n : Nat)⟩ =
      [⟨src.lineNumber l.start, 0, n⟩] := by
  obtain ⟨before, line, after, hat, hbefore, hlength⟩ := h.lineAt
  rw [LineIndex.pieces_of_lineAt hat (by omega), hbefore]
  rfl

/-- A node over the front of a line has one token. -/
theorem IsLine.tokensAt_eq (h : src.IsLine l) {t : Tree} {m : Node} {category : Category} {n : Nat}
    (hm : t.node? m.id = some m) (hc : t.classify m.id = some category)
    (hspan : m.span = ⟨l.start, (l.start + n : Nat)⟩) (hn : l.start + n ≤ l.stop) :
    t.tokensAt (.ofBytes src.toList) m.id = .ok [⟨src.lineNumber l.start, 0, n, category⟩] := by
  have hfits : m.span.Fits src.toList.length := by
    have := h.stop_le
    rw [hspan, Array.length_toList]
    exact ⟨by simp only; omega, by simp only; omega, by simp only; omega⟩
  rw [Tree.tokensAt_of_not_offends hm fun hoff => hoff.2 hfits, Tree.tokensOf, hc, hspan]
  dsimp only
  rw [h.pieces_eq hn]
  rfl

end Numbers

/-! ## Bytes on a line -/

section Bytes

variable {f : UInt8 → Bool} {n limit : Nat}

/-- A move forward ends before the first byte that does not satisfy the predicate. -/
theorem forward_eq (hn : n ≤ limit) (h : ∀ i < n, src.at? (pos + i) f = true)
    (hstop : src.at? (pos + n) f = false) : src.forward f limit pos = pos + n := by
  induction n generalizing pos limit with
  | zero =>
    rw [Nat.add_zero] at hstop ⊢
    cases limit with
    | zero => rfl
    | succ limit => rw [forward, if_neg (by simp [hstop])]
  | succ n ih =>
    cases limit with
    | zero => omega
    | succ limit =>
      have hfirst : src.at? pos f = true := h 0 (Nat.succ_pos n)
      have hshift : ∀ i, pos + 1 + i = pos + (i + 1) := fun i => by omega
      rw [forward, if_pos hfirst, ih (Nat.le_of_succ_le_succ hn), hshift]
      · intro i hi
        rw [hshift]
        exact h (i + 1) (Nat.succ_lt_succ hi)
      · rw [hshift]
        exact hstop

theorem at?_eq_true_iff : src.at? pos f = true ↔ ∃ b, src[pos]? = some b ∧ f b = true := by
  refine ⟨exists_of_at?, ?_⟩
  rintro ⟨b, hb, hp⟩
  rw [at?, hb]
  exact hp

theorem at?_beq_iff {b : UInt8} : src.at? pos (· == b) = true ↔ src[pos]? = some b := by
  rw [at?_eq_true_iff]
  simp

end Bytes

end Source

end DocTokens
