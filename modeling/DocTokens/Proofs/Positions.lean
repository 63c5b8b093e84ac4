import DocTokens.Proofs.Lines
import Mathlib.Data.List.DropRight

/-! # Positions of offsets

The line of an offset counts the line feeds before it, and its column the bytes after the last of
them. Offsets and the positions inside of a text are therefore the same thing in other coordinates,
and in the same order.
-/

namespace DocTokens

namespace LineAt

variable {lines before before' after after' : List Bytes} {line line' : Bytes} {o o' c c' : Nat}

/-- An offset on an earlier line is smaller. -/
theorem lt_of_length_lt (h : LineAt lines o before line after c)
    (h' : LineAt lines o' before' line' after' c') (hlt : before.length < before'.length) :
    o < o' := by
  obtain ⟨front, rfl, _⟩ | ⟨front, rfl, _⟩ :=
    List.append_eq_append_iff.mp (h.lines_eq.symm.trans h'.lines_eq)
  · cases front with
    | nil => simp at hlt
    | cons first front =>
      obtain ⟨rfl, _⟩ := List.cons.inj ‹line :: after = _›
      have hc := h.column_le
      have ho := h.offset_eq
      have ho' := h'.offset_eq
      simp only [terminated_append, terminated_cons, List.length_append, List.length_cons] at ho'
      omega
  · rw [List.length_append] at hlt
    omega

/-- Offsets on the same line differ by their columns. -/
theorem column_of_length_eq (h : LineAt lines o before line after c)
    (h' : LineAt lines o' before' line' after' c') (heq : before.length = before'.length) :
    o + c' = o' + c := by
  obtain ⟨rfl, _⟩ := List.append_inj (h.lines_eq.symm.trans h'.lines_eq) heq
  have ho := h.offset_eq
  have ho' := h'.offset_eq
  omega

end LineAt

theorem count_terminated {lines : List Bytes} (h : ∀ line ∈ lines, newline ∉ line) :
    (terminated lines).count newline = lines.length := by
  induction lines with
  | nil => rfl
  | cons line lines ih =>
    obtain ⟨hline, hlines⟩ := List.forall_mem_cons.mp h
    rw [terminated_cons, List.count_append, List.count_eq_zero_of_not_mem hline,
      List.count_cons_self, ih hlines, List.length_cons, Nat.zero_add]

/-- After some lines, what stands behind the last line feed is the beginning of the next line. -/
theorem rtakeWhile_terminated (lines : List Bytes) {rest : Bytes} (h : newline ∉ rest) :
    (terminated lines ++ rest).rtakeWhile (· ≠ newline) = rest := by
  have hall : rest.reverse.takeWhile (· ≠ newline) = rest.reverse :=
    List.takeWhile_eq_self_iff.mpr fun b hb => by
      simpa using fun he : b = newline => h (he ▸ List.mem_reverse.mp hb)
  rcases List.eq_nil_or_concat lines with rfl | ⟨front, last, rfl⟩
  · rw [terminated_nil, List.nil_append, List.rtakeWhile, hall, List.reverse_reverse]
  · have hlast : (terminated (front.concat last) ++ rest).reverse =
        rest.reverse ++ newline :: (last.reverse ++ (terminated front).reverse) := by simp
    rw [List.rtakeWhile, hlast, List.takeWhile_append, hall, if_pos rfl]
    simp

namespace LineIndex

variable {text : Bytes} {before after : List Bytes} {line : Bytes} {o c : Nat} {p : Position}

/-- A position stands at a byte of a line of the text or just behind it. -/
structure Holds (idx : LineIndex) (p : Position) : Prop where
  one_le_line : 1 ≤ p.line
  line_le : p.line ≤ idx.count
  one_le_column : 1 ≤ p.column
  column_le : ∃ line, idx.line (p.line - 1) = .ok line ∧ p.column ≤ line.length + 1

/-- The offset of a position. -/
def offsetOf (idx : LineIndex) (p : Position) : Nat :=
  idx.lineStart (p.line - 1).toNat + (p.column - 1).toNat

theorem not_newline_of_lineAt (h : LineAt (Bytes.splitAt newline text) o before line after c) :
    (∀ l ∈ before, newline ∉ l) ∧ newline ∉ line := by
  have hlines : ∀ l ∈ before ++ line :: after, newline ∉ l := by
    rw [← h.lines_eq]
    exact fun l hl => Bytes.not_mem_of_mem_splitAt hl
  exact ⟨fun l hl => hlines l (List.mem_append_left _ hl),
    hlines line (List.mem_append_right _ List.mem_cons_self)⟩

/-- The text up to an offset: the lines before it and the beginning of its own. -/
theorem take_of_lineAt (h : LineAt (Bytes.splitAt newline text) o before line after c) :
    text.take o = terminated before ++ line.take c := by
  have htext := h.text_eq
  rw [Bytes.intercalate_splitAt] at htext
  rw [htext, h.offset_eq, List.take_length_add_append, List.take_append_of_le_length h.column_le]

theorem locate_eq_ok_iff :
    (ofBytes text).locate o = .ok p ↔ ∃ before line after c,
      LineAt (Bytes.splitAt newline text) o before line after c ∧
        p = ⟨(before.length + 1 : Nat), c + 1⟩ := by
  constructor
  · intro h
    have hle : o ≤ text.length := by
      unfold locate at h
      split at h
      · cases h
      · rw [ofBytes_size] at *
        omega
    obtain ⟨before, line, after, c, hat⟩ := exists_lineAt hle
    rw [locate_of_lineAt hat] at h
    exact ⟨before, line, after, c, hat, (Except.ok.inj h).symm⟩
  · rintro ⟨before, line, after, c, hat, rfl⟩
    exact locate_of_lineAt hat

theorem exists_of_locate {o : Int} (h : (ofBytes text).locate o = .ok p) :
    ∃ k : Nat, o = k ∧ k ≤ text.length := by
  unfold locate at h
  split at h
  · cases h
  · rw [ofBytes_size] at *
    exact ⟨o.toNat, by omega, by omega⟩

theorem count_eq (text : Bytes) : (ofBytes text).count = (Bytes.splitAt newline text).length := rfl

theorem line_eq (h : Bytes.splitAt newline text = before ++ line :: after) :
    (ofBytes text).line before.length = .ok line := by
  have hget : (Bytes.splitAt newline text)[before.length]? = some line := by
    rw [h, List.getElem?_append_right (Nat.le_refl _), Nat.sub_self]
    rfl
  rw [LineIndex.line, if_neg (by omega), Int.toNat_natCast, ofBytes_lines, hget]

/-- The position of an offset is one of the text, and leads back to the offset. -/
theorem holds_of_locate (h : (ofBytes text).locate o = .ok p) :
    (ofBytes text).Holds p ∧ (ofBytes text).offsetOf p = o := by
  obtain ⟨before, line, after, c, hat, rfl⟩ := locate_eq_ok_iff.mp h
  have hline : ((before.length + 1 : Nat) : Int) - 1 = before.length := by omega
  have hlines := congrArg List.length hat.lines_eq
  rw [List.length_append, List.length_cons] at hlines
  refine ⟨⟨?_, ?_, ?_, ?_⟩, ?_⟩
  · simp only
    omega
  · rw [count_eq, hlines]
    simp only
    omega
  · simp only
    omega
  · have hc := hat.column_le
    refine ⟨line, by rw [hline, line_eq hat.lines_eq], ?_⟩
    simp only
    omega
  · have hc : ((c : Int) + 1 - 1).toNat = c := by omega
    rw [offsetOf, hline, Int.toNat_natCast, hc, lineStart_eq hat.lines_eq, hat.offset_eq]

/-- Every position of the text is that of its offset. -/
theorem locate_offsetOf (h : (ofBytes text).Holds p) :
    (ofBytes text).locate ((ofBytes text).offsetOf p) = .ok p := by
  obtain ⟨i, c⟩ := p
  obtain ⟨hone, hcount, hcol, _, hline, hle⟩ := h
  rw [count_eq] at hcount
  simp only at hone hcount hcol hline hle
  obtain ⟨before, line, after, hsplit, hlength⟩ : ∃ before line after,
      Bytes.splitAt newline text = before ++ line :: after ∧ before.length = (i - 1).toNat := by
    have hlt : (i - 1).toNat < (Bytes.splitAt newline text).length := by omega
    have hdrop := List.take_append_drop (i - 1).toNat (Bytes.splitAt newline text)
    rw [List.drop_eq_getElem_cons hlt] at hdrop
    exact ⟨_, _, _, hdrop.symm, List.length_take_of_le (Nat.le_of_lt hlt)⟩
  have hi : i - 1 = before.length := by omega
  have hat : LineAt (Bytes.splitAt newline text) ((ofBytes text).offsetOf ⟨i, c⟩) before line after
      (c - 1).toNat := by
    refine ⟨hsplit, ?_, ?_⟩
    · rw [hi, line_eq hsplit] at hline
      cases hline
      omega
    · rw [offsetOf, ← hlength, lineStart_eq hsplit]
  rw [locate_of_lineAt hat]
  simp only [Except.ok.injEq, Position.mk.injEq]
  omega

/-- Offsets and their positions are in the same order. -/
theorem lt_iff_before {p' : Position} {o' : Nat} (h : (ofBytes text).locate o = .ok p)
    (h' : (ofBytes text).locate o' = .ok p') : o < o' ↔ p.before p' = true := by
  obtain ⟨before, line, after, c, hat, rfl⟩ := locate_eq_ok_iff.mp h
  obtain ⟨before', line', after', c', hat', rfl⟩ := locate_eq_ok_iff.mp h'
  simp only [Position.before]
  rcases Nat.lt_trichotomy before.length before'.length with hlt | heq | hgt
  · have := hat.lt_of_length_lt hat' hlt
    rw [if_neg (by omega), decide_eq_true_iff]
    omega
  · have := hat.column_of_length_eq hat' heq
    rw [if_pos (by rw [heq]), decide_eq_true_iff]
    omega
  · have := hat'.lt_of_length_lt hat hgt
    rw [if_neg (by omega), decide_eq_true_iff]
    omega

/-- The lines of a text hold no line feed and make up the text. An offset has a position exactly
when it is one of the text or its end; the line counts the line feeds before it and the column the
bytes after the last of them. Every position of the text is that of one offset, no offset has any
other, and the order stays the same. -/
theorem locate_exact (text : Bytes) :
    (∀ line ∈ (ofBytes text).lines, newline ∉ line) ∧
    [newline].intercalate (ofBytes text).lines = text ∧
    (∀ o : Int, (∃ p, (ofBytes text).locate o = .ok p) ↔ 0 ≤ o ∧ o ≤ text.length) ∧
    (∀ (o : Int) (p : Position), (ofBytes text).locate o = .ok p →
      p.line = 1 + (text.take o.toNat).count newline ∧
      p.column = 1 + ((text.take o.toNat).rtakeWhile (· ≠ newline)).length) ∧
    (∀ p : Position, (ofBytes text).Holds p ↔ ∃! o : Int, (ofBytes text).locate o = .ok p) ∧
    ∀ (o o' : Int) (p p' : Position), (ofBytes text).locate o = .ok p →
      (ofBytes text).locate o' = .ok p' → (o < o' ↔ p.before p' = true) := by
  refine ⟨fun _ h => Bytes.not_mem_of_mem_splitAt h, Bytes.intercalate_splitAt newline text,
    ?_, ?_, ?_, ?_⟩
  · intro o
    constructor
    · rintro ⟨p, h⟩
      obtain ⟨k, rfl, hle⟩ := exists_of_locate h
      omega
    · rintro ⟨hnonneg, hle⟩
      obtain ⟨k, rfl⟩ := Int.eq_ofNat_of_zero_le hnonneg
      obtain ⟨before, line, after, c, hat⟩ := exists_lineAt (Int.ofNat_le.mp hle)
      exact ⟨_, locate_of_lineAt hat⟩
  · intro o p h
    obtain ⟨k, rfl, _⟩ := exists_of_locate h
    obtain ⟨before, line, after, c, hat, rfl⟩ := locate_eq_ok_iff.mp h
    obtain ⟨hbefore, hline⟩ := not_newline_of_lineAt hat
    have hfront : newline ∉ line.take c := fun hmem => hline (List.mem_of_mem_take hmem)
    have hlength := List.length_take_of_le hat.column_le
    rw [Int.toNat_natCast, take_of_lineAt hat, rtakeWhile_terminated before hfront,
      List.count_append, count_terminated hbefore, List.count_eq_zero_of_not_mem hfront, hlength]
    simp only
    omega
  · intro p
    constructor
    · intro h
      refine ⟨_, locate_offsetOf h, fun o ho => ?_⟩
      obtain ⟨k, rfl, _⟩ := exists_of_locate ho
      rw [(holds_of_locate ho).2]
    · rintro ⟨o, ho, _⟩
      obtain ⟨k, rfl, _⟩ := exists_of_locate ho
      exact (holds_of_locate ho).1
  · intro o o' p p' h h'
    obtain ⟨k, rfl, _⟩ := exists_of_locate h
    obtain ⟨k', rfl, _⟩ := exists_of_locate h'
    exact Int.ofNat_lt.trans (lt_iff_before h h')

end LineIndex

end DocTokens
