import DocTokens.Proofs.Lines

/-! # Exact decomposition of spans

A span of a text is cut into one range for each line it reaches. Put together again with line feeds
in between, the ranges give back the bytes of the span, less one line feed at its end.
-/

namespace DocTokens

/-- The span lies in a text of the given size and does not end before it starts. -/
def Span.Fits (s : Span) (size : Nat) : Prop := 0 ≤ s.start ∧ s.start ≤ s.stop ∧ s.stop ≤ size

instance (s : Span) (size : Nat) : Decidable (s.Fits size) := inferInstanceAs (Decidable (_ ∧ _))

namespace LineRange

/-- The offset at which a range starts. -/
def offset (idx : LineIndex) (r : LineRange) : Nat := idx.lineStart r.line.toNat + r.column.toNat

/-- The bytes of a text at a range of its lines. -/
def cut (text : Bytes) (r : LineRange) : Bytes :=
  let start := r.offset (.ofBytes text)
  text.extract start (start + r.length.toNat)

/-- Whether the byte at an offset belongs to a range. -/
def covers (idx : LineIndex) (o : Nat) (r : LineRange) : Bool :=
  r.offset idx ≤ o && o < r.offset idx + r.length.toNat

/-- The ranges `rs`, the first of them on line `line`, are the span `[s, e)` of a text. -/
structure Tiles (text : Bytes) (line s e : Nat) (rs : List LineRange) : Prop where
  ne_nil : rs ≠ []
  line_eq : ∀ (k : Nat) (r : LineRange), rs[k]? = some r → r.line = line + k
  within : ∀ r ∈ rs, 0 ≤ r.column ∧ 0 ≤ r.length ∧
    ∃ n, (LineIndex.ofBytes text).lengths[r.line.toNat]? = some n ∧ r.column + r.length ≤ n
  joined : [newline].intercalate (rs.map (cut text)) = Bytes.chomp (text.extract s e)
  /-- Every byte of the span other than a line feed is in one range, all other bytes in none. -/
  covered : ∀ o, rs.countP (covers (.ofBytes text) o) =
    if s ≤ o ∧ o < e ∧ text[o]? ≠ some newline then 1 else 0
  /-- Every range is on the line of `s` or of another offset of the span. -/
  reached : ∀ r ∈ rs, ∃ (o : Nat) (p : Position), s ≤ o ∧ (o = s ∨ o < e) ∧
    (LineIndex.ofBytes text).locate o = .ok p ∧ p.line = r.line + 1

namespace Tiles

variable {text : Bytes} {before after : List Bytes} {line next : Bytes} {s e c n : Nat}
  {rs : List LineRange}

theorem offset_mk (h : LineAt (Bytes.splitAt newline text) s before line after c) (length : Int) :
    offset (.ofBytes text) ⟨before.length, c, length⟩ = s := by
  have hs := h.offset_eq
  simp only [offset, Int.toNat_natCast, LineIndex.lineStart_eq h.lines_eq]
  omega

theorem cut_mk (h : LineAt (Bytes.splitAt newline text) s before line after c) (n : Nat) :
    cut text ⟨before.length, c, n⟩ = text.extract s (s + n) := by
  simp [cut, offset_mk h]

/-- The bytes of a range on one line hold no line feed. -/
theorem not_newline (h : LineAt (Bytes.splitAt newline text) s before line after c)
    (hn : c + n ≤ line.length) {o : Nat} (hso : s ≤ o) (ho : o < s + n) :
    text[o]? ≠ some newline := by
  have hat : LineAt (Bytes.splitAt newline text) o before line after (c + (o - s)) :=
    ⟨h.lines_eq, by omega, by have := h.offset_eq; omega⟩
  have hline : newline ∉ line := by
    apply Bytes.not_mem_of_mem_splitAt (s := text)
    simp [h.lines_eq]
  have hget := hat.getElem?_of_lt (by omega)
  rw [Bytes.intercalate_splitAt] at hget
  rw [hget]
  exact fun hc => hline (List.mem_of_getElem? hc)

theorem chomp_extract (hn : ∀ o, s ≤ o → o < e → text[o]? ≠ some newline) :
    Bytes.chomp (text.extract s e) = text.extract s e := by
  rw [Bytes.chomp, if_neg]
  intro hlast
  have hmem := List.mem_of_getLast? hlast
  rw [List.extract_eq_take_drop] at hmem
  obtain ⟨i, hi, hget⟩ := List.getElem_of_mem hmem
  simp only [List.getElem_take, List.getElem_drop, List.length_take, List.length_drop] at hget hi
  exact hn (s + i) (by omega) (by omega) (List.getElem?_eq_some_iff.mpr ⟨by omega, hget⟩)

theorem chomp_extract_succ (hs : s ≤ e) (hnl : text[e]? = some newline) :
    Bytes.chomp (text.extract s (e + 1)) = text.extract s e := by
  obtain ⟨he, hget⟩ := List.getElem?_eq_some_iff.mp hnl
  have hsucc : text.extract s (e + 1) = text.extract s e ++ [newline] := by
    rw [List.extract_eq_take_drop, List.extract_eq_take_drop, Nat.sub_add_comm hs,
      List.take_succ_eq_append_getElem (by simp only [List.length_drop]; omega)]
    simp [Nat.add_sub_cancel' hs, hget]
  simp [hsucc, Bytes.chomp]

theorem chomp_append {x y : Bytes} (hy : y ≠ []) : Bytes.chomp (x ++ y) = x ++ y.chomp := by
  unfold Bytes.chomp
  rw [List.getLast?_append, List.getLast?_eq_some_getLast hy, Option.some_or]
  split
  · exact List.dropLast_append_of_ne_nil hy
  · rfl

theorem extract_split {m : Nat} (hs : s ≤ m) (hm : m + 1 < e)
    (hnl : text[m]? = some newline) :
    text.extract s e = text.extract s m ++ [newline] ++ text.extract (m + 1) e := by
  obtain ⟨hlt, hget⟩ := List.getElem?_eq_some_iff.mp hnl
  have hlen : e - s = (m - s) + (e - (m + 1) + 1) := by omega
  have hdrop : text.drop m = newline :: text.drop (m + 1) := by
    rw [List.drop_eq_getElem_cons hlt, hget]
  rw [List.extract_eq_take_drop, hlen, List.take_add, List.drop_drop, Nat.add_sub_cancel' hs, hdrop,
    List.take_succ_cons, List.extract_eq_take_drop, List.extract_eq_take_drop,
    List.append_assoc, List.singleton_append]

theorem covers_mk (h : LineAt (Bytes.splitAt newline text) s before line after c) (n o : Nat) :
    covers (.ofBytes text) o ⟨before.length, c, n⟩ = (decide (s ≤ o) && decide (o < s + n)) := by
  simp [covers, offset_mk h]

theorem within_mk (h : LineAt (Bytes.splitAt newline text) s before line after c)
    (hn : c + n ≤ line.length) : (0 : Int) ≤ c ∧ (0 : Int) ≤ n ∧
      ∃ m, (LineIndex.ofBytes text).lengths[(before.length : Int).toNat]? = some m ∧
        (c : Int) + n ≤ m := by
  refine ⟨by omega, by omega, line.length, ?_, by omega⟩
  rw [Int.toNat_natCast]
  exact LineIndex.getElem?_lengths h.lines_eq

/-- A span on one line, perhaps with the line feed of that line, is a single range. -/
theorem single (h : LineAt (Bytes.splitAt newline text) s before line after c)
    (hn : c + n ≤ line.length) (he : e = s + n ∨ e = s + n + 1 ∧ text[s + n]? = some newline) :
    Tiles text before.length s e [⟨before.length, c, n⟩] where
  ne_nil := by simp
  line_eq k r hr := by
    obtain ⟨rfl, rfl⟩ : k = 0 ∧ ⟨before.length, c, n⟩ = r := by
      cases k <;> simp_all
    simp
  within r hr := by
    obtain rfl := List.mem_singleton.mp hr
    exact within_mk h hn
  joined := by
    rw [List.map_singleton, List.intercalate_singleton, cut_mk h]
    rcases he with rfl | ⟨rfl, hnl⟩
    · exact (chomp_extract fun o hso ho => not_newline h hn hso ho).symm
    · exact (chomp_extract_succ (by omega) hnl).symm
  covered o := by
    rw [List.countP_singleton, covers_mk h]
    by_cases ho : s ≤ o ∧ o < s + n
    · have hnl := not_newline h hn ho.1 ho.2
      have hoe : o < e := by omega
      simp [ho, hoe, hnl]
    · have hout : ¬ (s ≤ o ∧ o < e ∧ text[o]? ≠ some newline) := by
        rintro ⟨hso, hoe, hne⟩
        rcases he with rfl | ⟨rfl, hnl⟩
        · omega
        · obtain rfl : o = s + n := by omega
          exact hne hnl
      simp only [hout, if_false]
      simp only [Bool.and_eq_true, decide_eq_true_eq, ho, if_false]
  reached r hr := by
    obtain rfl := List.mem_singleton.mp hr
    exact ⟨s, _, Nat.le_refl _, Or.inl rfl, LineIndex.locate_of_lineAt h, by simp⟩

/-- A span that goes on after a line feed is the rest of its first line and the ranges of what
follows. -/
theorem cons (h : LineAt (Bytes.splitAt newline text) s before line (next :: after) c)
    (hlt : s + (line.length - c) + 1 < e) (he : e ≤ text.length)
    (ht : Tiles text (before.length + 1) (s + (line.length - c) + 1) e rs) :
    Tiles text before.length s e (⟨before.length, c, (line.length - c : Nat)⟩ :: rs) := by
  have hc := h.column_le
  have hn : c + (line.length - c) ≤ line.length := by omega
  have hnl : text[s + (line.length - c)]? = some newline := by
    have hat : LineAt (Bytes.splitAt newline text) (s + (line.length - c)) before line
        (next :: after) line.length := ⟨h.lines_eq, Nat.le_refl _, by have := h.offset_eq; omega⟩
    have hget := hat.getElem?_of_eq rfl
    rwa [Bytes.intercalate_splitAt] at hget
  refine ⟨by simp, ?_, ?_, ?_, ?_, ?_⟩
  · intro k r hr
    cases k with
    | zero => simp_all; rw [← hr]
    | succ k =>
      have := ht.line_eq k r (by simpa using hr)
      omega
  · intro r hr
    rcases List.mem_cons.mp hr with rfl | hr
    · exact within_mk h hn
    · exact ht.within r hr
  · obtain ⟨first, rest, hrs⟩ := List.exists_cons_of_ne_nil ht.ne_nil
    have hjoined := ht.joined
    have htail : text.extract (s + (line.length - c) + 1) e ≠ [] := by
      simp only [List.extract_eq_take_drop, ne_eq, List.take_eq_nil_iff, List.drop_eq_nil_iff]
      omega
    have hchomp : Bytes.chomp (text.extract s e) = text.extract s (s + (line.length - c)) ++
        [newline] ++ Bytes.chomp (text.extract (s + (line.length - c) + 1) e) := by
      rw [extract_split (Nat.le_add_right s _) hlt hnl, chomp_append htail]
    rw [hrs] at hjoined ⊢
    rw [List.map_cons, List.map_cons, List.intercalate_cons_cons, ← List.map_cons, hjoined,
      cut_mk h, hchomp]
  · intro o
    rw [List.countP_cons, ht.covered o, covers_mk h]
    by_cases ho : s ≤ o ∧ o < s + (line.length - c)
    · have hnot := not_newline h hn ho.1 ho.2
      have hlow : ¬ s + (line.length - c) + 1 ≤ o := by omega
      have hoe : o < e := by omega
      simp [ho, hlow, hoe, hnot]
    · by_cases heq : o = s + (line.length - c)
      · simp [heq, hnl]
      · have hiff : s + (line.length - c) + 1 ≤ o ↔ s ≤ o := by omega
        simp only [hiff, Bool.and_eq_true, decide_eq_true_eq, ho, if_false, Nat.add_zero]
  · intro r hr
    rcases List.mem_cons.mp hr with rfl | hr
    · exact ⟨s, _, Nat.le_refl _, Or.inl rfl, LineIndex.locate_of_lineAt h, by simp⟩
    · obtain ⟨o, p, hso, hoe, hloc, hp⟩ := ht.reached r hr
      exact ⟨o, p, by omega, by omega, hloc, hp⟩

end Tiles

/-- Covers a span from a column of a line, over the lines of `mid`, to column `d` of the line
`last`. The span ends there or, when that is the end of a line, after the line feed. -/
theorem exists_cover {text : Bytes} {mid before after rest : List Bytes} {line last : Bytes}
    {s c d e : Nat} (hs : LineAt (Bytes.splitAt newline text) s before line rest c)
    (hl : line :: rest = mid ++ last :: after) (hd : d ≤ last.length) (hcd : mid = [] → c ≤ d)
    (he : e ≤ text.length)
    (hend : e = (terminated before).length + (terminated mid).length + d ∧ (mid ≠ [] → 0 < d) ∨
      e = (terminated before).length + (terminated mid).length + d + 1 ∧ d = last.length ∧
        after ≠ []) :
    ∃ rs, cover (d + 1) mid.length before.length c
        ((line :: rest).map fun l => Int.ofNat l.length) = .ok rs ∧
      Tiles text before.length s e rs := by
  -- along the lines between the ends; the first column is zero from the second line on
  induction mid generalizing before line rest s c with
  | nil =>
    obtain ⟨rfl, rfl⟩ := List.cons.inj hl
    have hle := hcd rfl
    have hoff := hs.offset_eq
    have hcover : cover (d + 1) 0 before.length c ((line :: rest).map fun l => Int.ofNat l.length) =
        .ok [⟨before.length, c, (d - c : Nat)⟩] := by
      have hlen : (d : Int) + 1 - 1 - c = (d - c : Nat) := by omega
      simp only [cover, hlen]
      rw [if_neg (by omega)]
    refine ⟨_, hcover, Tiles.single hs (by omega) ?_⟩
    rcases hend with ⟨rfl, _⟩ | ⟨rfl, hdl, hne⟩
    · left
      simp only [terminated_nil, List.length_nil]
      omega
    · right
      obtain ⟨next, rest, rfl⟩ := List.exists_cons_of_ne_nil hne
      have hat : LineAt (Bytes.splitAt newline text) (s + (d - c)) before line (next :: rest) d :=
        ⟨hs.lines_eq, hd, by omega⟩
      have hget := hat.getElem?_of_eq hdl
      rw [Bytes.intercalate_splitAt] at hget
      refine ⟨?_, hget⟩
      simp only [terminated_nil, List.length_nil]
      omega
  | cons first mid ih =>
    obtain ⟨rfl, hrest⟩ := List.cons.inj hl
    have hc := hs.column_le
    have hoff := hs.offset_eq
    obtain ⟨next, rest, rfl⟩ : ∃ next more, rest = next :: more := by
      cases mid <;> simp_all
    have hnext : LineAt (Bytes.splitAt newline text) (s + (line.length - c) + 1) (before ++ [line])
        next rest 0 := by
      refine ⟨by simp [hs.lines_eq], by omega, ?_⟩
      simp only [terminated_append, terminated_cons, terminated_nil, List.length_append,
        List.length_cons, List.length_nil]
      omega
    have hterm : (terminated (before ++ [line])).length + (terminated mid).length =
        (terminated before).length + (terminated (line :: mid)).length := by
      simp only [terminated_append, terminated_cons, terminated_nil, List.length_append,
        List.length_cons, List.length_nil]
      omega
    have hlt : s + (line.length - c) + 1 < e := by
      simp only [terminated_cons, List.length_append, List.length_cons] at hend
      rcases hend with ⟨rfl, hpos⟩ | ⟨rfl, _⟩
      · have := hpos (by simp)
        omega
      · omega
    obtain ⟨rs, hrs, ht⟩ := ih hnext hrest (fun _ => by omega) (by
      rw [hterm]
      rcases hend with ⟨hend, hpos⟩ | hend
      · exact Or.inl ⟨hend, fun _ => hpos (by simp)⟩
      · exact Or.inr hend)
    simp only [List.length_append, List.length_singleton] at ht hrs
    refine ⟨⟨before.length, c, (line.length - c : Nat)⟩ :: rs, ?_, ht.cons hs hlt he⟩
    have hlen : Integer.countDown (Int.ofNat line.length) c = (line.length - c : Nat) :=
      Integer.countDown_natCast hc
    simp only [List.length_cons, cover, List.map_cons, List.headD_cons, List.tail_cons, hlen]
    rw [if_neg (by omega)]
    push_cast at hrs
    rw [List.map_cons] at hrs
    rw [hrs]
    rfl

/-- Positions that stand in a text are not refused. -/
theorem decompose_eq {b m c d : Nat} {lengths : List Int} (hlen : b + m < lengths.length)
    (hcd : m = 0 → c ≤ d) :
    decompose ⟨(b + 1 : Nat), c + 1⟩ ⟨(b + m + 1 : Nat), d + 1⟩ lengths =
      cover (d + 1) m b c (lengths.drop b) := by
  have hbefore :
      Position.before ⟨(b + m + 1 : Nat), (d : Int) + 1⟩ ⟨(b + 1 : Nat), c + 1⟩ = false := by
    unfold Position.before
    split
    · rename_i heq
      have := hcd (by simp only at heq; omega)
      simp only [decide_eq_false_iff_not]
      omega
    · simp only [decide_eq_false_iff_not]
      omega
  have hmore : (((b + m + 1 : Nat) : Int) - (b + 1 : Nat)).toNat = m := by omega
  have hline : ((b + 1 : Nat) : Int) - 1 = b := by omega
  have hcolumn : (c : Int) + 1 - 1 = c := by omega
  unfold decompose
  rw [if_neg (by simp only; omega), hbefore, if_neg (by simp), if_neg (by simp only; omega), hmore,
    hline, hcolumn, Int.toNat_natCast]

end LineRange

namespace LineIndex

open LineRange

variable {text : Bytes} {s e : Nat}

theorem spanEnd_of_inside (idx : LineIndex) {b m d : Nat} {column : Int} (h : m = 0 ∨ 0 < d) :
    idx.spanEnd ⟨(b + 1 : Nat), column⟩ ⟨(b + m + 1 : Nat), d + 1⟩ =
      ⟨(b + m + 1 : Nat), d + 1⟩ := by
  rw [spanEnd, if_neg]
  simp only
  omega

/-- An end at the start of a line goes back to the end of the line before. -/
theorem spanEnd_of_start {before mid after : List Bytes} {prev line : Bytes} {column : Int}
    (h : Bytes.splitAt newline text = before ++ mid ++ prev :: line :: after) :
    (ofBytes text).spanEnd ⟨(before.length + 1 : Nat), column⟩
        ⟨(before.length + (mid.length + 1) + 1 : Nat), (0 : Nat) + 1⟩ =
      ⟨(before.length + mid.length + 1 : Nat), prev.length + 1⟩ := by
  have hget := getElem?_lengths h
  have hline : ((before.length + (mid.length + 1) + 1 : Nat) : Int) - 1 =
      (before.length + mid.length + 1 : Nat) := by omega
  have hidx : (((before.length + mid.length + 1 : Nat) : Int) - 1).toNat =
      (before ++ mid).length := by
    rw [List.length_append]
    omega
  rw [spanEnd, if_pos ⟨by simp, by simp only; omega⟩]
  simp only [hline, hidx, hget, Option.getD_some]

theorem ranges_eq_ok_iff {idx : LineIndex} {span : Span} {start stop : Position}
    {rs : List LineRange} : idx.ranges span = .ok (start, stop, rs) ↔
      idx.locateSpan span = .ok (start, stop) ∧
        decompose start stop (idx.lengths.map Int.ofNat) = .ok rs := by
  unfold ranges
  cases hspan : idx.locateSpan span with
  | error err => simp [bind, Except.bind]
  | ok ends =>
    obtain ⟨p, q⟩ := ends
    simp only [bind, Except.bind, Except.ok.injEq, Prod.mk.injEq]
    constructor
    · intro h
      cases hd : decompose p q (idx.lengths.map Int.ofNat) with
      | error err => simp [hd] at h
      | ok pieces =>
        simp only [hd, pure, Except.pure, Except.ok.injEq, Prod.mk.injEq] at h
        obtain ⟨rfl, rfl, rfl⟩ := h
        exact ⟨⟨rfl, rfl⟩, hd⟩
    · rintro ⟨⟨rfl, rfl⟩, hd⟩
      simp [hd, pure, Except.pure]

theorem locateSpan_eq {start stop : Position} (hse : s ≤ e)
    (hs : (ofBytes text).locate s = .ok start) (he : (ofBytes text).locate e = .ok stop) :
    (ofBytes text).locateSpan ⟨s, e⟩ = .ok (start, (ofBytes text).spanEnd start stop) := by
  rw [locateSpan, if_neg (by simp only; omega)]
  simp only [hs, he]

theorem fits_of_locateSpan {span : Span} {ends : Position × Position}
    (h : (ofBytes text).locateSpan span = .ok ends) : span.Fits text.length := by
  unfold locateSpan at h
  split at h
  · cases h
  · rename_i hle
    unfold locate at h
    split at h
    · cases h
    · rename_i hstart
      split at h
      · cases h
      · rename_i hstop
        split at hstart
        · cases hstart
        · split at hstop
          · cases hstop
          · simp only [ofBytes_size] at *
            unfold Span.Fits
            omega

/-- Every span inside a text has ranges, and they are exact. -/
theorem exists_ranges (hse : s ≤ e) (he : e ≤ text.length) :
    ∃ (line : Nat) (start stop : Position) (rs : List LineRange),
      (ofBytes text).ranges ⟨s, e⟩ = .ok (start, stop, rs) ∧
      (ofBytes text).locate s = .ok start ∧ start.line = line + 1 ∧ Tiles text line s e rs := by
  obtain ⟨before, line, rest, c, hs⟩ := exists_lineAt (Nat.le_trans hse he)
  have hoff := hs.offset_eq
  -- the end is looked up among the lines from that of the start on
  obtain ⟨mid, last, after, d, hsuffix⟩ : ∃ mid last after d,
      LineAt (line :: rest) (e - (terminated before).length) mid last after d := by
    apply LineAt.exists_of_le
    have htext := congrArg List.length (Bytes.intercalate_splitAt newline text)
    rw [hs.lines_eq, intercalate_append_cons, List.length_append] at htext
    omega
  have hat := hsuffix.shift before
  rw [← hs.lines_eq, Nat.add_sub_cancel' (by omega)] at hat
  have hlines := hsuffix.lines_eq
  have hend := hsuffix.offset_eq
  have hd := hsuffix.column_le
  have hcd : mid = [] → c ≤ d := by
    rintro rfl
    simp only [terminated_nil, List.length_nil] at hend
    omega
  have hlocs := locate_of_lineAt hs
  have hloce := locate_of_lineAt hat
  rw [List.length_append] at hloce
  have hdrop : ((ofBytes text).lengths.map Int.ofNat).drop before.length =
      (line :: rest).map fun l => Int.ofNat l.length := by
    rw [ofBytes_lengths, hs.lines_eq]
    simp [Function.comp_def]
  have hcount : ((ofBytes text).lengths.map Int.ofNat).length =
      before.length + mid.length + 1 + after.length := by
    have := congrArg List.length hlines
    simp only [List.length_append, List.length_cons] at this
    rw [ofBytes_lengths, hs.lines_eq]
    simp only [List.length_map, List.length_append, List.length_cons]
    omega
  by_cases hin : mid = [] ∨ 0 < d
  · have hpos : mid ≠ [] → 0 < d := fun hne => hin.resolve_left hne
    obtain ⟨rs, hrs, ht⟩ := exists_cover hs hlines hd hcd he (Or.inl ⟨by omega, hpos⟩)
    refine ⟨before.length, _, _, rs, ranges_eq_ok_iff.mpr ⟨locateSpan_eq hse hlocs hloce, ?_⟩,
      hlocs, by simp, ht⟩
    rw [spanEnd_of_inside _ (hin.imp_left fun hm => by simp [hm]),
      decompose_eq (by omega) (fun hm => hcd (List.length_eq_zero_iff.mp hm)), hdrop, hrs]
  · obtain ⟨hne, hzero⟩ := not_or.mp hin
    obtain rfl : d = 0 := by omega
    obtain ⟨mid, prev, rfl⟩ : ∃ front prev, mid = front ++ [prev] :=
      ⟨_, _, (List.dropLast_concat_getLast hne).symm⟩
    simp only [List.append_assoc, List.singleton_append] at hlines
    simp only [terminated_append, terminated_cons, terminated_nil, List.length_append,
      List.length_cons, List.length_nil] at hend hloce hcount
    have hsplit : Bytes.splitAt newline text = before ++ mid ++ prev :: last :: after := by
      rw [hs.lines_eq, hlines, List.append_assoc]
    have hcprev : mid = [] → c ≤ prev.length := by
      rintro rfl
      obtain ⟨rfl, -⟩ := List.cons.inj hlines
      exact hs.column_le
    obtain ⟨rs, hrs, ht⟩ := exists_cover hs hlines (Nat.le_refl _) hcprev he
      (Or.inr ⟨by omega, rfl, by simp⟩)
    refine ⟨before.length, _, _, rs, ranges_eq_ok_iff.mpr ⟨locateSpan_eq hse hlocs hloce, ?_⟩,
      hlocs, by simp, ht⟩
    rw [spanEnd_of_start hsplit,
      decompose_eq (by omega) (fun hm => hcprev (List.length_eq_zero_iff.mp hm)), hdrop, hrs]

theorem exists_ranges_of_fits {span : Span} (h : span.Fits text.length) :
    ∃ (line : Nat) (start stop : Position) (rs : List LineRange),
      (ofBytes text).ranges span = .ok (start, stop, rs) ∧
      (ofBytes text).locate span.start = .ok start ∧ start.line = line + 1 ∧
      Tiles text line span.start.toNat span.stop.toNat rs := by
  obtain ⟨hstart, hle, hstop⟩ := h
  obtain ⟨s, hs⟩ := Int.eq_ofNat_of_zero_le hstart
  obtain ⟨e, he⟩ := Int.eq_ofNat_of_zero_le (Int.le_trans hstart hle)
  obtain ⟨s', e'⟩ := span
  subst hs he
  exact exists_ranges (by simp only at hle; omega) (by simp only at hstop; omega)

/-- A span has ranges exactly when it fits the text, every failure says that an offset is out of
range, and the ranges of a span put together again are the span. -/
theorem ranges_exact (text : Bytes) (s e : Int) :
    ((∃ start stop rs, (ofBytes text).ranges ⟨s, e⟩ = .ok (start, stop, rs)) ↔
      0 ≤ s ∧ s ≤ e ∧ e ≤ text.length) ∧
    (∀ err, (ofBytes text).ranges ⟨s, e⟩ = .error err →
      err.message = err.detail ++ ": offset out of range") ∧
    ∀ start stop rs, (ofBytes text).ranges ⟨s, e⟩ = .ok (start, stop, rs) →
      (ofBytes text).locate s = .ok start ∧ 1 ≤ start.line ∧
      Tiles text (start.line - 1).toNat s.toNat e.toNat rs := by
  have hfits : ∀ {start stop rs}, (ofBytes text).ranges ⟨s, e⟩ = .ok (start, stop, rs) →
      (Span.mk s e).Fits text.length := fun h => fits_of_locateSpan (ranges_eq_ok_iff.mp h).1
  refine ⟨⟨?_, ?_⟩, fun err _ => rfl, ?_⟩
  · rintro ⟨start, stop, rs, h⟩
    exact hfits h
  · intro h
    have hse : (Span.mk s e).Fits text.length := h
    obtain ⟨_, start, stop, rs, hrs, _⟩ := exists_ranges_of_fits hse
    exact ⟨start, stop, rs, hrs⟩
  · intro start stop rs h
    obtain ⟨line, start', stop', rs', hrs, hloc, hline, ht⟩ := exists_ranges_of_fits (hfits h)
    obtain ⟨rfl, rfl, rfl⟩ : start' = start ∧ stop' = stop ∧ rs' = rs := by
      rw [hrs] at h
      simpa using h
    refine ⟨hloc, by omega, ?_⟩
    rwa [hline, Int.add_sub_cancel, Int.toNat_natCast]

end LineIndex

end DocTokens
