import DocTokens.LineIndex

/-! # The lines of a text

A text is its lines with a line feed between any two of them. An offset therefore stands in exactly
one line, after the line feeds of the lines before, and `LineIndex.locate` finds that line.
-/

namespace DocTokens

namespace Bytes

theorem splitAt_eq_splitOn (sep : UInt8) (s : Bytes) : splitAt sep s = s.splitOn sep := by
  induction s with
  | nil => simp [splitAt]
  | cons b rest ih =>
    rw [splitAt, List.splitOn_cons_eq_if_modifyHead, ih]
    by_cases hb : b = sep
    · simp [hb]
    · simp only [hb, if_false, beq_iff_eq]
      cases h : rest.splitOn sep with
      | nil => exact absurd h (List.splitOn_ne_nil _ _)
      | cons piece pieces => rfl

theorem splitAt_ne_nil (sep : UInt8) (s : Bytes) : splitAt sep s ≠ [] := by
  rw [splitAt_eq_splitOn]
  exact List.splitOn_ne_nil _ _

/-- Splitting loses nothing but the separators. -/
theorem intercalate_splitAt (sep : UInt8) (s : Bytes) : [sep].intercalate (splitAt sep s) = s := by
  rw [splitAt_eq_splitOn, List.intercalate_splitOn]

theorem not_mem_of_mem_splitAt {sep : UInt8} {s piece : Bytes} (h : piece ∈ splitAt sep s) :
    sep ∉ piece := by
  induction s generalizing piece with
  | nil => simp_all [splitAt]
  | cons b rest ih =>
    unfold splitAt at h
    split at h
    · rcases List.mem_cons.mp h with rfl | h
      · simp
      · exact ih h
    · rename_i hb
      split at h
      · simp_all
        exact fun he => hb he.symm
      · rename_i first pieces hs
        rcases List.mem_cons.mp h with rfl | h
        · have hf : sep ∉ first := ih (by simp [hs])
          simp only [List.mem_cons, not_or]
          exact ⟨fun he => hb he.symm, hf⟩
        · exact ih (by simp [hs, h])

/-- The text without the line feed at its end, if there is one. -/
def chomp (s : Bytes) : Bytes := if s.getLast? = some newline then s.dropLast else s

end Bytes

/-- Some lines, each with its line feed. -/
def terminated (lines : List Bytes) : Bytes := lines.flatMap (· ++ [newline])

@[simp] theorem terminated_nil : terminated [] = [] := rfl

@[simp] theorem terminated_cons (line : Bytes) (lines : List Bytes) :
    terminated (line :: lines) = line ++ newline :: terminated lines := by
  simp [terminated]

@[simp] theorem terminated_append (xs ys : List Bytes) :
    terminated (xs ++ ys) = terminated xs ++ terminated ys := by
  simp [terminated]

theorem intercalate_append_cons (before : List Bytes) (line : Bytes) (after : List Bytes) :
    [newline].intercalate (before ++ line :: after) =
      terminated before ++ [newline].intercalate (line :: after) := by
  induction before with
  | nil => rfl
  | cons first before ih =>
    rw [List.cons_append, List.intercalate_cons_of_ne_nil (by simp), ih]
    simp

/-- What follows a line: nothing after the last one, else a line feed and the other lines. -/
def lineTail : List Bytes → Bytes
  | [] => []
  | line :: lines => newline :: [newline].intercalate (line :: lines)

theorem intercalate_cons (line : Bytes) (after : List Bytes) :
    [newline].intercalate (line :: after) = line ++ lineTail after := by
  cases after with
  | nil => simp [lineTail]
  | cons next after => simp [lineTail]

/-- Offset `o` stands at column `c`, counted from zero, of a line with some lines before and after
it. A column at the length of the line is that of its line feed or of the end of the text. -/
structure LineAt (lines : List Bytes) (o : Nat) (before : List Bytes) (line : Bytes)
    (after : List Bytes) (c : Nat) : Prop where
  lines_eq : lines = before ++ line :: after
  column_le : c ≤ line.length
  offset_eq : o = (terminated before).length + c

namespace LineAt

variable {lines before after : List Bytes} {line : Bytes} {o c : Nat}

/-- Every offset of a nonempty sequence of lines stands in one of them. -/
theorem exists_of_le {first : Bytes} {rest : List Bytes} {o : Nat}
    (h : o ≤ ([newline].intercalate (first :: rest)).length) :
    ∃ before line after c, LineAt (first :: rest) o before line after c := by
  induction rest generalizing first o with
  | nil => exact ⟨[], first, [], o, by simp, by simpa using h, by simp⟩
  | cons next rest ih =>
    by_cases ho : o ≤ first.length
    · exact ⟨[], first, next :: rest, o, by simp, ho, by simp⟩
    · have hle : o - (first.length + 1) ≤ ([newline].intercalate (next :: rest)).length := by
        simp only [List.intercalate_cons_cons, List.length_append, List.length_singleton] at h
        omega
      obtain ⟨before, line, after, c, hlines, hc, hoff⟩ := ih hle
      refine ⟨first :: before, line, after, c, by simp [hlines], hc, ?_⟩
      simp only [terminated_cons, List.length_append, List.length_cons]
      omega

/-- Lines put in front of all the others move every offset. -/
theorem shift (h : LineAt lines o before line after c) (front : List Bytes) :
    LineAt (front ++ lines) ((terminated front).length + o) (front ++ before) line after c where
  lines_eq := by simp [h.lines_eq]
  column_le := h.column_le
  offset_eq := by
    have := h.offset_eq
    simp only [terminated_append, List.length_append]
    omega

/-- Another offset of the same line. -/
theorem move {n : Nat} (h : LineAt lines o before line after c) (hn : c + n ≤ line.length) :
    LineAt lines (o + n) before line after (c + n) where
  lines_eq := h.lines_eq
  column_le := hn
  offset_eq := by
    have := h.offset_eq
    omega

theorem text_eq (h : LineAt lines o before line after c) :
    [newline].intercalate lines = terminated before ++ (line ++ lineTail after) := by
  rw [h.lines_eq, intercalate_append_cons, intercalate_cons]

theorem offset_le (h : LineAt lines o before line after c) :
    o ≤ ([newline].intercalate lines).length := by
  have hc := h.column_le
  have ho := h.offset_eq
  rw [h.text_eq]
  simp only [List.length_append]
  omega

theorem getElem?_of_lt (h : LineAt lines o before line after c) (hc : c < line.length) :
    ([newline].intercalate lines)[o]? = (line)[c]? := by
  rw [h.text_eq, h.offset_eq, List.getElem?_append_right (by omega), Nat.add_sub_cancel_left,
    List.getElem?_append_left hc]

theorem getElem?_of_eq {next : Bytes} (h : LineAt lines o before line (next :: after) c)
    (hc : c = line.length) : ([newline].intercalate lines)[o]? = some newline := by
  rw [h.text_eq, h.offset_eq, List.getElem?_append_right (by omega), Nat.add_sub_cancel_left,
    List.getElem?_append_right (by omega), hc]
  simp [lineTail]

end LineAt

namespace LineIndex

variable {text : Bytes} {before after : List Bytes} {line : Bytes} {o c : Nat}

/-- The offset at which a line starts; every line before it has a line feed. -/
def lineStart (idx : LineIndex) (i : Nat) : Nat :=
  (idx.lengths.take i).foldl (fun start length => start + length + 1) 0

@[simp] theorem ofBytes_lines (text : Bytes) :
    (ofBytes text).lines = Bytes.splitAt newline text := rfl

@[simp] theorem ofBytes_lengths (text : Bytes) :
    (ofBytes text).lengths = (Bytes.splitAt newline text).map List.length := rfl

@[simp] theorem ofBytes_size (text : Bytes) : (ofBytes text).size = text.length := rfl

theorem foldl_lengths (lines : List Bytes) (start : Nat) :
    (lines.map List.length).foldl (fun start length => start + length + 1) start =
      start + (terminated lines).length := by
  induction lines generalizing start with
  | nil => rfl
  | cons line lines ih =>
    rw [List.map_cons, List.foldl_cons, ih, terminated_cons, List.length_append, List.length_cons]
    omega

theorem lineStart_eq (h : Bytes.splitAt newline text = before ++ line :: after) :
    (ofBytes text).lineStart before.length = (terminated before).length := by
  rw [lineStart, ofBytes_lengths, h, List.map_append, List.take_left' (List.length_map _),
    foldl_lengths, Nat.zero_add]

theorem getElem?_lengths (h : Bytes.splitAt newline text = before ++ line :: after) :
    (ofBytes text).lengths[before.length]? = some line.length := by
  simp [h]

theorem place_eq (lines : List Bytes) (line : Bytes) (after : List Bytes) {c : Nat}
    (hc : c ≤ line.length) (n : Nat) :
    place ((lines ++ line :: after).map List.length) n ((terminated lines).length + c) =
      ⟨(n + lines.length : Nat), c + 1⟩ := by
  induction lines generalizing n with
  | nil => simp [place, hc]
  | cons first lines ih =>
    have hlt : ¬ (terminated (first :: lines)).length + c ≤ first.length := by
      simp only [terminated_cons, List.length_append, List.length_cons]
      omega
    have hsub : (terminated (first :: lines)).length + c - (first.length + 1) =
        (terminated lines).length + c := by
      simp only [terminated_cons, List.length_append, List.length_cons]
      omega
    rw [List.cons_append, List.map_cons, place, if_neg hlt, hsub, ih]
    simp only [List.length_cons, Position.mk.injEq, and_true]
    omega

/-- The line and column of an offset are those at which it stands, counted from one. -/
theorem locate_of_lineAt (h : LineAt (Bytes.splitAt newline text) o before line after c) :
    (ofBytes text).locate o = .ok ⟨(before.length + 1 : Nat), c + 1⟩ := by
  have hle := h.offset_le
  rw [Bytes.intercalate_splitAt] at hle
  have hplace := place_eq before line after h.column_le 1
  rw [← h.lines_eq, ← h.offset_eq, Nat.add_comm 1] at hplace
  have hin : ¬ ((o : Int) < 0 ∨ ((ofBytes text).size : Int) < o) := by
    rw [ofBytes_size]
    omega
  rw [locate, if_neg hin, Int.toNat_natCast, ofBytes_lengths, hplace]

theorem exists_lineAt (h : o ≤ text.length) :
    ∃ before line after c, LineAt (Bytes.splitAt newline text) o before line after c := by
  obtain ⟨first, rest, hs⟩ := List.exists_cons_of_ne_nil (Bytes.splitAt_ne_nil newline text)
  rw [hs]
  apply LineAt.exists_of_le
  rwa [← hs, Bytes.intercalate_splitAt]

end LineIndex

end DocTokens
