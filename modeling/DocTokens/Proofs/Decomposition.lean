import DocTokens.LineIndex

/-! # Decomposition of arbitrary positions

Positions and line lengths that come from no text may contradict each other. What a decomposition
refuses and what it lets through is stated on the positions alone, and so are the ranges it gives,
as long as the rest of the first line is an integer of 64 bits.
-/

namespace DocTokens

namespace Position

variable {p q : Position}

theorem before_eq_true_iff :
    p.before q = true ↔ p.line < q.line ∨ p.line = q.line ∧ p.column < q.column := by
  unfold before
  split <;> simp <;> omega

theorem before_eq_false_iff :
    p.before q = false ↔ q.line < p.line ∨ q.line = p.line ∧ q.column ≤ p.column := by
  rw [← Bool.not_eq_true, before_eq_true_iff]
  omega

end Position

namespace LineRange

/-- The length of a line counted from zero, if there is such a line. -/
def lengthAt? (lengths : List Int) (line : Int) : Option Int :=
  if line < 0 then none else lengths[line.toNat]?

/-! ## Reads inside the list of lengths -/

namespace Checked

/-- As `LineRange.cover`, but lengths are looked up by the number of their line. A look outside of
the list has no answer. -/
def cover (lengths : List Int) (stopColumn : Int) :
    Nat → Int → Int → Option (Except RangeError (List LineRange))
  | 0, line, column =>
    let length := stopColumn - 1 - column
    some (if length < 0 then .error (.pastLineEnd line column) else .ok [⟨line, column, length⟩])
  | more + 1, line, column => do
    let length := Integer.countDown (← lengthAt? lengths line) column
    if length < 0 then some (.error (.pastLineEnd line column))
    else
      let rest ← cover lengths stopColumn more (line + 1) 0
      some (rest.map (⟨line, column, length⟩ :: ·))

def decompose (start stop : Position) (lengths : List Int) :
    Option (Except RangeError (List LineRange)) :=
  if start.line < 1 ∨ start.column < 1 ∨ stop.column < 1 then
    some (.error (.badPositions start stop))
  else if stop.before start then some (.error (.reversedPositions start stop))
  else if lengths.length < stop.line then some (.error (.endLine stop.line lengths.length))
  else
    cover lengths stop.column (stop.line - start.line).toNat (start.line - 1) (start.column - 1)

end Checked

variable {lengths : List Int} {stopColumn line column n : Int} {more : Nat} {rs : List LineRange}

theorem exists_lengthAt? (h0 : 0 ≤ line) (h : line < lengths.length) :
    ∃ n, lengthAt? lengths line = some n := by
  refine ⟨lengths.get ⟨line.toNat, by omega⟩, ?_⟩
  rw [lengthAt?, if_neg (by omega)]
  exact List.getElem?_eq_getElem _

theorem nonneg_of_lengthAt? (h : lengthAt? lengths line = some n) : 0 ≤ line := by
  unfold lengthAt? at h
  split at h
  · cases h
  · omega

theorem drop_of_lengthAt? (h : lengthAt? lengths line = some n) :
    lengths.drop line.toNat = n :: lengths.drop (line + 1).toNat := by
  have h0 := nonneg_of_lengthAt? h
  rw [lengthAt?, if_neg (by omega)] at h
  obtain ⟨hlt, hn⟩ := List.getElem?_eq_some_iff.mp h
  have hsucc : (line + 1).toNat = line.toNat + 1 := by omega
  rw [List.drop_eq_getElem_cons hlt, hn, hsucc]

/-- The first of several lines is left at its end. -/
theorem cover_succ (h : lengthAt? lengths line = some n) :
    cover stopColumn (more + 1) line column (lengths.drop line.toNat) =
      if Integer.countDown n column < 0 then .error (.pastLineEnd line column)
      else (cover stopColumn more (line + 1) 0 (lengths.drop (line + 1).toNat)).map
        (⟨line, column, Integer.countDown n column⟩ :: ·) := by
  simp only [cover, drop_of_lengthAt? h, List.headD_cons, List.tail_cons]

theorem checked_cover (h0 : 0 ≤ line) (h : line + more ≤ lengths.length) :
    Checked.cover lengths stopColumn more line column =
      some (cover stopColumn more line column (lengths.drop line.toNat)) := by
  induction more generalizing line column with
  | zero => rfl
  | succ more ih =>
    obtain ⟨n, hn⟩ : ∃ n, lengthAt? lengths line = some n := exists_lengthAt? h0 (by omega)
    have hrest : Checked.cover lengths stopColumn more (line + 1) 0 =
        some (cover stopColumn more (line + 1) 0 (lengths.drop (line + 1).toNat)) :=
      ih (by omega) (by omega)
    simp only [Checked.cover, hn, hrest, Option.bind_eq_bind, Option.bind_some, cover_succ hn]
    split <;> rfl

theorem checked_decompose (start stop : Position) (lengths : List Int) :
    Checked.decompose start stop lengths = some (decompose start stop lengths) := by
  unfold Checked.decompose decompose
  split
  · rfl
  · split
    · rfl
    · rename_i hbefore
      rw [Bool.not_eq_true, Position.before_eq_false_iff] at hbefore
      split
      · rfl
      · exact checked_cover (by omega) (by omega)

/-! ## The ranges -/

/-- One range for each of the lines from `line` to `line + more`. Every one but the last ends with
its line, and the last ends before `stopColumn`. -/
structure Spread (lengths : List Int) (stopColumn : Int) (more : Nat) (line column : Int)
    (rs : List LineRange) : Prop where
  length_eq : rs.length = more + 1
  line_eq : ∀ (k : Nat) (r : LineRange), rs[k]? = some r → r.line = line + k
  column_eq : ∀ (k : Nat) (r : LineRange), rs[k]? = some r → r.column = if k = 0 then column else 0
  nonneg : ∀ r ∈ rs, 0 ≤ r.length
  full : ∀ (k : Nat) (r : LineRange), k < more → rs[k]? = some r →
    lengthAt? lengths r.line = some (r.column + r.length)
  last : ∀ r : LineRange, rs[more]? = some r → r.column + r.length = stopColumn - 1

theorem spread_zero_iff : Spread lengths stopColumn 0 line column rs ↔
    column ≤ stopColumn - 1 ∧ rs = [⟨line, column, stopColumn - 1 - column⟩] := by
  constructor
  · intro h
    obtain ⟨r, rfl⟩ := List.length_eq_one_iff.mp h.length_eq
    have hline := h.line_eq 0 r rfl
    have hcolumn := h.column_eq 0 r rfl
    have hlast := h.last r rfl
    have hnonneg := h.nonneg r (List.mem_singleton_self r)
    obtain ⟨line', column', length⟩ := r
    simp only [if_true] at hline hcolumn hlast hnonneg
    subst hcolumn
    refine ⟨by omega, ?_⟩
    simp only [List.cons.injEq, LineRange.mk.injEq, true_and, and_true]
    omega
  · rintro ⟨hle, rfl⟩
    have honly : ∀ {k : Nat} {r : LineRange},
        [LineRange.mk line column (stopColumn - 1 - column)][k]? = some r →
          k = 0 ∧ r = ⟨line, column, stopColumn - 1 - column⟩ := by
      intro k r hr
      cases k with
      | zero => exact ⟨rfl, (Option.some.inj hr).symm⟩
      | succ k => cases hr
    refine ⟨rfl, ?_, ?_, ?_, nofun, ?_⟩
    · intro k r hr
      obtain ⟨rfl, rfl⟩ := honly hr
      exact (Int.add_zero line).symm
    · intro k r hr
      obtain ⟨rfl, rfl⟩ := honly hr
      rfl
    · intro r hr
      obtain rfl := List.mem_singleton.mp hr
      simp only
      omega
    · intro r hr
      obtain ⟨-, rfl⟩ := honly hr
      simp only
      omega

theorem spread_succ_iff : Spread lengths stopColumn (more + 1) line column rs ↔
    ∃ n rest, lengthAt? lengths line = some n ∧ column ≤ n ∧
      Spread lengths stopColumn more (line + 1) 0 rest ∧
      rs = ⟨line, column, n - column⟩ :: rest := by
  constructor
  · intro h
    obtain ⟨r, rest, rfl⟩ := List.exists_cons_of_length_eq_add_one h.length_eq
    have hline := h.line_eq 0 r rfl
    have hcolumn := h.column_eq 0 r rfl
    have hfull := h.full 0 r (by omega) rfl
    have hnonneg := h.nonneg r List.mem_cons_self
    obtain ⟨line', column', length⟩ := r
    simp only [if_true, Int.natCast_zero, Int.add_zero] at hline hcolumn hfull hnonneg
    subst hline hcolumn
    refine ⟨column' + length, rest, hfull, by omega, ⟨?_, ?_, ?_, ?_, ?_, ?_⟩, ?_⟩
    · exact Nat.succ.inj h.length_eq
    · intro k r hr
      have := h.line_eq (k + 1) r hr
      omega
    · intro k r hr
      have := h.column_eq (k + 1) r hr
      rw [if_neg (Nat.succ_ne_zero k)] at this
      rw [this, ite_self]
    · exact fun r hr => h.nonneg r (List.mem_cons_of_mem _ hr)
    · exact fun k r hk hr => h.full (k + 1) r (by omega) hr
    · exact fun r hr => h.last r hr
    · have hlength : column' + length - column' = length := by omega
      rw [hlength]
  · rintro ⟨n, rest, hn, hle, hrest, rfl⟩
    refine ⟨?_, ?_, ?_, ?_, ?_, ?_⟩
    · rw [List.length_cons, hrest.length_eq]
    · intro k r hr
      cases k with
      | zero =>
        obtain rfl := Option.some.inj hr
        exact (Int.add_zero line).symm
      | succ k =>
        have := hrest.line_eq k r hr
        omega
    · intro k r hr
      cases k with
      | zero =>
        obtain rfl := Option.some.inj hr
        rfl
      | succ k =>
        have := hrest.column_eq k r hr
        rw [ite_self] at this
        rw [this, if_neg (Nat.succ_ne_zero k)]
    · intro r hr
      rcases List.mem_cons.mp hr with rfl | hr
      · simp only
        omega
      · exact hrest.nonneg r hr
    · intro k r hk hr
      cases k with
      | zero =>
        obtain rfl := Option.some.inj hr
        simp only [hn, Option.some.injEq]
        omega
      | succ k => exact hrest.full k r (by omega) hr
    · exact fun r hr => hrest.last r hr

/-- What is left of a line after a column is an integer of 64 bits, if it has to be known. -/
def RestFits (lengths : List Int) (more : Nat) (line column : Int) : Prop :=
  0 < more → ∀ n, lengthAt? lengths line = some n → Integer.least ≤ n - column

theorem mem_of_lengthAt? (h : lengthAt? lengths line = some n) : n ∈ lengths := by
  unfold lengthAt? at h
  split at h
  · cases h
  · exact List.mem_of_getElem? h

/-- Whole lines fit. -/
theorem restFits_zero (h : ∀ n ∈ lengths, Integer.least ≤ n) (more : Nat) (line : Int) :
    RestFits lengths more line 0 := by
  intro _ n hn
  rw [Int.sub_zero]
  exact h n (mem_of_lengthAt? hn)

/-- Along the lines, the loop gives exactly the ranges that `Spread` asks for. -/
theorem cover_eq_ok_iff (hlengths : ∀ n ∈ lengths, Integer.least ≤ n)
    (hfits : RestFits lengths more line column) (h0 : 0 ≤ line)
    (h : line + more ≤ lengths.length) :
    cover stopColumn more line column (lengths.drop line.toNat) = .ok rs ↔
      Spread lengths stopColumn more line column rs := by
  induction more generalizing line column rs with
  | zero =>
    have hlt : stopColumn - 1 - column < 0 ↔ ¬ column ≤ stopColumn - 1 := by omega
    simp only [cover, hlt, spread_zero_iff]
    split
    · rename_i hnot
      simp [hnot]
    · rename_i hle
      simp [Decidable.not_not.mp hle, eq_comm]
  | succ more ih =>
    obtain ⟨n, hn⟩ : ∃ n, lengthAt? lengths line = some n := exists_lengthAt? h0 (by omega)
    rw [cover_succ hn, Integer.countDown_of_le (hfits (Nat.succ_pos more) n hn), spread_succ_iff]
    split
    · rename_i hlt
      constructor
      · rintro ⟨⟩
      · rintro ⟨m, rest, hm, hle, -, -⟩
        obtain rfl : n = m := Option.some.inj (hn.symm.trans hm)
        omega
    · rename_i hle
      have hrest : ∀ rest,
          cover stopColumn more (line + 1) 0 (lengths.drop (line + 1).toNat) = .ok rest ↔
            Spread lengths stopColumn more (line + 1) 0 rest :=
        fun rest => ih (restFits_zero hlengths more _) (by omega) (by omega)
      constructor
      · intro hmap
        cases hc : cover stopColumn more (line + 1) 0 (lengths.drop (line + 1).toNat) with
        | error e =>
          rw [hc] at hmap
          cases hmap
        | ok rest =>
          rw [hc] at hmap
          exact ⟨n, rest, hn, by omega, (hrest rest).mp hc, (Except.ok.inj hmap).symm⟩
      · rintro ⟨m, rest, hm, -, hspread, rfl⟩
        obtain rfl : n = m := Option.some.inj (hn.symm.trans hm)
        rw [(hrest rest).mpr hspread]
        rfl

theorem exists_spread_iff : (∃ rs, Spread lengths stopColumn more line column rs) ↔
    (more = 0 → column ≤ stopColumn - 1) ∧
    (0 < more → ∃ n, lengthAt? lengths line = some n ∧ column ≤ n) ∧
    (∀ k : Nat, 0 < k → k < more → ∃ n, lengthAt? lengths (line + k) = some n ∧ 0 ≤ n) ∧
    (0 < more → 1 ≤ stopColumn) := by
  induction more generalizing line column with
  | zero => simp [spread_zero_iff]
  | succ more ih =>
    simp only [spread_succ_iff]
    constructor
    · rintro ⟨_, n, rest, hn, hle, hspread, -⟩
      obtain ⟨hzero, hfirst, hnext, hstop⟩ := ih.mp ⟨rest, hspread⟩
      refine ⟨nofun, fun _ => ⟨n, hn, hle⟩, ?_, ?_⟩
      · intro k hpos hk
        obtain ⟨k, rfl⟩ : ∃ j, k = j + 1 := ⟨k - 1, by omega⟩
        have hline : line + (k + 1 : Nat) = line + 1 + k := by omega
        rw [hline]
        rcases Nat.eq_zero_or_pos k with rfl | hk0
        · simpa using hfirst (by omega)
        · exact hnext k hk0 (by omega)
      · intro _
        rcases Nat.eq_zero_or_pos more with hm | hm
        · have := hzero hm
          omega
        · exact hstop hm
    · rintro ⟨-, hfirst, hnext, hstop⟩
      obtain ⟨n, hn, hle⟩ := hfirst (Nat.succ_pos more)
      have hpos := hstop (Nat.succ_pos more)
      have hrest : ∃ rest, Spread lengths stopColumn more (line + 1) 0 rest := by
        refine ih.mpr ⟨fun _ => by omega, fun hm => hnext 1 Nat.one_pos (by omega), ?_,
          fun _ => hpos⟩
        intro k hk0 hk
        have hline : line + 1 + (k : Int) = line + (k + 1 : Nat) := by omega
        rw [hline]
        exact hnext (k + 1) (Nat.succ_pos k) (by omega)
      obtain ⟨rest, hrest⟩ := hrest
      exact ⟨_, n, rest, hn, hle, hrest, rfl⟩

/-! ## Decompositions -/

/-- The checks made before any line is looked at. -/
structure Admitted (start stop : Position) (lengths : List Int) : Prop where
  start_line : 1 ≤ start.line
  start_column : 1 ≤ start.column
  stop_column : 1 ≤ stop.column
  not_before : stop.before start = false
  stop_line : stop.line ≤ lengths.length

/-- The positions that have a decomposition: of the lines before the last one, the first is long
enough for the start and the others have a length that is not negative. -/
structure Decomposable (start stop : Position) (lengths : List Int) : Prop extends
    Admitted start stop lengths where
  first : start.line < stop.line →
    ∃ n, lengthAt? lengths (start.line - 1) = some n ∧ start.column - 1 ≤ n
  between : ∀ line, start.line < line → line < stop.line →
    ∃ n, lengthAt? lengths (line - 1) = some n ∧ 0 ≤ n

variable {start stop : Position}

theorem decompose_of_admitted (h : Admitted start stop lengths) : decompose start stop lengths =
    cover stop.column (stop.line - start.line).toNat (start.line - 1) (start.column - 1)
      (lengths.drop (start.line - 1).toNat) := by
  have hline := h.start_line
  have hcolumn := h.start_column
  have hstop := h.stop_column
  have hcount := h.stop_line
  rw [decompose, if_neg (by omega), h.not_before, if_neg Bool.false_ne_true, if_neg (by omega)]

theorem admitted_of_decompose (h : decompose start stop lengths = .ok rs) :
    Admitted start stop lengths := by
  unfold decompose at h
  split at h
  · cases h
  · split at h
    · cases h
    · rename_i hbefore
      split at h
      · cases h
      · exact ⟨by omega, by omega, by omega, Bool.not_eq_true _ ▸ hbefore, by omega⟩

section Fits

variable (hlengths : ∀ n ∈ lengths, Integer.least ≤ n)
  (hfits : RestFits lengths (stop.line - start.line).toNat (start.line - 1) (start.column - 1))
include hlengths hfits

theorem decompose_eq_ok_iff : decompose start stop lengths = .ok rs ↔
    Admitted start stop lengths ∧ Spread lengths stop.column (stop.line - start.line).toNat
      (start.line - 1) (start.column - 1) rs := by
  have hcover : Admitted start stop lengths → (decompose start stop lengths = .ok rs ↔
      Spread lengths stop.column (stop.line - start.line).toNat (start.line - 1)
        (start.column - 1) rs) := by
    intro hadmitted
    have hline := hadmitted.start_line
    have hcount := hadmitted.stop_line
    have hbefore := Position.before_eq_false_iff.mp hadmitted.not_before
    rw [decompose_of_admitted hadmitted]
    exact cover_eq_ok_iff hlengths hfits (by omega) (by omega)
  constructor
  · intro h
    have hadmitted := admitted_of_decompose h
    exact ⟨hadmitted, (hcover hadmitted).mp h⟩
  · rintro ⟨hadmitted, hspread⟩
    exact (hcover hadmitted).mpr hspread

theorem exists_decompose_iff :
    (∃ rs, decompose start stop lengths = .ok rs) ↔ Decomposable start stop lengths := by
  simp only [decompose_eq_ok_iff hlengths hfits, exists_and_left, exists_spread_iff]
  constructor
  · rintro ⟨hadmitted, -, hfirst, hbetween, -⟩
    refine ⟨hadmitted, fun hlt => hfirst (by omega), ?_⟩
    intro line hlow hhigh
    have hline : start.line - 1 + (line - start.line).toNat = line - 1 := by omega
    rw [← hline]
    exact hbetween (line - start.line).toNat (by omega) (by omega)
  · intro h
    have hbefore := Position.before_eq_false_iff.mp h.not_before
    refine ⟨h.toAdmitted, ?_, fun hpos => h.first (by omega), ?_, fun _ => h.stop_column⟩
    · intro hzero
      omega
    · intro k hpos hlt
      have hline : start.line - 1 + (k : Int) = start.line + k - 1 := by omega
      rw [hline]
      exact h.between (start.line + k) (by omega) (by omega)

end Fits

/-- The range lies inside its line. -/
def Inside (lengths : List Int) (r : LineRange) : Prop :=
  0 ≤ r.column ∧ 0 ≤ r.length ∧ ∃ n, lengthAt? lengths r.line = some n ∧ r.column + r.length ≤ n

/-- Only the end of the last range is not held against the length of a line. -/
theorem Spread.inside_iff (h : Spread lengths stopColumn more line column rs) (hc : 0 ≤ column) :
    (∀ r ∈ rs, r.Inside lengths) ↔
      ∃ n, lengthAt? lengths (line + more) = some n ∧ stopColumn - 1 ≤ n := by
  have hcolumn : ∀ (k : Nat) (r : LineRange), rs[k]? = some r → 0 ≤ r.column := by
    intro k r hr
    rw [h.column_eq k r hr]
    split <;> omega
  obtain ⟨r, hr⟩ : ∃ r, rs[more]? = some r :=
    ⟨_, List.getElem?_eq_getElem (by rw [h.length_eq]; exact Nat.lt_succ_self more)⟩
  have hline := h.line_eq more r hr
  have hlast := h.last r hr
  constructor
  · intro hall
    obtain ⟨-, -, n, hn, hle⟩ := hall r (List.mem_of_getElem? hr)
    exact ⟨n, hline ▸ hn, by omega⟩
  · rintro ⟨n, hn, hle⟩ r' hr'
    obtain ⟨k, hk⟩ := List.mem_iff_getElem?.mp hr'
    refine ⟨hcolumn k r' hk, h.nonneg r' hr', ?_⟩
    rcases Nat.lt_or_ge k more with hlt | hge
    · exact ⟨_, h.full k r' hlt hk, Int.le_refl _⟩
    · have hlen : k < more + 1 := by
        obtain ⟨hlt, -⟩ := List.getElem?_eq_some_iff.mp hk
        rwa [h.length_eq] at hlt
      obtain rfl : k = more := by omega
      obtain rfl : r = r' := Option.some.inj (hr.symm.trans hk)
      exact ⟨n, hline.symm ▸ hn, by omega⟩

/-- A decomposition exists exactly for decomposable positions, no length is looked up that is not
there, and every refusal says that an offset is out of range. There is one range for each line, and
all of them lie inside their lines exactly when the stop position does. This is so for all lengths
of 64 bits, unless counting down from the length of the first line leaves the range. -/
theorem decompose_exact (start stop : Position) (lengths : List Int)
    (hlengths : ∀ n ∈ lengths, Integer.least ≤ n)
    (hfirst : start.line < stop.line → ∀ n, lengthAt? lengths (start.line - 1) = some n →
      Integer.least ≤ n - (start.column - 1)) :
    ((∃ rs, decompose start stop lengths = .ok rs) ↔ Decomposable start stop lengths) ∧
    (¬ Decomposable start stop lengths → ∃ err, decompose start stop lengths = .error err ∧
      err.message = err.detail ++ ": offset out of range") ∧
    Checked.decompose start stop lengths = some (decompose start stop lengths) ∧
    ∀ rs, decompose start stop lengths = .ok rs →
      Spread lengths stop.column (stop.line - start.line).toNat (start.line - 1)
        (start.column - 1) rs ∧
      ((∀ r ∈ rs, r.Inside lengths) ↔
        ∃ n, lengthAt? lengths (stop.line - 1) = some n ∧ stop.column - 1 ≤ n) := by
  have hfits : RestFits lengths (stop.line - start.line).toNat (start.line - 1)
      (start.column - 1) := fun hpos => hfirst (by omega)
  have hexists := exists_decompose_iff hlengths hfits
  refine ⟨hexists, ?_, checked_decompose start stop lengths, ?_⟩
  · intro hnot
    cases hd : decompose start stop lengths with
    | ok rs => exact absurd (hexists.mp ⟨rs, hd⟩) hnot
    | error err => exact ⟨err, rfl, rfl⟩
  · intro rs h
    obtain ⟨hadmitted, hspread⟩ := (decompose_eq_ok_iff hlengths hfits).mp h
    have hcolumn := hadmitted.start_column
    have hbefore := Position.before_eq_false_iff.mp hadmitted.not_before
    have hline : start.line - 1 + ((stop.line - start.line).toNat : Int) = stop.line - 1 := by
      omega
    refine ⟨hspread, ?_⟩
    rw [← hline]
    exact hspread.inside_iff (by omega)

/-- The stop is past the end of its line, which has the least length there is. It is let through,
and the last range does not lie inside its line. -/
theorem decompose_exact_unchecked_stop :
    let lengths := [3, 0, Integer.least]
    decompose ⟨1, 2⟩ ⟨3, 9⟩ lengths = .ok [⟨0, 1, 2⟩, ⟨1, 0, 0⟩, ⟨2, 0, 8⟩] ∧
    Decomposable ⟨1, 2⟩ ⟨3, 9⟩ lengths ∧ ¬ ∀ r ∈ [⟨0, 1, 2⟩, ⟨1, 0, 0⟩, ⟨2, 0, 8⟩],
      Inside lengths r := by
  intro lengths
  have hrun : decompose ⟨1, 2⟩ ⟨3, 9⟩ lengths = .ok [⟨0, 1, 2⟩, ⟨1, 0, 0⟩, ⟨2, 0, 8⟩] := rfl
  obtain ⟨hexists, -, -, hranges⟩ := decompose_exact ⟨1, 2⟩ ⟨3, 9⟩ lengths (by decide)
    (by rintro - n ⟨⟩; decide)
  refine ⟨hrun, hexists.mp ⟨_, hrun⟩, ?_⟩
  rw [(hranges _ hrun).2]
  rintro ⟨n, ⟨⟩, hle⟩
  exact absurd hle (by decide)

/-- Counting down from the least length by one gives the greatest integer, so a start past the end
of its line is let through. -/
theorem decompose_below_least :
    decompose ⟨1, 2⟩ ⟨2, 1⟩ [Integer.least, 5] = .ok [⟨0, 1, Integer.greatest⟩, ⟨1, 0, 0⟩] ∧
    ¬ Decomposable ⟨1, 2⟩ ⟨2, 1⟩ [Integer.least, 5] := by
  refine ⟨rfl, fun h => ?_⟩
  obtain ⟨n, ⟨⟩, hle⟩ := h.first (by decide)
  exact absurd hle (by decide)

end LineRange

end DocTokens
