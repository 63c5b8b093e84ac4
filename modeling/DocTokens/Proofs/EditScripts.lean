import DocTokens.Diff.Report
import DocTokens.Proofs.Lines
import Mathlib.Data.List.Basic
import Mathlib.Data.List.TakeWhile

/-! # Edit scripts

The search remembers for every number of edits how far each diagonal is reached, also past the ends
of the lists. `level` is what it remembers. A diagonal that is reached past an end was already
passed with one edit less, so the first point that uses up both lists is their common end. From
there the search is retraced inside of the lists, and the script turns the one into the other.
-/

namespace DocTokens.EditScript

variable {α : Type} [BEq α] {a b : Array α} {d : Nat} {k x : Int}

/-! ## Diagonals -/

/-- The diagonal can be reached with `d` edits. -/
def Within (d : Nat) (k : Int) : Prop := -d ≤ k ∧ k ≤ d ∧ (k + d) % 2 = 0

theorem mem_diagonals_iff : k ∈ diagonals d ↔ Within d k := by
  simp only [diagonals, List.mem_map, List.mem_range, Within]
  constructor
  · rintro ⟨i, hi, rfl⟩
    omega
  · rintro ⟨hlo, hhi, hparity⟩
    exact ⟨((k + d) / 2).toNat, by omega, by omega⟩

/-- Diagonal `k` is entered by an insertion with the `d`-th edit. -/
def Inserts (reached : Int → Int) (d : Nat) (k : Int) : Prop :=
  k = -d ∨ k ≠ d ∧ reached (k - 1) < reached (k + 1)

instance (reached : Int → Int) (d : Nat) (k : Int) : Decidable (Inserts reached d k) :=
  inferInstanceAs (Decidable (_ ∨ _))

/-- Where diagonal `k` is entered with the `d`-th edit, from how far the others are reached. -/
def entry (reached : Int → Int) (d : Nat) (k : Int) : Int :=
  if Inserts reached d k then reached (k + 1) else reached (k - 1) + 1

/-- Both ways to enter a diagonal, and that the one taken is the better one. -/
theorem entry_cases (reached : Int → Int) (h : Within (d + 1) k) :
    (Within d (k + 1) → reached (k + 1) ≤ entry reached (d + 1) k) ∧
    (Within d (k - 1) → reached (k - 1) + 1 ≤ entry reached (d + 1) k) ∧
    (Within d (k + 1) ∧ entry reached (d + 1) k = reached (k + 1) ∨
      Within d (k - 1) ∧ entry reached (d + 1) k = reached (k - 1) + 1) := by
  obtain ⟨hlo, hhi, hparity⟩ := h
  unfold entry Within
  split
  · rename_i hinsert
    unfold Inserts at hinsert
    exact ⟨by omega, by omega, .inl ⟨by omega, rfl⟩⟩
  · rename_i hinsert
    unfold Inserts at hinsert
    exact ⟨by omega, by omega, .inr ⟨by omega, rfl⟩⟩

/-- Only the diagonals that one edit less leads to matter. -/
theorem inserts_congr {reached reached' : Int → Int}
    (h : ∀ k, Within d k → reached k = reached' k) (hk : Within (d + 1) k) :
    (Inserts reached (d + 1) k ↔ Inserts reached' (d + 1) k) ∧
      entry reached (d + 1) k = entry reached' (d + 1) k := by
  obtain ⟨hlo, hhi, hparity⟩ := hk
  have habove : k ≠ (d + 1 : Nat) → reached (k + 1) = reached' (k + 1) :=
    fun hne => h _ ⟨by omega, by omega, by omega⟩
  have hbelow : k ≠ -(d + 1 : Nat) → reached (k - 1) = reached' (k - 1) :=
    fun hne => h _ ⟨by omega, by omega, by omega⟩
  have hiff : Inserts reached (d + 1) k ↔ Inserts reached' (d + 1) k := by
    unfold Inserts
    omega
  refine ⟨hiff, ?_⟩
  unfold entry
  simp only [hiff]
  split
  · rename_i hinsert
    unfold Inserts at hinsert
    exact habove (by omega)
  · rename_i hinsert
    unfold Inserts at hinsert
    rw [hbelow (by omega)]

/-! ## Runs of equal elements -/

/-- Along diagonal `k` the lists have the same elements from `x` up to `y`. -/
def Agree (a b : Array α) (k x y : Int) : Prop :=
  ∀ i, x ≤ i → i < y → 0 ≤ i ∧ 0 ≤ i - k ∧
    ∃ p, a[i.toNat]? = some p ∧ b[(i - k).toNat]? = some p

section Slides

variable [LawfulBEq α]

theorem slide_spec (a b : Array α) (k : Int) (fuel : Nat) (x : Int) :
    x ≤ slide a b k fuel x ∧ Agree a b k x (slide a b k fuel x) := by
  induction fuel generalizing x with
  | zero => exact ⟨Int.le_refl x, fun i hlo hhi => absurd hlo (Int.not_le.mpr hhi)⟩
  | succ fuel ih =>
    rw [slide]
    have hstop : x ≤ x ∧ Agree a b k x x :=
      ⟨Int.le_refl x, fun i hlo hhi => absurd hlo (Int.not_le.mpr hhi)⟩
    split
    · rename_i p q hp hq
      split
      · rename_i hsame
        obtain ⟨hx, hy, hpq⟩ := hsame
        obtain ⟨hle, hagree⟩ := ih (x + 1)
        refine ⟨by omega, fun i hlo hhi => ?_⟩
        rcases Int.lt_or_eq_of_le hlo with hlt | rfl
        · exact hagree i hlt hhi
        · exact ⟨hx, hy, p, hp, by rw [hq, eq_of_beq hpq]⟩
      · exact hstop
    · exact hstop

/-- A slide ends where it starts or inside of both lists. -/
theorem slide_cases (a b : Array α) (k : Int) (fuel : Nat) (x : Int) :
    slide a b k fuel x = x ∨ slide a b k fuel x ≤ a.size ∧ slide a b k fuel x - k ≤ b.size := by
  obtain ⟨hle, hagree⟩ := slide_spec a b k fuel x
  rcases Int.lt_or_eq_of_le hle with hlt | heq
  · obtain ⟨hx, hy, p, hp, hq⟩ := hagree (slide a b k fuel x - 1) (by omega) (by omega)
    obtain ⟨ha, -⟩ := Array.getElem?_eq_some_iff.mp hp
    obtain ⟨hb, -⟩ := Array.getElem?_eq_some_iff.mp hq
    exact .inr ⟨by omega, by omega⟩
  · exact .inl heq.symm

/-- A list agrees with itself to its end. -/
theorem slide_self (a : Array α) {fuel : Nat} (hx : 0 ≤ x) (hle : x ≤ a.size)
    (hfuel : a.size < x + fuel) : slide a a 0 fuel x = a.size := by
  induction fuel generalizing x with
  | zero => omega
  | succ fuel ih =>
    rw [slide, Int.sub_zero]
    rcases Int.lt_or_eq_of_le hle with hlt | rfl
    · have hin : x.toNat < a.size := by omega
      rw [Array.getElem?_eq_getElem hin]
      simp only [hx, beq_self_eq_true, and_self, if_true]
      exact ih (by omega) (by omega) (by omega)
    · simp

end Slides

/-! ## Levels -/

/-- How far a diagonal is reached with `d` edits. -/
def level (a b : Array α) : Nat → Int → Int
  | 0, k => slide a b k (a.size + 1) 0
  | d + 1, k => slide a b k (a.size + 1) (entry (level a b d) (d + 1) k)

/-- Both lists are used up with `d` edits on diagonal `k`. -/
def Done (a b : Array α) (d : Nat) (k : Int) : Prop :=
  a.size ≤ level a b d k ∧ b.size ≤ level a b d k - k

section Levels

variable [LawfulBEq α]

/-- Every edit uses up one element more. -/
theorem level_bounds (h : Within d k) :
    0 ≤ level a b d k ∧ 0 ≤ level a b d k - k ∧ d ≤ 2 * level a b d k - k := by
  induction d generalizing k with
  | zero =>
    have hle := (slide_spec a b k (a.size + 1) 0).1
    obtain ⟨hlo, hhi, -⟩ := h
    rw [level]
    omega
  | succ d ih =>
    have hle := (slide_spec a b k (a.size + 1) (entry (level a b d) (d + 1) k)).1
    rw [level]
    obtain ⟨-, -, ⟨hk, heq⟩ | ⟨hk, heq⟩⟩ := entry_cases (level a b d) h
    · have := ih hk
      omega
    · have := ih hk
      omega

/-- With one edit more the diagonals beside a diagonal are reached at least one step further. -/
theorem le_level_succ (h : Within (d + 1) k) :
    (Within d (k + 1) → level a b d (k + 1) ≤ level a b (d + 1) k) ∧
      (Within d (k - 1) → level a b d (k - 1) + 1 ≤ level a b (d + 1) k) := by
  have hle := (slide_spec a b k (a.size + 1) (entry (level a b d) (d + 1) k)).1
  obtain ⟨habove, hbelow, -⟩ := entry_cases (level a b d) h
  exact ⟨fun hk => Int.le_trans (habove hk) hle, fun hk => Int.le_trans (hbelow hk) hle⟩

/-- A point that is past the end of a list is reached without a slide. -/
theorem level_succ_of_past
    (hpast : a.size < level a b (d + 1) k ∨ b.size < level a b (d + 1) k - k) :
    level a b (d + 1) k = entry (level a b d) (d + 1) k := by
  have hslide := slide_cases a b k (a.size + 1) (entry (level a b d) (d + 1) k)
  rw [level] at hpast ⊢
  omega

/-- A diagonal that is reached past the end of the first list was passed with one edit less. -/
theorem level_past_source (h : Within d k) (hpast : a.size < level a b d k) :
    ∃ e, d = e + 1 ∧ Within e (k - 1) ∧ level a b d k - 1 ≤ level a b e (k - 1) := by
  induction d generalizing k with
  | zero =>
    have hslide := slide_cases a b k (a.size + 1) 0
    rw [level] at hpast
    omega
  | succ d ih =>
    have hentry := level_succ_of_past (.inl hpast)
    refine ⟨d, rfl, ?_⟩
    obtain ⟨-, -, ⟨hk, heq⟩ | ⟨hk, heq⟩⟩ := entry_cases (level a b d) h
    · -- the edit before was an insertion; the diagonal it left had been passed in turn
      obtain ⟨e, rfl, he, hle⟩ := ih hk (by omega)
      have hwithin : Within (e + 1) (k - 1) := by
        unfold Within at *
        omega
      have hnext := (le_level_succ (a := a) (b := b) hwithin).1
      rw [Int.add_sub_cancel] at he hle
      rw [Int.sub_add_cancel] at hnext
      have := hnext he
      exact ⟨hwithin, by omega⟩
    · exact ⟨hk, by omega⟩

/-- The same for the second list. -/
theorem level_past_target (h : Within d k) (hpast : b.size < level a b d k - k) :
    ∃ e, d = e + 1 ∧ Within e (k + 1) ∧ level a b d k ≤ level a b e (k + 1) := by
  induction d generalizing k with
  | zero =>
    have hslide := slide_cases a b k (a.size + 1) 0
    obtain ⟨hlo, hhi, -⟩ := h
    rw [level] at hpast
    omega
  | succ d ih =>
    have hentry := level_succ_of_past (.inr hpast)
    refine ⟨d, rfl, ?_⟩
    obtain ⟨-, -, ⟨hk, heq⟩ | ⟨hk, heq⟩⟩ := entry_cases (level a b d) h
    · exact ⟨hk, by omega⟩
    · obtain ⟨e, rfl, he, hle⟩ := ih hk (by omega)
      have hwithin : Within (e + 1) (k + 1) := by
        unfold Within at *
        omega
      have hnext := (le_level_succ (a := a) (b := b) hwithin).2
      rw [Int.sub_add_cancel] at he hle
      rw [Int.add_sub_cancel] at hnext
      have := hnext he
      exact ⟨hwithin, by omega⟩

/-- The first point that uses up both lists is their common end. -/
theorem eq_of_done (hfirst : ∀ e < d, ∀ k, Within e k → ¬ Done a b e k) (h : Within d k)
    (hdone : Done a b d k) : level a b d k = a.size ∧ k = a.size - b.size := by
  obtain ⟨hsource, htarget⟩ := hdone
  have hx : ¬ (a.size : Int) < level a b d k := by
    intro hpast
    obtain ⟨e, rfl, hk, hle⟩ := level_past_source h hpast
    exact hfirst e (by omega) _ hk ⟨by omega, by omega⟩
  have hy : ¬ (b.size : Int) < level a b d k - k := by
    intro hpast
    obtain ⟨e, rfl, hk, hle⟩ := level_past_target h hpast
    exact hfirst e (by omega) _ hk ⟨by omega, by omega⟩
  omega

/-- Both lists are used up with as many edits as they have elements. -/
theorem exists_done (a b : Array α) :
    Within (a.size + b.size) (a.size - b.size) ∧
      Done a b (a.size + b.size) (a.size - b.size) := by
  have hwithin : Within (a.size + b.size) (a.size - b.size) := by
    unfold Within
    omega
  have hbounds := level_bounds (a := a) (b := b) hwithin
  exact ⟨hwithin, by omega, by omega⟩

end Levels

/-! ## What is remembered -/

/-- There is a place for every diagonal that `bound` edits lead to, and for those beside them. -/
structure Reach.Sized (bound : Nat) (r : Reach) : Prop where
  offset_eq : r.offset = bound + 1
  size_eq : r.ends.size = 2 * (bound + 1) + 1

/-- What the search knows before the `d`-th edit. -/
def Reach.Prior (a b : Array α) (r : Reach) : Nat → Prop
  | 0 => r.get 1 = 0
  | d + 1 => ∀ k, Within d k → r.get k = level a b d k

section Reach

variable {bound : Nat} {r : Reach} {k' : Int}

theorem Reach.Sized.set (h : r.Sized bound) (k x : Int) : (r.set k x).Sized bound where
  offset_eq := h.offset_eq
  size_eq := by rw [Reach.set, Array.size_setIfInBounds, h.size_eq]

theorem Reach.Sized.get_set (h : r.Sized bound) (hd : d ≤ bound) (hk : Within d k) (x : Int)
    (hk' : -(bound + 1 : Nat) ≤ k') : (r.set k x).get k' = if k' = k then x else r.get k' := by
  obtain ⟨hlo, hhi, -⟩ := hk
  have hin : (k + r.offset).toNat < r.ends.size := by
    rw [h.offset_eq, h.size_eq]
    omega
  have hsame : (k + r.offset).toNat = (k' + r.offset).toNat ↔ k' = k := by
    rw [h.offset_eq]
    omega
  simp only [get, Reach.set, Array.getD_eq_getD_getElem?, Array.getElem?_setIfInBounds, hsame, hin]
  split
  · simp_all
  · rfl

theorem entersByInsert_iff : r.entersByInsert d k = true ↔ Inserts r.get d k := by
  simp [Reach.entersByInsert, Inserts]

/-- One more edit takes what is known to the next level. -/
theorem Reach.Prior.slide_eq (h : r.Prior a b d) (hk : Within d k) :
    slide a b k (a.size + 1) (entry r.get d k) = level a b d k := by
  cases d with
  | zero =>
    have hzero : k = 0 := by
      unfold Within at hk
      omega
    subst hzero
    rw [level, entry, if_pos (.inl rfl)]
    exact congrArg _ h
  | succ d =>
    rw [level, (inserts_congr h hk).2]

theorem Reach.Prior.set (h : r.Prior a b d) (hsized : r.Sized bound) (hd : d ≤ bound)
    (hk : Within d k) (x : Int) : (r.set k x).Prior a b d := by
  unfold Within at hk
  cases d with
  | zero =>
    rw [Reach.Prior, hsized.get_set hd hk x (by omega), if_neg (by omega)]
    exact h
  | succ d =>
    intro k' hk'
    have hk'' := hk'
    unfold Within at hk''
    rw [hsized.get_set hd hk x (by omega), if_neg (by omega)]
    exact h k' hk'

/-- Extending diagonals one after another brings each to its level, until both lists are used up. -/
theorem extend_spec {ks : List Int} (hsized : r.Sized bound) (hd : d ≤ bound)
    (hprior : r.Prior a b d) (hks : ∀ k ∈ ks, Within d k) :
    let extended := extend a b d ks r
    extended.1.Sized bound ∧ extended.1.Prior a b d ∧
    (∀ k, Within d k → r.get k = level a b d k → extended.1.get k = level a b d k) ∧
    (extended.2 = false → ∀ k ∈ ks, extended.1.get k = level a b d k ∧ ¬ Done a b d k) ∧
    (extended.2 = true → ∃ k ∈ ks, extended.1.get k = level a b d k ∧ Done a b d k) := by
  induction ks generalizing r with
  | nil => exact ⟨hsized, hprior, fun _ _ h => h, by simp [extend], by simp [extend]⟩
  | cons k ks ih =>
    obtain ⟨hk, hks⟩ := List.forall_mem_cons.mp hks
    have hstart : slide a b k (a.size + 1)
        (if r.entersByInsert d k then r.get (k + 1) else r.get (k - 1) + 1) = level a b d k := by
      rw [← hprior.slide_eq hk, entry]
      simp only [entersByInsert_iff]
    have hsized' := hsized.set k (level a b d k)
    have hprior' := hprior.set hsized hd hk (level a b d k)
    have hget : ∀ k', Within d k' → k' = k ∨ r.get k' = level a b d k' →
        (r.set k (level a b d k)).get k' = level a b d k' := by
      intro k' hk' h
      rw [hsized.get_set hd hk _ (by unfold Within at hk'; omega)]
      split
      · rename_i heq
        rw [heq]
      · rename_i hne
        exact h.resolve_left hne
    rw [extend]
    simp only [hstart]
    split
    · rename_i hdone
      refine ⟨hsized', hprior', fun k' hk' h => hget k' hk' (.inr h), by simp, fun _ => ?_⟩
      exact ⟨k, List.mem_cons_self, hget k hk (.inl rfl), hdone⟩
    · rename_i hdone
      obtain ⟨hsized'', hprior'', hkept, hnone, hsome⟩ := ih hsized' hprior' hks
      refine ⟨hsized'', hprior'', fun k' hk' h => hkept k' hk' (hget k' hk' (.inr h)), ?_, ?_⟩
      · intro hfalse k' hk'
        rcases List.mem_cons.mp hk' with rfl | hmem
        · exact ⟨hkept _ hk (hget _ hk (.inl rfl)), hdone⟩
        · exact hnone hfalse k' hmem
      · intro htrue
        obtain ⟨k', hmem, h⟩ := hsome htrue
        exact ⟨k', List.mem_cons_of_mem _ hmem, h⟩

end Reach

/-- What was reached after each number of edits, the last first. -/
def Trace (a b : Array α) : List Reach → Prop
  | [] => True
  | r :: rest => r.Prior a b rest.length ∧
    (∀ k, Within rest.length k → r.get k = level a b rest.length k) ∧ Trace a b rest

/-- The search ends at the common end of both lists. -/
theorem explore_spec [LawfulBEq α] {bound fuel : Nat} {r : Reach} {reached : List Reach}
    (hsized : r.Sized bound) (hprior : r.Prior a b reached.length) (htrace : Trace a b reached)
    (hfirst : ∀ e < reached.length, ∀ k, Within e k → ¬ Done a b e k)
    (hbound : reached.length + fuel ≤ bound + 1) (hfuel : a.size + b.size < reached.length + fuel) :
    ∃ r' rest, explore a b fuel reached.length r reached = r' :: rest ∧ Trace a b rest ∧
      r'.Prior a b rest.length ∧ Within rest.length (a.size - b.size) ∧
      r'.get (a.size - b.size) = a.size ∧ level a b rest.length (a.size - b.size) = a.size := by
  induction fuel generalizing r reached with
  | zero =>
    obtain ⟨hwithin, hdone⟩ := exists_done a b
    exact absurd hdone (hfirst _ hfuel _ hwithin)
  | succ fuel ih =>
    obtain ⟨hsized', hprior', -, hnone, hsome⟩ := extend_spec hsized (by omega) hprior
      (fun k hk => mem_diagonals_iff.mp hk)
    rw [explore]
    cases hstop : (extend a b reached.length (diagonals reached.length) r).2 with
    | true =>
      obtain ⟨k, hk, hget, hdone⟩ := hsome hstop
      rw [mem_diagonals_iff] at hk
      obtain ⟨hlevel, rfl⟩ := eq_of_done hfirst hk hdone
      simp only [hstop, if_true]
      exact ⟨_, _, rfl, htrace, hprior', hk, hget.trans hlevel, hlevel⟩
    | false =>
      have hfull := fun k hk => hnone hstop k (mem_diagonals_iff.mpr hk)
      have hlevel := fun k hk => (hfull k hk).1
      simp only [hstop, Bool.false_eq_true, if_false]
      generalize (extend a b reached.length (diagonals reached.length) r).1 = r' at *
      have hnext : r'.Prior a b (r' :: reached).length := hlevel
      have htrace' : Trace a b (r' :: reached) := ⟨hprior', hlevel, htrace⟩
      refine ih hsized' hnext htrace' ?_ ?_ ?_
      · intro e he k hk
        rcases Nat.lt_succ_iff_lt_or_eq.mp he with hlt | rfl
        · exact hfirst e hlt k hk
        · exact (hfull k hk).2
      · simp only [List.length_cons]
        omega
      · simp only [List.length_cons]
        omega

/-! ## The way back -/

section Scripts

variable {β : Type} {l : List β} {y : Int}

theorem take_append_take_drop (hx : 0 ≤ x) (hxy : x ≤ y) :
    l.take x.toNat ++ (l.drop x.toNat).take (y - x).toNat = l.take y.toNat := by
  rw [← List.take_add]
  congr 1
  omega

theorem take_append_getElem? (hx : 0 ≤ x) :
    l.take x.toNat ++ l[x.toNat]?.toList = l.take (x + 1).toNat := by
  rw [← List.take_add_one]
  congr 1
  omega

theorem sources_append (steps steps' : List (Edit β)) :
    Edit.sources (steps ++ steps') = Edit.sources steps ++ Edit.sources steps' :=
  List.filterMap_append

theorem targets_append (steps steps' : List (Edit β)) :
    Edit.targets (steps ++ steps') = Edit.targets steps ++ Edit.targets steps' :=
  List.filterMap_append

theorem sources_keep (l : List β) : Edit.sources (l.map .keep) = l := by
  induction l with
  | nil => rfl
  | cons c l ih => exact congrArg (c :: ·) ih

theorem targets_keep (l : List β) : Edit.targets (l.map .keep) = l := by
  induction l with
  | nil => rfl
  | cons c l ih => exact congrArg (c :: ·) ih

/-- One edit changes one of the lists. -/
theorem sources_edit (o : Option β) :
    Edit.sources (o.map Edit.insert).toList = [] ∧
    Edit.targets (o.map Edit.insert).toList = o.toList ∧
      Edit.sources (o.map Edit.delete).toList = o.toList ∧
      Edit.targets (o.map Edit.delete).toList = [] := by
  cases o <;> exact ⟨rfl, rfl, rfl, rfl⟩

end Scripts

/-- Elements that agree are the same on both sides. -/
theorem Agree.take_drop_eq {β : Type} {a b : Array β} {k x y : Int} (h : Agree a b k x y)
    (hx : 0 ≤ x) (hy : 0 ≤ x - k) : (a.toList.drop x.toNat).take (y - x).toNat =
      (b.toList.drop (x - k).toNat).take (y - x).toNat := by
  refine List.ext_getElem? fun i => ?_
  simp only [List.getElem?_take, List.getElem?_drop, Array.getElem?_toList]
  split
  · rename_i hi
    obtain ⟨-, -, p, hp, hq⟩ := h (x + i) (by omega) (by omega)
    have hleft : x.toNat + i = (x + i).toNat := by omega
    have hright : (x - k).toNat + i = (x + i - k).toNat := by omega
    rw [hleft, hright, hp, hq]
  · rfl

/-- Elements that are kept lead from `x` to `y` in both lists. -/
theorem Agree.take_append_kept {β : Type} {a b : Array β} {k x y : Int} (h : Agree a b k x y)
    (hx : 0 ≤ x) (hy : 0 ≤ x - k) (hxy : x ≤ y) :
    a.toList.take x.toNat ++ (a.toList.drop x.toNat).take (y - x).toNat = a.toList.take y.toNat ∧
      b.toList.take (x - k).toNat ++ (a.toList.drop x.toNat).take (y - x).toNat =
        b.toList.take (y - k).toNat := by
  refine ⟨take_append_take_drop hx hxy, ?_⟩
  have hwidth : y - x = y - k - (x - k) := by omega
  rw [h.take_drop_eq hx hy, hwidth, take_append_take_drop hy (by omega)]

/-- One step back: the edit, then the elements kept after it. -/
theorem retrace_cons_cons {β : Type} (a b : Array β) (x k : Int) (r r' : Reach) (rest : List Reach)
    (steps : List (Edit β)) : retrace a b x k (r :: r' :: rest) steps =
      if r.entersByInsert (rest.length + 1) k then
        retrace a b (r.get (k + 1)) (k + 1) (r' :: rest)
          ((b[(r.get (k + 1) - (k + 1)).toNat]?.map Edit.insert).toList ++
            ((a.toList.drop (r.get (k + 1)).toNat).take
              (r.get k - r.get (k + 1)).toNat).map .keep ++
            steps)
      else
        retrace a b (r.get (k - 1)) (k - 1) (r' :: rest)
          ((a[(r.get (k - 1)).toNat]?.map Edit.delete).toList ++
            ((a.toList.drop (r.get (k - 1) + 1).toNat).take
              (r.get k - (r.get (k - 1) + 1)).toNat).map .keep ++ steps) := by
  rw [retrace]
  · rfl
  · simp

/-- Retracing gives the script from what is used up of the one list to what is used up of the
other. -/
theorem retrace_spec [LawfulBEq α] {r : Reach} {rest : List Reach}
    (hprior : r.Prior a b rest.length) (htrace : Trace a b rest) (hk : Within rest.length k)
    (hget : r.get k = level a b rest.length k) (hsource : level a b rest.length k ≤ a.size)
    (htarget : level a b rest.length k - k ≤ b.size) (steps : List (Edit α)) :
    Edit.sources (retrace a b (level a b rest.length k) k (r :: rest) steps) =
        a.toList.take (level a b rest.length k).toNat ++ Edit.sources steps ∧
      Edit.targets (retrace a b (level a b rest.length k) k (r :: rest) steps) =
        b.toList.take (level a b rest.length k - k).toNat ++ Edit.targets steps := by
  induction rest generalizing r k steps with
  | nil =>
    have hzero : k = 0 := by
      unfold Within at hk
      simp only [List.length_nil] at hk
      omega
    subst hzero
    obtain ⟨hle, hagree⟩ := slide_spec a b 0 (a.size + 1) 0
    have hkept := (hagree.take_append_kept (Int.le_refl 0) (Int.le_refl 0) hle).2
    simp only [Int.sub_zero, Int.toNat_zero, List.take_zero, List.nil_append,
      List.drop_zero] at hkept
    rw [retrace, sources_append, targets_append, sources_keep, targets_keep, Int.sub_zero]
    exact ⟨rfl, congrArg (· ++ Edit.targets steps) hkept⟩
  | cons r' rest ih =>
    obtain ⟨hprior', hfull, htrace⟩ := htrace
    obtain ⟨hinserts, -⟩ := inserts_congr hprior hk
    obtain ⟨hle, hagree⟩ :=
      slide_spec a b k (a.size + 1) (entry (level a b rest.length) (rest.length + 1) k)
    have hlevel : level a b (r' :: rest).length k = slide a b k (a.size + 1)
      (entry (level a b rest.length) (rest.length + 1) k) := rfl
    rw [← hlevel] at hle hagree
    generalize level a b (r' :: rest).length k = last at *
    have hbounds := hk
    unfold Within at hbounds
    simp only [List.length_cons] at hbounds
    rw [retrace_cons_cons, hget]
    split
    · rename_i henters
      rw [entersByInsert_iff, hinserts] at henters
      rw [entry, if_pos henters] at hle hagree
      unfold Inserts at henters
      have hk' : Within rest.length (k + 1) := ⟨by omega, by omega, by omega⟩
      obtain ⟨hx, hy, -⟩ := level_bounds (a := a) (b := b) hk'
      have hrest := ih hprior' htrace hk' (hfull _ hk') (by omega) (by omega)
      rw [hprior _ hk']
      generalize level a b rest.length (k + 1) = start at *
      obtain ⟨hsources, htargets⟩ := hagree.take_append_kept hx (by omega) hle
      have hedit : start - (k + 1) + 1 = start - k := by omega
      constructor
      · rw [(hrest _).1, sources_append, sources_append, (sources_edit _).1, sources_keep,
          List.nil_append, ← List.append_assoc, hsources]
      · rw [(hrest _).2, targets_append, targets_append, (sources_edit _).2.1, targets_keep,
          ← Array.getElem?_toList, ← List.append_assoc, ← List.append_assoc,
          take_append_getElem? hy, hedit, htargets]
    · rename_i henters
      rw [entersByInsert_iff, hinserts] at henters
      rw [entry, if_neg henters] at hle hagree
      unfold Inserts at henters
      have hk' : Within rest.length (k - 1) := ⟨by omega, by omega, by omega⟩
      obtain ⟨hx, hy, -⟩ := level_bounds (a := a) (b := b) hk'
      have hrest := ih hprior' htrace hk' (hfull _ hk') (by omega) (by omega)
      rw [hprior _ hk']
      generalize level a b rest.length (k - 1) = start at *
      obtain ⟨hsources, htargets⟩ := hagree.take_append_kept (by omega) (by omega) hle
      have hedit : start - (k - 1) = start + 1 - k := by omega
      constructor
      · rw [(hrest _).1, sources_append, sources_append, (sources_edit _).2.2.1, sources_keep,
          ← Array.getElem?_toList, ← List.append_assoc, ← List.append_assoc,
          take_append_getElem? hx, hsources]
      · rw [(hrest _).2, targets_append, targets_append, (sources_edit _).2.2.2, targets_keep,
          List.nil_append, ← List.append_assoc, hedit, htargets]

theorem get_empty (offset : Nat) (k : Int) : (Reach.empty offset).get k = 0 := by
  simp only [Reach.get, Reach.empty, Array.getD_eq_getD_getElem?, Array.getElem?_replicate]
  split <;> rfl

/-- The search as a whole. -/
theorem explore_empty [LawfulBEq α] (a b : Array α) :
    ∃ r rest, explore a b (a.size + b.size + 1) 0 (.empty (a.size + b.size + 1)) [] = r :: rest ∧
      Trace a b rest ∧ r.Prior a b rest.length ∧ Within rest.length (a.size - b.size) ∧
      r.get (a.size - b.size) = a.size ∧ level a b rest.length (a.size - b.size) = a.size := by
  have htrace : Trace a b [] := trivial
  have hprior : (Reach.empty (a.size + b.size + 1)).Prior a b 0 := get_empty _ 1
  have hsized : (Reach.empty (a.size + b.size + 1)).Sized (a.size + b.size) :=
    ⟨rfl, Array.size_replicate⟩
  exact explore_spec hsized hprior htrace (by simp) (by simp) (by simp)

end DocTokens.EditScript

namespace DocTokens

variable {α : Type} [BEq α] [LawfulBEq α]

/-- An edit script leads from the one list to the other. -/
theorem editScript_spec (source target : List α) :
    Edit.sources (editScript source target) = source ∧
      Edit.targets (editScript source target) = target := by
  obtain ⟨r, rest, hexplore, htrace, hprior, hk, hget, hlevel⟩ :=
    EditScript.explore_empty source.toArray target.toArray
  have hscript := EditScript.retrace_spec hprior htrace hk (hget.trans hlevel.symm) (by omega)
    (by omega) []
  rw [hlevel, ← hexplore] at hscript
  have hrest : (source.toArray.size - (source.toArray.size - target.toArray.size) : Int).toNat =
      target.length := by
    simp only [List.size_toArray]
    omega
  rw [hrest] at hscript
  simpa [Edit.sources, Edit.targets, editScript] using hscript

/-- A list is kept as it is. -/
theorem editScript_self (l : List α) : editScript l l = l.map .keep := by
  have hslide : EditScript.slide l.toArray l.toArray 0 (l.toArray.size + 1) 0 = l.toArray.size :=
    EditScript.slide_self l.toArray (Int.le_refl 0) (by omega) (by omega)
  have hextend : EditScript.extend l.toArray l.toArray 0 (EditScript.diagonals 0)
      (.empty (l.toArray.size + l.toArray.size + 1)) =
      (EditScript.Reach.set (.empty (l.toArray.size + l.toArray.size + 1)) 0 l.toArray.size,
        true) := by
    have hdiagonals : EditScript.diagonals 0 = [0] := rfl
    have henters : (EditScript.Reach.empty
        (l.toArray.size + l.toArray.size + 1)).entersByInsert 0 0 = true := rfl
    rw [hdiagonals, EditScript.extend, henters, if_pos rfl, EditScript.get_empty, hslide]
    simp
  rw [editScript, EditScript.explore, hextend]
  simp [EditScript.retrace]

/-- A script changes nothing exactly when it leads from a list to itself. -/
theorem any_isChange_editScript {source target : List α} :
    (editScript source target).any Edit.isChange = false ↔ source = target := by
  constructor
  · intro h
    obtain ⟨hsources, htargets⟩ := editScript_spec source target
    refine hsources.symm.trans (Eq.trans (List.filterMap_congr fun step hstep => ?_) htargets)
    cases step with
    | keep c => rfl
    | insert c => exact absurd rfl (List.any_eq_false.mp h _ hstep)
    | delete c => exact absurd rfl (List.any_eq_false.mp h _ hstep)
  · rintro rfl
    rw [editScript_self]
    simp [Edit.isChange]

namespace Diff

theorem trimNewlines_ne_nil {s : Bytes} {b : UInt8} (h : b ∈ s) (hb : b ≠ newline) :
    Bytes.trimNewlines s ≠ [] := by
  intro hnil
  rw [Bytes.trimNewlines, List.reverse_eq_nil_iff, List.dropWhile_eq_nil_iff] at hnil
  exact hb (by simpa using hnil b (List.mem_reverse.mpr h))

/-- A script with a change shows it. -/
theorem renderScript_ne_nil {script : List (Edit Bytes)} (h : script.any Edit.isChange = true) :
    Bytes.trimNewlines (script.flatMap Edit.renderLine) ≠ [] := by
  obtain ⟨step, hstep, hchange⟩ := List.any_eq_true.mp h
  cases step with
  | keep line => cases hchange
  | insert line =>
    exact trimNewlines_ne_nil (List.mem_flatMap.mpr ⟨_, hstep, List.mem_cons_self⟩)
      (by decide : ascii '+' ≠ newline)
  | delete line =>
    exact trimNewlines_ne_nil (List.mem_flatMap.mpr ⟨_, hstep, List.mem_cons_self⟩)
      (by decide : ascii '-' ≠ newline)

/-- The difference of two texts is empty exactly when they are equal. -/
theorem lines_eq_nil_iff (actual expected : Bytes) :
    lines actual expected = [] ↔ actual = expected := by
  have hsplit :
      Bytes.splitAt newline actual = Bytes.splitAt newline expected ↔ actual = expected := by
    refine ⟨fun h => ?_, fun h => h ▸ rfl⟩
    rw [← Bytes.intercalate_splitAt newline actual, h, Bytes.intercalate_splitAt]
  have hscript : (editScript (Bytes.splitAt newline actual) (Bytes.splitAt newline expected)).any
      Edit.isChange = false ↔ actual = expected := any_isChange_editScript.trans hsplit
  rw [← hscript, lines]
  generalize editScript (Bytes.splitAt newline actual) (Bytes.splitAt newline expected) = script
  cases hchange : script.any Edit.isChange with
  | true => simpa using renderScript_ne_nil hchange
  | false => simp

end Diff

end DocTokens
