import DocTokens.Search
import Mathlib.Data.List.Basic

/-! # Searches

A search that is never stopped joins what its patterns match, in order, and keeps each path where it
was first matched. Exclusion leaves paths out of that list and nothing else: an excluded path counts
as found, so it makes no difference which pattern comes across it first.
-/

namespace DocTokens

theorem StopSignal.poll_never : never.poll = .ok .never := rfl

namespace Search

variable {ε : Type} {glob : String → Except ε (List String)} {excluded : String → Bool}
  {path : String} {seen seen' paths more : List String}

/-! ## First occurrences -/

theorem mem_unseen_iff : path ∈ unseen seen paths ↔ path ∈ paths ∧ path ∉ seen := by
  induction paths generalizing seen with
  | nil => simp [unseen]
  | cons p paths ih =>
    rw [unseen]
    split
    · rename_i hseen
      rw [ih, List.mem_cons]
      constructor
      · rintro ⟨hmem, hnew⟩
        exact ⟨.inr hmem, hnew⟩
      · rintro ⟨rfl | hmem, hnew⟩
        · exact absurd hseen hnew
        · exact ⟨hmem, hnew⟩
    · rename_i hseen
      rw [List.mem_cons, ih, List.mem_cons, List.mem_cons, not_or]
      constructor
      · rintro (rfl | ⟨hmem, -, hnew⟩)
        · exact ⟨.inl rfl, hseen⟩
        · exact ⟨.inr hmem, hnew⟩
      · rintro ⟨rfl | hmem, hnew⟩
        · exact .inl rfl
        · by_cases hp : path = p
          · exact .inl hp
          · exact .inr ⟨hmem, hp, hnew⟩

/-- Only which paths were seen matters. -/
theorem unseen_congr (h : ∀ path, path ∈ seen ↔ path ∈ seen') (paths : List String) :
    unseen seen paths = unseen seen' paths := by
  induction paths generalizing seen seen' with
  | nil => rfl
  | cons p paths ih =>
    have hcons : ∀ path, path ∈ p :: seen ↔ path ∈ p :: seen' := by
      intro path
      rw [List.mem_cons, List.mem_cons, h]
    simp only [unseen, h p, ih h, ih hcons]

theorem unseen_append (seen paths more : List String) :
    unseen seen (paths ++ more) = unseen seen paths ++ unseen (unseen seen paths ++ seen) more := by
  induction paths generalizing seen with
  | nil => rfl
  | cons p paths ih =>
    rw [List.cons_append, unseen, unseen]
    split
    · exact ih seen
    · rw [ih, List.cons_append]
      have hsame : ∀ path, path ∈ unseen (p :: seen) paths ++ p :: seen ↔
          path ∈ p :: unseen (p :: seen) paths ++ seen := by simp [or_left_comm]
      rw [unseen_congr hsame]

theorem unseen_eq_nil (h : paths ⊆ seen) : unseen seen paths = [] := by
  refine List.eq_nil_iff_forall_not_mem.mpr fun path hpath => ?_
  obtain ⟨hmem, hnew⟩ := mem_unseen_iff.mp hpath
  exact hnew (h hmem)

/-- Paths that occur earlier add nothing. -/
theorem unseen_append_of_subset {others : List String} (h : others ⊆ paths) :
    unseen [] (paths ++ others ++ more) = unseen [] (paths ++ more) := by
  have hnone : unseen (unseen [] paths ++ []) others = [] := by
    refine unseen_eq_nil fun path hpath => ?_
    rw [List.append_nil, mem_unseen_iff]
    exact ⟨h hpath, List.not_mem_nil⟩
  have hsame : unseen [] (paths ++ others) = unseen [] paths := by
    rw [unseen_append, hnone, List.append_nil]
  rw [unseen_append, hsame, ← unseen_append]

/-- The paths stand in the order of their first occurrences. -/
theorem pairwise_unseen (seen paths : List String) :
    (unseen seen paths).Pairwise fun a b => paths.idxOf a < paths.idxOf b := by
  induction paths generalizing seen with
  | nil => exact .nil
  | cons p paths ih =>
    -- what was seen, the head included, is not found further on, so indices there move by one
    have hlater : ∀ seen', p ∈ seen' → (unseen seen' paths).Pairwise fun a b =>
        (p :: paths).idxOf a < (p :: paths).idxOf b := by
      intro seen' hp
      refine (ih seen').imp_of_mem fun {a b} ha hb hlt => ?_
      have ha' : p ≠ a := fun h => (mem_unseen_iff.mp ha).2 (h ▸ hp)
      have hb' : p ≠ b := fun h => (mem_unseen_iff.mp hb).2 (h ▸ hp)
      rw [List.idxOf_cons_ne _ ha', List.idxOf_cons_ne _ hb']
      exact Nat.succ_lt_succ hlt
    rw [unseen]
    split
    · rename_i hp
      exact hlater seen hp
    · refine List.pairwise_cons.mpr ⟨fun b hb => ?_, hlater _ List.mem_cons_self⟩
      have hb' : p ≠ b := fun h => (mem_unseen_iff.mp hb).2 (h ▸ List.mem_cons_self)
      rw [List.idxOf_cons_self, List.idxOf_cons_ne _ hb']
      exact Nat.succ_pos _

theorem nodup_unseen (seen paths : List String) : (unseen seen paths).Nodup := by
  refine (pairwise_unseen seen paths).imp fun {a b} hlt => ?_
  rintro rfl
  exact Nat.lt_irrefl _ hlt

/-! ## What patterns match -/

theorem withoutCurrent_current (rest : String) : withoutCurrent ("./" ++ rest) = rest := by
  simp [withoutCurrent, String.toList_append]

theorem withoutCurrent_of_ne {pattern : String} (h : ∀ rest, pattern ≠ "./" ++ rest) :
    withoutCurrent pattern = pattern := by
  unfold withoutCurrent
  split
  · rename_i rest hrest
    exact absurd (String.toList_injective (by simp [hrest, String.toList_append]))
      (h (String.ofList rest))
  · rfl

/-- Every pattern can be expanded. -/
def Expands (glob : String → Except ε (List String)) (patterns : List String) : Prop :=
  ∀ p ∈ patterns, ∃ found, glob (withoutCurrent p) = .ok found

/-- Why the patterns cannot all be expanded: the first that fails, as it was handed on. -/
def FirstFailure (glob : String → Except ε (List String)) (patterns : List String)
    (e : SearchError ε) : Prop :=
  ∃ before pattern after cause, patterns = before ++ pattern :: after ∧ Expands glob before ∧
    glob (withoutCurrent pattern) = .error cause ∧ e = .badPattern (withoutCurrent pattern) cause

/-- What a pattern matches, in the order of the matches. -/
def matchesOf (glob : String → Except ε (List String)) (pattern : String) : List String :=
  match glob (withoutCurrent pattern) with
  | .ok found => found
  | .error _ => []

section Patterns

variable {patterns others : List String} {e : SearchError ε}

theorem Expands.append (h : Expands glob patterns) (h' : Expands glob others) :
    Expands glob (patterns ++ others) :=
  List.forall_mem_append.mpr ⟨h, h'⟩

theorem FirstFailure.append_right (h : FirstFailure glob patterns e) (others : List String) :
    FirstFailure glob (patterns ++ others) e := by
  obtain ⟨before, pattern, after, cause, rfl, hbefore, hfail, he⟩ := h
  exact ⟨before, pattern, after ++ others, cause, by simp, hbefore, hfail, he⟩

theorem FirstFailure.append_left (h : FirstFailure glob others e) (hok : Expands glob patterns) :
    FirstFailure glob (patterns ++ others) e := by
  obtain ⟨before, pattern, after, cause, rfl, hbefore, hfail, he⟩ := h
  exact ⟨patterns ++ before, pattern, after, cause, by simp, hok.append hbefore, hfail, he⟩

/-- Either all patterns can be expanded or there is a first that cannot. -/
theorem expands_or_firstFailure (glob : String → Except ε (List String)) (patterns : List String) :
    Expands glob patterns ∨ ∃ e, FirstFailure glob patterns e := by
  induction patterns with
  | nil => exact .inl (by simp [Expands])
  | cons pattern patterns ih =>
    cases hfound : glob (withoutCurrent pattern) with
    | error cause =>
      exact .inr ⟨_, [], pattern, patterns, cause, rfl, by simp [Expands], hfound, rfl⟩
    | ok found =>
      have hhead : Expands glob [pattern] := by simp [Expands, hfound]
      rcases ih with hok | ⟨e, hfail⟩
      · exact .inl (hhead.append hok)
      · exact .inr ⟨e, hfail.append_left hhead⟩

theorem mem_flatMap_matchesOf_iff : path ∈ patterns.flatMap (matchesOf glob) ↔
    ∃ p ∈ patterns, ∃ found, glob (withoutCurrent p) = .ok found ∧ path ∈ found := by
  rw [List.mem_flatMap]
  refine exists_congr fun p => and_congr_right fun _ => ?_
  unfold matchesOf
  cases glob (withoutCurrent p) <;> simp

/-! ## What a search lists -/

theorem findBeyond_never (seen patterns : List String) :
    (findBeyond glob excluded seen patterns .never).2 = .never := by
  induction patterns generalizing seen with
  | nil => rfl
  | cons pattern patterns ih =>
    rw [findBeyond, StopSignal.poll_never]
    cases hfound : glob (withoutCurrent pattern) with
    | error e => rfl
    | ok found => exact ih _

/-- The paths of a list at their first occurrences, those excluded left out. -/
def firstOf (excluded : String → Bool) (paths : List String) : List String :=
  (unseen [] paths).filter (!excluded ·)

theorem findBeyond_of_expands (h : Expands glob patterns) (seen : List String) :
    (findBeyond glob excluded seen patterns .never).1 =
      .ok ((unseen seen (patterns.flatMap (matchesOf glob))).filter (!excluded ·)) := by
  induction patterns generalizing seen with
  | nil => rfl
  | cons pattern patterns ih =>
    obtain ⟨⟨found, hfound⟩, hrest⟩ := List.forall_mem_cons.mp h
    have hmatches : matchesOf glob pattern = found := by rw [matchesOf, hfound]
    rw [findBeyond, StopSignal.poll_never, List.flatMap_cons, hmatches, unseen_append,
      List.filter_append]
    simp only [hfound, ih hrest, Except.map]

theorem find_of_expands (h : Expands glob patterns) :
    (find glob excluded patterns .never).1 =
      .ok (firstOf excluded (patterns.flatMap (matchesOf glob))) :=
  findBeyond_of_expands h []

theorem findBeyond_of_firstFailure (h : FirstFailure glob patterns e) (seen : List String) :
    (findBeyond glob excluded seen patterns .never).1 = .error e := by
  obtain ⟨before, pattern, after, cause, rfl, hbefore, hfail, rfl⟩ := h
  induction before generalizing seen with
  | nil => simp only [List.nil_append, findBeyond, StopSignal.poll_never, hfail]
  | cons p before ih =>
    obtain ⟨⟨found, hfound⟩, hrest⟩ := List.forall_mem_cons.mp hbefore
    simp only [List.cons_append, findBeyond, StopSignal.poll_never, hfound, ih _ hrest,
      Except.map]

theorem find_eq_error_iff :
    (find glob excluded patterns .never).1 = .error e ↔ FirstFailure glob patterns e := by
  refine ⟨fun h => ?_, fun h => findBeyond_of_firstFailure h []⟩
  rcases expands_or_firstFailure glob patterns with hok | ⟨e', hfail⟩
  · rw [find_of_expands hok] at h
    cases h
  · obtain rfl := Except.error.inj (h.symm.trans (findBeyond_of_firstFailure hfail []))
    exact hfail

theorem expands_of_find {files : List String}
    (h : (find glob excluded patterns .never).1 = .ok files) : Expands glob patterns := by
  refine (expands_or_firstFailure glob patterns).resolve_right ?_
  rintro ⟨e, hfail⟩
  cases h.symm.trans (find_eq_error_iff.mpr hfail)

theorem files_eq_of_find {files : List String}
    (h : (find glob excluded patterns .never).1 = .ok files) :
    files = firstOf excluded (patterns.flatMap (matchesOf glob)) :=
  Except.ok.inj (h.symm.trans (find_of_expands (expands_of_find h)))

theorem nodup_of_find {files : List String}
    (h : (find glob excluded patterns .never).1 = .ok files) : files.Nodup := by
  rw [files_eq_of_find h]
  exact (nodup_unseen _ _).filter _

theorem mem_firstOf_iff : path ∈ firstOf excluded paths ↔ path ∈ paths ∧ excluded path = false := by
  rw [firstOf, List.mem_filter, mem_unseen_iff, Bool.not_eq_true']
  simp

theorem pairwise_firstOf (excluded : String → Bool) (paths : List String) :
    (firstOf excluded paths).Pairwise fun a b => paths.idxOf a < paths.idxOf b :=
  (pairwise_unseen [] paths).filter _

theorem firstOf_prefix (excluded : String → Bool) (paths more : List String) :
    firstOf excluded paths <+: firstOf excluded (paths ++ more) := by
  rw [firstOf, firstOf, unseen_append, List.filter_append]
  exact List.prefix_append _ _

/-- Patterns that occur earlier add nothing, and fail only where these fail. -/
theorem find_append_of_subset (h : others ⊆ patterns) (rest : List String) :
    (find glob excluded (patterns ++ others ++ rest) .never).1 =
      (find glob excluded (patterns ++ rest) .never).1 := by
  rcases expands_or_firstFailure glob patterns with hok | ⟨e, hfail⟩
  · have hothers : Expands glob others := fun p hp => hok p (h hp)
    rcases expands_or_firstFailure glob rest with hrest | ⟨e, hfail⟩
    · have hsubset : others.flatMap (matchesOf glob) ⊆ patterns.flatMap (matchesOf glob) := by
        intro path hpath
        obtain ⟨p, hp, hmem⟩ := List.mem_flatMap.mp hpath
        exact List.mem_flatMap.mpr ⟨p, h hp, hmem⟩
      rw [find_of_expands ((hok.append hothers).append hrest), find_of_expands (hok.append hrest),
        List.flatMap_append, List.flatMap_append, List.flatMap_append, firstOf, firstOf,
        unseen_append_of_subset hsubset]
    · rw [find_eq_error_iff.mpr (hfail.append_left (hok.append hothers)),
        find_eq_error_iff.mpr (hfail.append_left hok)]
  · rw [List.append_assoc, find_eq_error_iff.mpr (hfail.append_right _),
      find_eq_error_iff.mpr (hfail.append_right _)]

theorem find_filter (excluded : String → Bool) (patterns : List String) :
    (find glob excluded patterns .never).1 =
      (find glob (fun _ => false) patterns .never).1.map (List.filter (!excluded ·)) := by
  rcases expands_or_firstFailure glob patterns with hok | ⟨e, hfail⟩
  · rw [find_of_expands hok, find_of_expands hok, firstOf, firstOf]
    simp [Except.map]
  · rw [find_eq_error_iff.mpr hfail, find_eq_error_iff.mpr hfail]
    rfl

end Patterns

/-- A search that is never stopped fails exactly when some pattern cannot be expanded, for the first
such pattern. Otherwise it lists the paths that are matched and not excluded, each once and in the
order of the first matches. So more patterns only add to the end, patterns given again change
nothing, and exclusion only filters. -/
theorem find_union (glob : String → Except ε (List String)) (excluded : String → Bool)
    (patterns : List String) :
    (∀ rest, withoutCurrent ("./" ++ rest) = rest) ∧
    (∀ pattern, (∀ rest, pattern ≠ "./" ++ rest) → withoutCurrent pattern = pattern) ∧
    ((∃ e, (find glob excluded patterns .never).1 = .error e) ↔
      ∃ p ∈ patterns, ∃ cause, glob (withoutCurrent p) = .error cause) ∧
    (∀ e, (find glob excluded patterns .never).1 = .error e ↔ FirstFailure glob patterns e) ∧
    (∀ files, (find glob excluded patterns .never).1 = .ok files →
      files.Nodup ∧
      (∀ path, path ∈ files ↔ (∃ p ∈ patterns, ∃ found, glob (withoutCurrent p) = .ok found ∧
        path ∈ found) ∧ excluded path = false) ∧
      files.Pairwise fun a b => (patterns.flatMap (matchesOf glob)).idxOf a <
        (patterns.flatMap (matchesOf glob)).idxOf b) ∧
    (∀ more files', (find glob excluded (patterns ++ more) .never).1 = .ok files' →
      ∃ files, (find glob excluded patterns .never).1 = .ok files ∧ files <+: files') ∧
    (find glob excluded (patterns ++ patterns) .never).1 = (find glob excluded patterns .never).1 ∧
    (∀ others rest, others ⊆ patterns → (find glob excluded (patterns ++ others ++ rest) .never).1 =
      (find glob excluded (patterns ++ rest) .never).1) ∧
    (find glob excluded patterns .never).1 =
      (find glob (fun _ => false) patterns .never).1.map (List.filter (!excluded ·)) := by
  refine ⟨withoutCurrent_current, fun _ => withoutCurrent_of_ne, ?_, fun e => find_eq_error_iff, ?_,
    ?_, ?_, fun others rest h => find_append_of_subset h rest, find_filter excluded patterns⟩
  · simp only [find_eq_error_iff]
    constructor
    · rintro ⟨e, before, pattern, after, cause, rfl, -, hfail, -⟩
      exact ⟨pattern, by simp, cause, hfail⟩
    · rintro ⟨p, hp, cause, hfail⟩
      refine (expands_or_firstFailure glob patterns).resolve_left fun hok => ?_
      obtain ⟨found, hfound⟩ := hok p hp
      cases hfail.symm.trans hfound
  · intro files h
    refine ⟨nodup_of_find h, ?_⟩
    obtain rfl := files_eq_of_find h
    refine ⟨fun path => ?_, pairwise_firstOf excluded _⟩
    rw [mem_firstOf_iff, mem_flatMap_matchesOf_iff]
  · intro more files' h
    have hok := expands_of_find h
    have hpatterns : Expands glob patterns := fun p hp => hok p (List.mem_append_left _ hp)
    refine ⟨_, find_of_expands hpatterns, ?_⟩
    obtain rfl := files_eq_of_find h
    rw [List.flatMap_append]
    exact firstOf_prefix excluded _ _
  · have hagain : (find glob excluded (patterns ++ patterns ++ []) .never).1 =
        (find glob excluded (patterns ++ []) .never).1 :=
      find_append_of_subset (List.Subset.refl patterns) []
    rwa [List.append_nil, List.append_nil] at hagain

end Search

end DocTokens
