import DocTokens.Markdown.Parse
import DocTokens.Proofs.Markdown.Course
import DocTokens.Proofs.Markdown.SourceLines

/-! # Bullets

The bullet of a list item is looked for at the front of the line on which the content of the item
begins, and must stand there before the content. So the bullets of two items share a byte exactly
when their contents begin on the same line: items that open on one line get one bullet between them.
-/

namespace DocTokens

/-- Some byte belongs to both segments. -/
def Segment.Meets (a b : Segment) : Prop := ∃ i, a.start ≤ i ∧ i < a.stop ∧ b.start ≤ i ∧ i < b.stop

namespace Markdown

variable {src : Source} {n : Node} {l l' b b' : Segment} {marker marker' : UInt8} {p p' : Nat}

/-! ## At the front of a line -/

/-- The segment stands after at most sixteen blanks: a marker with digits before it where the marker
is that of an ordered list. -/
structure Fronts (src : Source) (marker : UInt8) (p : Nat) (b : Segment) : Prop where
  start_eq : b.start = src.forward isSpaceOrTab 16 p
  start_lt : b.start < b.stop
  digits : ∀ i, b.start ≤ i → i + 1 < b.stop →
    isOrderedMarker marker = true ∧ src.at? i Bytes.isDigit = true
  marker_eq : src[b.stop - 1]? = some marker

/-- Digits are passed over to the first byte that is none. -/
theorem forward_digits {q : Nat} (hle : p ≤ q) (hq : q < src.size)
    (h : ∀ i, p ≤ i → i < q → src.at? i Bytes.isDigit = true)
    (hstop : src.at? q Bytes.isDigit = false) : src.forward Bytes.isDigit (src.size - p) p = q := by
  obtain ⟨n, rfl⟩ := Nat.exists_eq_add_of_le hle
  exact Source.forward_eq (by omega) (fun i hi => h (p + i) (by omega) (by omega)) hstop

theorem listMarker?_eq_some_iff : listMarker? src marker p = some b ↔ Fronts src marker p b := by
  unfold listMarker?
  extract_lets front last
  constructor
  · intro h
    split at h
    · rename_i hmarker
      cases h
      have hlast : front ≤ last ∧ ∀ i, front ≤ i → i < last →
          isOrderedMarker marker = true ∧ src.at? i Bytes.isDigit = true := by
        simp only [last]
        split
        · rename_i hordered
          exact ⟨src.le_forward _ _ _, fun i hle hlt =>
            ⟨hordered, (src.forward_spec _ _ front).2 i hle hlt⟩⟩
        · exact ⟨Nat.le_refl front, fun i hle hlt => absurd hle (Nat.not_le.mpr hlt)⟩
      exact ⟨rfl, Nat.lt_succ_of_le hlast.1,
        fun i hle hlt => hlast.2 i hle (Nat.lt_of_succ_lt_succ hlt), Source.at?_beq_iff.mp hmarker⟩
    · cases h
  · intro h
    have hstart : front = b.start := h.start_eq.symm
    have hlt := h.start_lt
    have hat : src.at? (b.stop - 1) (· == marker) = true := Source.at?_beq_iff.mpr h.marker_eq
    have hlast : last = b.stop - 1 := by
      simp only [last, hstart]
      split
      · rename_i hordered
        refine forward_digits (by omega) (Source.lt_of_at? hat)
          (fun i hle hlt' => (h.digits i hle (by omega)).2) ?_
        -- the marker of an ordered list is no digit
        rw [Source.at?, h.marker_eq]
        simp only [isOrderedMarker, Bool.or_eq_true, beq_iff_eq] at hordered
        rcases hordered with rfl | rfl <;> decide
      · rename_i hbullet
        have hone : ¬ b.start + 1 < b.stop :=
          fun hmore => hbullet (h.digits b.start (Nat.le_refl _) hmore).1
        omega
    rw [hlast, if_pos hat, hstart, Nat.sub_add_cancel (Nat.one_le_of_lt hlt)]

/-- No blank and no digit is a line feed, so the marker is reached on its line. -/
theorem Fronts.stop_le (h : Fronts src marker l.start b) (hl : src.IsLine l) :
    b.stop ≤ l.stop + 1 := by
  by_contra hpast
  have hordered := hl.ordered
  have hsize := (Array.getElem?_eq_some_iff.mp h.marker_eq).1
  have hbreak : src[l.stop]? = some newline := hl.ends.resolve_left (by omega)
  have hfeed : ∀ {f : UInt8 → Bool}, src.at? l.stop f = true → f newline = true := by
    intro f hf
    rwa [Source.at?, hbreak] at hf
  rcases Nat.lt_or_ge l.stop b.start with hlt | hge
  · have hblank := (src.forward_spec isSpaceOrTab 16 l.start).2 l.stop hordered (h.start_eq ▸ hlt)
    exact absurd (hfeed hblank) (by decide)
  · exact absurd (hfeed (h.digits l.stop hge (by omega)).2) (by decide)

/-- What stands at the fronts of two lines meets on one line only. -/
theorem Fronts.meets_iff (h : Fronts src marker l.start b) (h' : Fronts src marker' l'.start b')
    (hl : src.IsLine l) (hl' : src.IsLine l') : b.Meets b' ↔ l = l' := by
  have hstart : l.start ≤ b.start := h.start_eq ▸ src.le_forward _ _ _
  have hstart' : l'.start ≤ b'.start := h'.start_eq ▸ src.le_forward _ _ _
  have hstop := h.stop_le hl
  have hstop' := h'.stop_le hl'
  constructor
  · rintro ⟨i, hle, hlt, hle', hlt'⟩
    exact hl.eq_of_holds hl' (p := i) ⟨by omega, by omega⟩ ⟨by omega, by omega⟩
  · rintro rfl
    have heq := h.start_eq.trans h'.start_eq.symm
    have hlt := h.start_lt
    have hlt' := h'.start_lt
    exact ⟨b.start, by omega, by omega, by omega, by omega⟩

/-! ## List items -/

/-- The bullet of an item in a list with the marker: what stands at the front of the line on which
the content of the item begins, before the content. -/
def Node.Marks (src : Source) (marker : Option UInt8) (n : Node) (b : Segment) : Prop :=
  ∃ m s, marker = some m ∧ n.extent src = some s ∧
    Fronts src m (src.lineOf s.start).start b ∧ b.stop ≤ s.start

theorem Node.Marks.unique {marker : Option UInt8} (h : n.Marks src marker b)
    (h' : n.Marks src marker b') : b = b' := by
  obtain ⟨m, s, rfl, hs, hb, -⟩ := h
  obtain ⟨m', s', hm, hs', hb', -⟩ := h'
  obtain rfl := Option.some.inj hm
  obtain rfl : s = s' := Option.some.inj (hs.symm.trans hs')
  exact Option.some.inj
    ((listMarker?_eq_some_iff.mpr hb).symm.trans (listMarker?_eq_some_iff.mpr hb'))

theorem entriesIn_listItem {cursor : Nat} {inner : Conversion}
    (hinner : inner.entries.entriesIn .bullet = []) (marker : Option UInt8) :
    ∀ p ∈ (listItem src marker (n.extent src) cursor inner).piece,
      (p.below.entriesIn .bullet = [] ∧ ∀ b, ¬ n.Marks src marker b) ∨
        ∃ b, n.Marks src marker b ∧ p.below.entriesIn .bullet = [.inl ⟨.text, b.toSpan⟩] := by
  unfold listItem
  extract_lets bullet?
  have hbullet : ∀ b, bullet? = some b ↔ n.Marks src marker b := by
    intro b
    unfold Node.Marks
    cases hs : n.extent src with
    | none => simp [bullet?, hs]
    | some s =>
      cases marker with
      | none => simp [bullet?]
      | some m =>
        simp only [bullet?, hs, Option.filter_eq_some_iff, decide_eq_true_eq,
          listMarker?_eq_some_iff]
        exact ⟨fun h => ⟨m, s, rfl, rfl, h⟩, by rintro ⟨_, _, ⟨⟩, ⟨⟩, h⟩; exact h⟩
  have hextent : ∀ b, bullet? = some b → ∃ s, n.extent src = some s := by
    intro b hb
    obtain ⟨_, s, -, hs, -⟩ := (hbullet b).mp hb
    exact ⟨s, hs⟩
  clear_value bullet?
  cases hb : bullet? with
  | some b =>
    obtain ⟨s, hs⟩ := hextent b hb
    rw [hs]
    rintro p ⟨⟩
    exact .inr ⟨b, (hbullet b).mp hb, (if_pos rfl).trans (congrArg _ hinner)⟩
  | none =>
    have hnone : ∀ b, ¬ n.Marks src marker b := by
      intro b hm
      rw [(hbullet b).mpr hm] at hb
      cases hb
    rintro p hp
    refine .inl ⟨?_, hnone⟩
    cases hs : n.extent src with
    | none =>
      rw [hs] at hp
      cases hp
      exact hinner
    | some s =>
      rw [hs] at hp
      cases hp
      exact hinner

/-- The bullet of an item in the tree is the one that marks it. -/
theorem Step.Leaves.bullet_iff {document : Node} {v : Step}
    {c : DocTokens.Node × Forest DocTokens.Node} (h : v.Leaves src document c)
    (hn : v.node? = some n) (hk : n.kind = .listItem) :
    (convert src document).1.TextIn .bullet c.1 b ↔ n.Marks src v.marker b := by
  have hentries : (v.branch.2.entriesIn .bullet = [] ∧ ∀ b, ¬ n.Marks src v.marker b) ∨
      ∃ b, n.Marks src v.marker b ∧ v.branch.2.entriesIn .bullet = [.inl ⟨.text, b.toSpan⟩] := by
    have hpiece := h.converted n hn
    cases n with
    | mk kind lines children =>
      obtain rfl : kind = .listItem := hk
      rw [convertNode_of_ne (by decide)] at hpiece
      exact entriesIn_listItem (entriesIn_convertAll (by decide) _ children v.cursor) v.marker _
        hpiece
  rcases hentries with ⟨hnone, hmarks⟩ | ⟨b', hmarks, hone⟩
  · refine ⟨?_, fun hb => absurd hb (hmarks b)⟩
    rintro ⟨f, hfields, -⟩
    have hstores := h.held.stores .bullet
    rw [hnone, hfields] at hstores
    cases hstores
  · rw [h.held.textIn_iff hone]
    exact ⟨fun hb => hb ▸ hmarks, fun hb => hb.unique hmarks⟩

/-! ## Documents -/

/-- The nodes of a document with the markers of their lists, each with its node in the tree. -/
def markedPairs (src : Source) (document : Node) :
    List ((Option UInt8 × Node) × DocTokens.Node × Forest DocTokens.Node) :=
  (markedAll (Node.convertsBelow src) none document.children).zip (convert src document).1.branches

theorem leaves_markedAll (src : Source) (document : Node) :
    List.Forall₂ (fun x c => ∃ v : Step, v.node? = some x.2 ∧ v.marker = x.1 ∧
      v.Leaves src document c) (markedAll (Node.convertsBelow src) none document.children)
      (convert src document).1.branches := by
  obtain ⟨hmarked, hleaves⟩ := convert_steps src document
  have hsteps : List.Forall₂ (fun x c => ∃ v : Step, v.marked? = x ∧ v.Leaves src document c)
      ((nodeSteps src document).map Step.marked?) (convert src document).1.branches :=
    List.forall₂_map_left_iff.mpr (hleaves.imp fun v c h => ⟨v, rfl, h⟩)
  rw [hmarked, List.forall₂_map_left_iff] at hsteps
  refine hsteps.imp ?_
  rintro x c ⟨v, hv, h⟩
  obtain ⟨n, hn, rfl⟩ := Option.map_eq_some_iff.mp hv
  exact ⟨v, hn, rfl, h⟩

/-- The bullet of a list item is the marker at the front of the line on which the content of the
item begins, if it stands before the content. The bullets of two items share a byte exactly when
their contents begin on the same line; they then start together. -/
theorem convert_bullets (src : Source) (document : Node) :
    let t := (convert src document).1
    List.Forall₂ (fun x c => x.2.kind = .listItem →
        ∀ b, t.TextIn .bullet c.1 b ↔ x.2.Marks src x.1 b)
      (markedAll (Node.convertsBelow src) none document.children) t.branches ∧
    ∀ x ∈ markedPairs src document, ∀ y ∈ markedPairs src document,
      x.1.2.kind = .listItem → y.1.2.kind = .listItem →
      ∀ s s' b b', x.1.2.extent src = some s → y.1.2.extent src = some s' →
        t.TextIn .bullet x.2.1 b → t.TextIn .bullet y.2.1 b' →
        (b.Meets b' ↔ src.lineOf s.start = src.lineOf s'.start) ∧
        (src.lineOf s.start = src.lineOf s'.start → b.start = b'.start) := by
  intro t
  have hiff : List.Forall₂ (fun x c => x.2.kind = .listItem →
      ∀ b, t.TextIn .bullet c.1 b ↔ x.2.Marks src x.1 b)
      (markedAll (Node.convertsBelow src) none document.children) t.branches := by
    refine (leaves_markedAll src document).imp ?_
    rintro x c ⟨v, hn, hmarker, hleaves⟩ hk b
    rw [← hmarker]
    exact hleaves.bullet_iff hn hk
  have hfronts : ∀ x ∈ markedPairs src document, x.1.2.kind = .listItem → ∀ s b,
      x.1.2.extent src = some s → t.TextIn .bullet x.2.1 b →
      ∃ m, Fronts src m (src.lineOf s.start).start b := by
    intro x hx hk s b hs hb
    obtain ⟨m, s', -, hs', hfronts, -⟩ := ((List.forall₂_iff_zip.mp hiff).2 hx hk b).mp hb
    obtain rfl : s = s' := Option.some.inj (hs.symm.trans hs')
    exact ⟨m, hfronts⟩
  refine ⟨hiff, fun x hx y hy hkx hky s s' b b' hs hs' hb hb' => ?_⟩
  obtain ⟨m, h⟩ := hfronts x hx hkx s b hs hb
  obtain ⟨m', h'⟩ := hfronts y hy hky s' b' hs' hb'
  refine ⟨h.meets_iff h' (src.isLine_lineOf _) (src.isLine_lineOf _), fun heq => ?_⟩
  rw [h.start_eq, h'.start_eq, heq]

/-- The pair at an index, by what it shows of the item and of its node in the tree. -/
theorem exists_markedPair {src : Source} {document : Node} (i : Nat) {kind : Kind} {s : Segment}
    {n : DocTokens.Node} (h : (markedPairs src document)[i]?.map
      (fun x => (x.1.2.kind, x.1.2.extent src, x.2.1)) = some (kind, some s, n)) :
    ∃ x ∈ markedPairs src document, x.1.2.kind = kind ∧ x.1.2.extent src = some s ∧ x.2.1 = n := by
  obtain ⟨x, hget, hshown⟩ := Option.map_eq_some_iff.mp h
  simp only [Prod.mk.injEq] at hshown
  exact ⟨x, List.mem_of_getElem? hget, hshown⟩

def listedSource : Source := (utf8 "- a\n  - b\n").toArray

/-- An item and an item in it on the next line: their bullets have nothing in common. -/
theorem convert_bullets_listed :
    let t := (convert listedSource (parse listedSource)).1
    ∃ x ∈ markedPairs listedSource (parse listedSource),
    ∃ y ∈ markedPairs listedSource (parse listedSource),
      x.1.2.kind = .listItem ∧ y.1.2.kind = .listItem ∧ t.TextIn .bullet x.2.1 ⟨0, 1⟩ ∧
      t.TextIn .bullet y.2.1 ⟨6, 7⟩ ∧ ¬ Segment.Meets ⟨0, 1⟩ ⟨6, 7⟩ := by
  intro t
  obtain ⟨x, hx, hkx, hs, hn⟩ : ∃ x ∈ markedPairs listedSource (parse listedSource),
      x.1.2.kind = .listItem ∧ x.1.2.extent listedSource = some ⟨2, 9⟩ ∧
      x.2.1 = ⟨2, .listItem, ⟨0, 9⟩, 1, #[⟨.bullet, [], .child 3⟩, ⟨.children, [], .child 4⟩,
        ⟨.children, [], .child 6⟩]⟩ := exists_markedPair 6 (by decide +kernel)
  obtain ⟨y, hy, hky, hs', hn'⟩ : ∃ y ∈ markedPairs listedSource (parse listedSource),
      y.1.2.kind = .listItem ∧ y.1.2.extent listedSource = some ⟨8, 9⟩ ∧
      y.2.1 = ⟨7, .listItem, ⟨6, 9⟩, 6, #[⟨.bullet, [], .child 8⟩, ⟨.children, [], .child 9⟩]⟩ :=
    exists_markedPair 4 (by decide +kernel)
  have hb : t.TextIn .bullet x.2.1 ⟨0, 1⟩ := by
    rw [hn]
    exact ⟨⟨.bullet, [], .child 3⟩, by decide +kernel, ⟨3, .text, ⟨0, 1⟩, 2, #[]⟩,
      by decide +kernel⟩
  have hb' : t.TextIn .bullet y.2.1 ⟨6, 7⟩ := by
    rw [hn']
    exact ⟨⟨.bullet, [], .child 8⟩, by decide +kernel, ⟨8, .text, ⟨6, 7⟩, 7, #[]⟩,
      by decide +kernel⟩
  have hlines := ((convert_bullets listedSource (parse listedSource)).2 x hx y hy hkx hky
    _ _ _ _ hs hs' hb hb').1
  exact ⟨x, hx, y, hy, hkx, hky, hb, hb',
    fun hmeets => absurd (hlines.mp hmeets) (by decide +kernel)⟩

def openingSource : Source := (utf8 "- - a\n").toArray

/-- Two items that open on one line: the bullet of the inner one is the bullet of the outer one, and
both have a token on the same byte. -/
theorem bullets_meet :
    let t := (convert openingSource (parse openingSource)).1
    ∃ outer inner, t.node? 2 = some outer ∧ t.node? 5 = some inner ∧
      outer.type = .listItem ∧ inner.type = .listItem ∧
      t.TextIn .bullet outer ⟨0, 1⟩ ∧ t.TextIn .bullet inner ⟨0, 1⟩ ∧
      t.tokensAt (.ofBytes openingSource.toList) 3 = .ok [⟨0, 0, 1, .listBullet⟩] ∧
      t.tokensAt (.ofBytes openingSource.toList) 6 = .ok [⟨0, 0, 1, .listBullet⟩] := by
  refine ⟨⟨2, .listItem, ⟨0, 5⟩, 1, #[⟨.bullet, [], .child 3⟩, ⟨.children, [], .child 4⟩]⟩,
    ⟨5, .listItem, ⟨0, 5⟩, 4, #[⟨.bullet, [], .child 6⟩, ⟨.children, [], .child 7⟩]⟩,
    by decide +kernel, by decide +kernel, rfl, rfl, ?_, ?_, by decide +kernel⟩
  · exact ⟨⟨.bullet, [], .child 3⟩, by decide +kernel, ⟨3, .text, ⟨0, 1⟩, 2, #[]⟩,
      by decide +kernel⟩
  · exact ⟨⟨.bullet, [], .child 6⟩, by decide +kernel, ⟨6, .text, ⟨0, 1⟩, 5, #[]⟩,
      by decide +kernel⟩

end Markdown

end DocTokens
