import DocTokens.Markdown.Directive
import DocTokens.Proofs.Positions

/-! # Lists of keys and values

The body of a directive is a list divided by commas, and each entry of it a key and a value divided
by a colon. Entries are read in place: what is read stands in the body where the split and trimmed
bytes do, and does not depend on where the body itself stands.
-/

namespace DocTokens

namespace Bytes

/-- The bytes stand at an offset of a text. -/
def Stands (text : Bytes) (pos : Nat) (bytes : Bytes) : Prop := bytes <+: text.drop pos

namespace Stands

variable {text a b : Bytes} {pos : Nat}

theorem left (h : Stands text pos (a ++ b)) : Stands text pos a :=
  (List.prefix_append a b).trans h

theorem right (h : Stands text pos (a ++ b)) : Stands text (pos + a.length) b := by
  obtain ⟨rest, hrest⟩ := h
  refine ⟨rest, ?_⟩
  rw [← List.drop_drop, ← hrest, List.append_assoc, List.drop_left]

theorem tail {first : UInt8} (h : Stands text pos (first :: a)) : Stands text (pos + 1) a :=
  right (a := [first]) h

theorem extract_eq (h : Stands text pos a) : text.extract pos (pos + a.length) = a := by
  rw [List.extract_eq_take_drop, Nat.add_sub_cancel_left]
  exact (List.prefix_iff_eq_take.mp h).symm

theorem getElem?_eq {first : UInt8} (h : Stands text pos (first :: a)) :
    text[pos]? = some first := by
  obtain ⟨rest, hrest⟩ := h
  rw [← Nat.add_zero pos, ← List.getElem?_drop, ← hrest]
  rfl

end Stands

theorem drop_spanLength (p : UInt8 → Bool) (s : Bytes) :
    s.drop (spanLength p s) = s.dropWhile p := by
  have hsplit : (s.takeWhile p ++ s.dropWhile p).drop (spanLength p s) = s.dropWhile p :=
    List.drop_left
  rwa [List.takeWhile_append_dropWhile] at hsplit

theorem intercalate_eq_append (sep : UInt8) (piece : Bytes) (rest : List Bytes) :
    [sep].intercalate (piece :: rest) =
      piece ++ if rest = [] then [] else sep :: [sep].intercalate rest := by
  cases rest with
  | nil => simp
  | cons next rest => simp

theorem idxOf?_append {b : UInt8} {front back : Bytes} (h : b ∉ front) :
    (front ++ b :: back).idxOf? b = some front.length := by
  refine List.idxOf?_eq_some_iff.mpr ⟨by simp, by simp, ?_⟩
  intro j hj hjb
  rw [List.getElem_append_left hj] at hjb
  exact h (hjb ▸ List.getElem_mem hj)

/-- The first occurrence of a byte divides a text. -/
theorem idxOf?_cases (b : UInt8) (s : Bytes) : b ∉ s ∧ s.idxOf? b = none ∨
    ∃ front back, s = front ++ b :: back ∧ b ∉ front ∧ s.idxOf? b = some front.length := by
  by_cases hb : b ∈ s
  · obtain ⟨front, back, rfl, hfront⟩ := List.eq_append_cons_of_mem hb
    exact .inr ⟨front, back, rfl, hfront, idxOf?_append hfront⟩
  · exact .inl ⟨hb, List.idxOf?_eq_none_iff.mpr hb⟩

theorem ne_of_not_mem {b : UInt8} {s : Bytes} (h : b ∉ s) : ∀ a ∈ s, (a != b) = true := by
  intro a ha
  exact bne_iff_ne.mpr fun hab => h (hab ▸ ha)

theorem take_idxOf? (b : UInt8) (s : Bytes) :
    s.take ((s.idxOf? b).getD s.length) = s.takeWhile (· != b) := by
  rcases idxOf?_cases b s with ⟨hb, hidx⟩ | ⟨front, back, rfl, hfront, hidx⟩
  · rw [hidx, Option.getD_none, List.take_length,
      List.takeWhile_eq_self_iff.mpr (ne_of_not_mem hb)]
  · rw [hidx, Option.getD_some, List.take_left,
      List.takeWhile_append_of_pos (ne_of_not_mem hfront)]
    simp

theorem drop_idxOf? (b : UInt8) (s : Bytes) :
    s.drop (min ((s.idxOf? b).getD s.length + 1) s.length) = (s.dropWhile (· != b)).tail := by
  rcases idxOf?_cases b s with ⟨hb, hidx⟩ | ⟨front, back, rfl, hfront, hidx⟩
  · rw [hidx, Option.getD_none, Nat.min_eq_right (Nat.le_succ _), List.drop_length,
      List.dropWhile_eq_nil_iff.mpr (ne_of_not_mem hb), List.tail_nil]
  · have hle : front.length + 1 ≤ (front ++ b :: back).length := by simp
    rw [hidx, Option.getD_some, Nat.min_eq_left hle,
      List.dropWhile_append_of_pos (ne_of_not_mem hfront)]
    simp

end Bytes

namespace Markdown

/-- Key and value stand in this order between two offsets, and the key is not empty. -/
structure KeyEntry.Between (e : KeyEntry) (start stop : Nat) : Prop where
  start_le : start ≤ e.key.start
  key_lt : e.key.start < e.key.stop
  key_le : e.key.stop ≤ e.value.start
  value_le : e.value.start ≤ e.value.stop
  le_stop : e.value.stop ≤ stop

/-- The entry `d` bytes further on. -/
def KeyEntry.shift (e : KeyEntry) (d : Nat) : KeyEntry :=
  ⟨⟨e.key.start + d, e.key.stop + d⟩, ⟨e.value.start + d, e.value.stop + d⟩⟩

namespace Directive

open Bytes

/-! ## Trimming in place -/

theorem isPadding_iff {b : UInt8} : isPadding b = true ↔ b = ascii ' ' ∨ b = ascii '\t' := by
  simp [isPadding]

/-- A text without the spaces and tabs at its ends. -/
def trim (s : Bytes) : Bytes := (s.dropWhile isPadding).rdropWhile isPadding

/-- Where a text at an offset has the bytes that trimming leaves. Of padding alone nothing is left,
at its end. -/
def inPlace (s : Bytes) (pos : Nat) : Segment :=
  ⟨pos + (s.takeWhile isPadding).length, pos + (s.takeWhile isPadding).length + (trim s).length⟩

theorem eq_append_trim (s : Bytes) : s = s.takeWhile isPadding ++
    (trim s ++ (s.dropWhile isPadding).rtakeWhile isPadding) := by
  rw [trim, List.rdropWhile_append_rtakeWhile, List.takeWhile_append_dropWhile]

theorem trimmed_eq_inPlace (s : Bytes) (pos : Nat) : trimmed s pos = inPlace s pos := by
  have hright : spanLength isPadding (s.dropWhile isPadding).reverse =
      ((s.dropWhile isPadding).rtakeWhile isPadding).length := by
    rw [List.rtakeWhile, List.length_reverse]
    rfl
  have hlength := congrArg List.length (eq_append_trim s)
  simp only [List.length_append] at hlength
  simp only [trimmed, inPlace, drop_spanLength, hright, Segment.mk.injEq]
  refine ⟨rfl, ?_⟩
  omega

theorem bounds_inPlace (s : Bytes) (pos : Nat) : pos ≤ (inPlace s pos).start ∧
    (inPlace s pos).start ≤ (inPlace s pos).stop ∧ (inPlace s pos).stop ≤ pos + s.length := by
  have hlength := congrArg List.length (eq_append_trim s)
  simp only [List.length_append] at hlength
  simp only [inPlace]
  omega

theorem isEmpty_inPlace_iff (s : Bytes) (pos : Nat) :
    (inPlace s pos).isEmpty = true ↔ trim s = [] := by
  rw [Segment.isEmpty, decide_eq_true_eq, ← List.length_eq_zero_iff]
  simp only [inPlace]
  omega

theorem extract_inPlace {text s : Bytes} {pos : Nat} (h : Stands text pos s) :
    text.extract (inPlace s pos).start (inPlace s pos).stop = trim s := by
  rw [eq_append_trim s] at h
  exact h.right.left.extract_eq

theorem inPlace_add (s : Bytes) (pos d : Nat) :
    inPlace s (pos + d) = ⟨(inPlace s pos).start + d, (inPlace s pos).stop + d⟩ := by
  simp only [inPlace, Segment.mk.injEq]
  omega

/-! ## Entries -/

/-- The key of an entry: what stands before the first colon, without padding. -/
def keyOf (entry : Bytes) : Bytes := trim (entry.takeWhile (· != ascii ':'))

/-- What follows the first colon of an entry; nothing if it has none. -/
def valuePart (entry : Bytes) : Bytes := (entry.dropWhile (· != ascii ':')).tail

/-- The value of an entry: what stands after the first colon, without padding. -/
def valueOf (entry : Bytes) : Bytes := trim (valuePart entry)

/-- An entry at an offset. A value that is missing stands at the end of the entry. -/
def pairAt (entry : Bytes) (pos : Nat) : KeyEntry :=
  ⟨inPlace (entry.takeWhile (· != ascii ':')) pos,
    inPlace (valuePart entry) (pos + (entry.length - (valuePart entry).length))⟩

/-- Between key and value of an entry there is a colon, or nothing. -/
theorem exists_eq_append_valuePart (entry : Bytes) :
    ∃ colon, entry = entry.takeWhile (· != ascii ':') ++ (colon ++ valuePart entry) := by
  refine ⟨(entry.dropWhile (· != ascii ':')).take 1, ?_⟩
  rw [valuePart, ← List.drop_one, List.take_append_drop, List.takeWhile_append_dropWhile]

theorem readPair?_eq (entry : Bytes) (pos : Nat) :
    readPair? entry pos = if keyOf entry = [] then none else some (pairAt entry pos) := by
  have hdrop := drop_idxOf? (ascii ':') entry
  have hstart : min ((entry.idxOf? (ascii ':')).getD entry.length + 1) entry.length =
      entry.length - (valuePart entry).length := by
    rw [valuePart, ← hdrop, List.length_drop]
    omega
  rw [← valuePart, hstart] at hdrop
  simp only [readPair?, take_idxOf?, hstart, hdrop, trimmed_eq_inPlace, isEmpty_inPlace_iff]
  rfl

section Pair

variable {entry : Bytes} {pos : Nat}

theorem between_pairAt (h : keyOf entry ≠ []) :
    (pairAt entry pos).Between pos (pos + entry.length) := by
  obtain ⟨colon, hsplit⟩ := exists_eq_append_valuePart entry
  have hlength := congrArg List.length hsplit
  simp only [List.length_append] at hlength
  have hkey := bounds_inPlace (entry.takeWhile (· != ascii ':')) pos
  have hvalue := bounds_inPlace (valuePart entry) (pos + (entry.length - (valuePart entry).length))
  have hpos : 0 < (trim (entry.takeWhile (· != ascii ':'))).length := List.length_pos_iff.mpr h
  refine ⟨hkey.1, ?_, ?_, hvalue.2.1, ?_⟩
  · simp only [pairAt, inPlace]
    omega
  · simp only [pairAt]
    omega
  · simp only [pairAt]
    omega

theorem between_readPair? {e : KeyEntry} (h : readPair? entry pos = some e) :
    e.Between pos (pos + entry.length) := by
  rw [readPair?_eq] at h
  split at h
  · cases h
  · rename_i hne
    cases h
    exact between_pairAt hne

/-- Key and value of an entry stand where the entry has them. -/
theorem extract_pairAt {text : Bytes} (h : Stands text pos entry) :
    text.extract (pairAt entry pos).key.start (pairAt entry pos).key.stop = keyOf entry ∧
    text.extract (pairAt entry pos).value.start (pairAt entry pos).value.stop = valueOf entry := by
  obtain ⟨colon, hsplit⟩ := exists_eq_append_valuePart entry
  have hlength := congrArg List.length hsplit
  simp only [List.length_append] at hlength
  have hstart : entry.length - (valuePart entry).length =
      (entry.takeWhile (· != ascii ':')).length + colon.length := by omega
  rw [hsplit] at h
  refine ⟨extract_inPlace h.left, ?_⟩
  have hvalue := h.right.right
  rw [Nat.add_assoc, ← hstart] at hvalue
  exact extract_inPlace hvalue

theorem pairAt_add (entry : Bytes) (pos d : Nat) :
    pairAt entry (pos + d) = (pairAt entry pos).shift d := by
  simp only [pairAt, KeyEntry.shift, Nat.add_right_comm pos d, inPlace_add]

end Pair

/-! ## Lists -/

section Entries

variable {entries : List Bytes} {pos : Nat}

theorem between_readEntries {e : KeyEntry} (h : e ∈ readEntries entries pos) :
    e.Between pos (pos + ([ascii ','].intercalate entries).length) := by
  induction entries generalizing pos with
  | nil => cases h
  | cons entry rest ih =>
    rw [readEntries, List.mem_append, Option.mem_toList] at h
    rw [intercalate_eq_append, List.length_append]
    rcases h with h | h
    · have hbetween := between_readPair? h
      exact { hbetween with le_stop := by have := hbetween.le_stop; omega }
    · have hbetween := ih h
      have hne : rest ≠ [] := by
        rintro rfl
        cases h
      have hstart := hbetween.start_le
      have hstop := hbetween.le_stop
      rw [if_neg hne, List.length_cons]
      exact { hbetween with start_le := by omega, le_stop := by omega }

/-- Between two entries there is a comma. -/
theorem pairwise_readEntries (entries : List Bytes) (pos : Nat) :
    (readEntries entries pos).Pairwise fun a b => a.value.stop < b.key.start := by
  induction entries generalizing pos with
  | nil => exact .nil
  | cons entry rest ih =>
    rw [readEntries, List.pairwise_append]
    refine ⟨?_, ih _, ?_⟩
    · cases readPair? entry pos with
      | none => exact .nil
      | some e => exact List.pairwise_singleton _ e
    · intro a ha b hb
      have hstop := (between_readPair? (Option.mem_toList.mp ha)).le_stop
      have hstart := (between_readEntries hb).start_le
      omega

/-- The bytes of the keys and values are those of the entries that have a key. -/
theorem pairs_readEntries {text : Bytes} (h : Stands text pos ([ascii ','].intercalate entries)) :
    (readEntries entries pos).map (fun e =>
        (text.extract e.key.start e.key.stop, text.extract e.value.start e.value.stop)) =
      (entries.map fun entry => (keyOf entry, valueOf entry)).filter (·.1 ≠ []) := by
  induction entries generalizing pos with
  | nil => rfl
  | cons entry rest ih =>
    rw [intercalate_eq_append] at h
    have hrest : (readEntries rest (pos + entry.length + 1)).map (fun e =>
          (text.extract e.key.start e.key.stop, text.extract e.value.start e.value.stop)) =
        (rest.map fun entry => (keyOf entry, valueOf entry)).filter (·.1 ≠ []) := by
      by_cases hnil : rest = []
      · subst hnil
        rfl
      · rw [if_neg hnil] at h
        exact ih h.right.tail
    rw [readEntries, List.map_append, hrest, List.map_cons, readPair?_eq]
    by_cases hkey : keyOf entry = []
    · rw [if_pos hkey, List.filter_cons_of_neg (by simpa using hkey)]
      rfl
    · obtain ⟨hk, hv⟩ := extract_pairAt h.left
      rw [if_neg hkey, List.filter_cons_of_pos (by simpa using hkey)]
      simp only [Option.toList_some, List.map_singleton, hk, hv, List.singleton_append]

theorem keys_readEntries {text : Bytes} (h : Stands text pos ([ascii ','].intercalate entries)) :
    (readEntries entries pos).map (fun e => text.extract e.key.start e.key.stop) =
      (entries.map keyOf).filter (· ≠ []) := by
  have hpairs := congrArg (List.map Prod.fst) (pairs_readEntries h)
  simpa only [List.map_map, List.filter_map, Function.comp_def] using hpairs

theorem readEntries_add (entries : List Bytes) (pos d : Nat) :
    readEntries entries (pos + d) = (readEntries entries pos).map (·.shift d) := by
  induction entries generalizing pos with
  | nil => rfl
  | cons entry rest ih =>
    have hnext : pos + d + entry.length + 1 = pos + entry.length + 1 + d := by omega
    rw [readEntries, readEntries, hnext, ih, List.map_append, readPair?_eq, readPair?_eq,
      pairAt_add]
    split <;> rfl

/-- Where an entry of a list divided by commas starts: after the entries before it and their
commas. -/
def entryStart (entries : List Bytes) (k : Nat) : Nat :=
  ((entries.take k).flatMap (· ++ [ascii ','])).length

/-- The entries that have a key, each at its place in a list that stands at `base`. -/
def placedPairs (entries : List Bytes) (base : Nat) : List KeyEntry :=
  (entries.zipIdx.filter (keyOf ·.1 ≠ [])).map fun (entry, k) =>
    pairAt entry (base + entryStart entries k)

theorem readEntries_eq_placedPairs (entries : List Bytes) (base : Nat) :
    readEntries entries base = placedPairs entries base := by
  -- the entries read before stay in the list, so that the numbers count on
  have hfrom : ∀ before rest, readEntries rest (base + entryStart (before ++ rest) before.length) =
      ((rest.zipIdx before.length).filter (keyOf ·.1 ≠ [])).map fun (entry, k) =>
        pairAt entry (base + entryStart (before ++ rest) k) := by
    intro before rest
    induction rest generalizing before with
    | nil => rfl
    | cons entry rest ih =>
      have hrest := ih (before ++ [entry])
      have hstart : entryStart (before ++ entry :: rest) (before.length + 1) =
          entryStart (before ++ entry :: rest) before.length + (entry.length + 1) := by
        simp [entryStart, List.take_length_add_append]
      rw [List.append_assoc, List.singleton_append, List.length_append, List.length_singleton,
        hstart, ← Nat.add_assoc, ← Nat.add_assoc] at hrest
      rw [readEntries, hrest, readPair?_eq, List.zipIdx_cons]
      by_cases hkey : keyOf entry = []
      · rw [if_pos hkey, List.filter_cons_of_neg (by simpa using hkey)]
        rfl
      · rw [if_neg hkey, List.filter_cons_of_pos (by simpa using hkey)]
        rfl
  exact hfrom [] entries

end Entries

/-! ## Bodies -/

section Body

variable (body : Bytes) (base : Nat)

theorem readKeys_eq_placedPairs :
    readKeys body base = placedPairs (body.splitOn (ascii ',')) base := by
  rw [readKeys, readEntries_eq_placedPairs, splitAt_eq_splitOn]

theorem readKeys_eq_map_shift : readKeys body base = (readKeys body 0).map (·.shift base) := by
  have hadd := readEntries_add (splitAt (ascii ',') body) 0 base
  rwa [Nat.zero_add] at hadd

theorem pairs_readKeys : (readKeys body 0).map (fun e =>
      (body.extract e.key.start e.key.stop, body.extract e.value.start e.value.stop)) =
    ((body.splitOn (ascii ',')).map fun entry => (keyOf entry, valueOf entry)).filter
      (·.1 ≠ []) := by
  have hstands : Stands body 0 ([ascii ','].intercalate (splitAt (ascii ',') body)) := by
    rw [intercalate_splitAt]
    exact List.prefix_refl body
  rw [← splitAt_eq_splitOn, ← pairs_readEntries hstands, ← readKeys]

variable {body} in
theorem between_readKeys {e : KeyEntry} (h : e ∈ readKeys body base) :
    e.Between base (base + body.length) := by
  have hbetween := between_readEntries h
  rwa [intercalate_splitAt] at hbetween

end Body

/-! ## Bodies at any offset -/

/-- Key and value stand in this order between two offsets, and the key is not empty. -/
structure SpansBetween (start stop : Int) (kv : Span × Span) : Prop where
  start_le : start ≤ kv.1.start
  key_lt : kv.1.start < kv.1.stop
  key_le : kv.1.stop ≤ kv.2.start
  value_le : kv.2.start ≤ kv.2.stop
  le_stop : kv.2.stop ≤ stop

/-- As long as the end of a body is an integer of 64 bits, nothing in it is counted past the
last. -/
theorem keySpans_eq {body : Bytes} {base : Int} (h : base + body.length ≤ Integer.greatest) :
    keySpans body base =
      (readKeys body 0).map fun e => (e.key.toSpan.move base, e.value.toSpan.move base) := by
  have hspan : ∀ s : Segment, s.start ≤ s.stop → s.stop ≤ body.length →
      spanFrom base s = s.toSpan.move base := by
    intro s hle hstop
    rw [spanFrom, Integer.countUp_of_le (by omega), Integer.countUp_of_le (by omega), Span.move,
      Int.add_comm base, Int.add_comm base]
    rfl
  refine List.map_congr_left fun e he => ?_
  have hbetween := between_readKeys 0 he
  have hlt := hbetween.key_lt
  have hkey := hbetween.key_le
  have hvalue := hbetween.value_le
  have hstop := hbetween.le_stop
  rw [hspan e.key (by omega) (by omega), hspan e.value hvalue (by omega)]

/-- The entries of a body are those between its commas that have a key, in order and in place. They
stand inside the body, one after another, and move with it; inside a text they are those of
`readKeys`. This is so wherever the end of the body is an integer of 64 bits. -/
theorem keySpans_exact (body : Bytes) (base : Int)
    (h : base + body.length ≤ Integer.greatest) :
    (∀ b, isPadding b = true ↔ b = ascii ' ' ∨ b = ascii '\t') ∧
    keySpans body base = (placedPairs (body.splitOn (ascii ',')) 0).map (fun e =>
      (e.key.toSpan.move base, e.value.toSpan.move base)) ∧
    (keySpans body base).map (fun kv =>
        (body.extract (kv.1.start - base).toNat (kv.1.stop - base).toNat,
          body.extract (kv.2.start - base).toNat (kv.2.stop - base).toNat)) =
      ((body.splitOn (ascii ',')).map fun entry => (keyOf entry, valueOf entry)).filter
        (·.1 ≠ []) ∧
    (∀ kv ∈ keySpans body base, SpansBetween base (base + body.length) kv) ∧
    (keySpans body base).Pairwise (fun a b => a.2.stop < b.1.start) ∧
    (∀ d, base + d + body.length ≤ Integer.greatest →
      keySpans body (base + d) =
        (keySpans body base).map fun kv => (kv.1.move d, kv.2.move d)) ∧
    ∀ o : Nat, base = o → keySpans body base =
      (readKeys body o).map fun e => (e.key.toSpan, e.value.toSpan) := by
  refine ⟨fun b => isPadding_iff, ?placed, ?bytes, ?bounds, ?order, ?moved, ?inside⟩
  case placed => rw [keySpans_eq h, readKeys_eq_placedPairs]
  case bytes =>
    rw [keySpans_eq h, List.map_map, ← pairs_readKeys]
    refine List.map_congr_left fun e _ => ?_
    simp only [Function.comp_apply, Span.move, Segment.toSpan, Int.add_sub_cancel,
      Int.toNat_natCast]
  case bounds =>
    intro kv hkv
    rw [keySpans_eq h] at hkv
    obtain ⟨e, he, rfl⟩ := List.mem_map.mp hkv
    obtain ⟨hstart, hlt, hkey, hvalue, hstop⟩ := between_readKeys 0 he
    constructor <;> simp only [Span.move, Segment.toSpan] <;> omega
  case order =>
    rw [keySpans_eq h, List.pairwise_map]
    refine (pairwise_readEntries _ 0).imp fun {a b} hlt => ?_
    simp only [Span.move, Segment.toSpan]
    omega
  case moved =>
    intro d hd
    rw [keySpans_eq h, keySpans_eq hd, List.map_map]
    refine List.map_congr_left fun e _ => ?_
    simp only [Function.comp_apply, Span.move, Int.add_assoc]
  case inside =>
    rintro o rfl
    rw [keySpans_eq h, readKeys_eq_map_shift body o, List.map_map]
    refine List.map_congr_left fun e _ => ?_
    simp only [Function.comp_apply, KeyEntry.shift, Segment.toSpan, Span.move, Int.natCast_add]

/-- A blank entry, an entry without a value and a comma at the end, in a body that starts before the
text and moves into it. -/
theorem keySpans_exact_moved :
    keySpans (utf8 " a : b,, c,") (-4) = [(⟨-3, -2⟩, ⟨1, 2⟩), (⟨5, 6⟩, ⟨6, 6⟩)] ∧
    keySpans (utf8 " a : b,, c,") 10 = [(⟨11, 12⟩, ⟨15, 16⟩), (⟨19, 20⟩, ⟨20, 20⟩)] := by
  have hrun : keySpans (utf8 " a : b,, c,") (-4) = [(⟨-3, -2⟩, ⟨1, 2⟩), (⟨5, 6⟩, ⟨6, 6⟩)] := by
    decide
  obtain ⟨-, -, -, -, -, hmoved, -⟩ := keySpans_exact (utf8 " a : b,, c,") (-4) (by decide)
  refine ⟨hrun, ?_⟩
  have hten := hmoved 14 (by decide)
  rw [hrun] at hten
  exact hten

/-- At the greatest integer, the end of the first byte is counted as the least. -/
theorem keySpans_past_greatest :
    keySpans (utf8 "a") Integer.greatest =
      [(⟨Integer.greatest, Integer.least⟩, ⟨Integer.least, Integer.least⟩)] ∧
    ¬ ∀ kv ∈ keySpans (utf8 "a") Integer.greatest,
      SpansBetween Integer.greatest (Integer.greatest + (utf8 "a").length) kv := by
  have hrun : keySpans (utf8 "a") Integer.greatest =
      [(⟨Integer.greatest, Integer.least⟩, ⟨Integer.least, Integer.least⟩)] := by decide
  refine ⟨hrun, fun h => ?_⟩
  rw [hrun] at h
  have hlt := (h _ List.mem_cons_self).key_lt
  exact absurd hlt (by decide)

end Directive

end Markdown

end DocTokens
