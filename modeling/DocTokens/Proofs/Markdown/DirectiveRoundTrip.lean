import DocTokens.Proofs.Markdown.DirectiveGrammar

/-! # Writing directives and reading them back

Names, labels, keys and values that have none of the bytes that would end them early are written
with brackets, colons and commas, with or without padding. The reader finds in the text what was
written, whatever follows on the line.
-/

namespace DocTokens.Markdown.Directive

open Bytes

/-- What a directive says: its name, its label and, between curly brackets, keys with their
values. -/
structure Content where
  name : Bytes
  label : Option Bytes
  pairs : Option (List (Bytes × Bytes))

/-- A body with the given keys and values, and the same padding after every colon and comma. -/
def writeBody (gap : Bytes) (pairs : List (Bytes × Bytes)) : Bytes :=
  (ascii ',' :: gap).intercalate (pairs.map fun p => p.1 ++ ascii ':' :: (gap ++ p.2))

namespace Content

def spell (c : Content) (gap : Bytes) : Spelling := ⟨c.name, c.label, c.pairs.map (writeBody gap)⟩

/-- No part has a byte that would end it early. -/
structure Writable (c : Content) : Prop where
  name_start : ∃ b more, c.name = b :: more ∧ isNameStart b = true
  name_bytes : ∀ b ∈ c.name, isNameByte b = true
  label : ∀ inside, c.label = some inside → ascii ']' ∉ inside ∧ newline ∉ inside
  key : ∀ ps, c.pairs = some ps → ∀ p ∈ ps,
    ascii ',' ∉ p.1 ∧ ascii ':' ∉ p.1 ∧ ascii '\x7d' ∉ p.1 ∧ newline ∉ p.1
  value : ∀ ps, c.pairs = some ps → ∀ p ∈ ps,
    ascii ',' ∉ p.2 ∧ ascii '\x7d' ∉ p.2 ∧ newline ∉ p.2

end Content

section Writing

variable {gap : Bytes} {pairs : List (Bytes × Bytes)}

theorem trim_append {lead : Bytes} (h : ∀ b ∈ lead, isPadding b = true) (s : Bytes) :
    trim (lead ++ s) = trim s := by
  rw [trim, List.dropWhile_append_of_pos h, trim]

theorem not_mem_of_padding {b : UInt8} (h : ∀ c ∈ gap, isPadding c = true)
    (hb : isPadding b = false) : b ∉ gap := by
  intro hmem
  rw [h b hmem] at hb
  cases hb

/-- Padding around key and value of an entry is not read. -/
theorem pair_of_entry {lead key : Bytes} (value : Bytes) (hlead : ∀ b ∈ lead, isPadding b = true)
    (hgap : ∀ b ∈ gap, isPadding b = true) (hkey : ascii ':' ∉ key) :
    (keyOf (lead ++ (key ++ ascii ':' :: (gap ++ value))),
      valueOf (lead ++ (key ++ ascii ':' :: (gap ++ value)))) = (trim key, trim value) := by
  have hfront : ∀ b ∈ lead ++ key, (b != ascii ':') = true := by
    refine ne_of_not_mem fun hmem => ?_
    rcases List.mem_append.mp hmem with hmem | hmem
    · exact not_mem_of_padding hlead (by decide) hmem
    · exact hkey hmem
  have hstop : ∀ b, (ascii ':' :: (gap ++ value)).head? = some b → (b != ascii ':') = false := by
    intro b hb
    obtain rfl := Option.some.inj hb
    decide
  rw [← List.append_assoc, keyOf, valueOf, valuePart, takeWhile_eq_of_head? hfront hstop,
    List.dropWhile_append_of_pos hfront, trim_append hlead]
  rw [List.dropWhile_cons_of_neg (by decide), List.tail_cons, trim_append hgap]

/-- What follows a comma, up to the next one, starts with the padding. -/
theorem intercalate_gap (gap entry : Bytes) (entries : List Bytes) :
    (ascii ',' :: gap).intercalate (entry :: entries) =
      [ascii ','].intercalate (entry :: entries.map (gap ++ ·)) := by
  have hlead : ∀ (entry : Bytes) (rest : List Bytes),
      gap ++ [ascii ','].intercalate (entry :: rest) =
      [ascii ','].intercalate ((gap ++ entry) :: rest) := by
    intro entry rest
    rw [intercalate_eq_append, intercalate_eq_append, List.append_assoc]
  induction entries generalizing entry with
  | nil => simp
  | cons next entries ih =>
    rw [List.intercalate_cons_cons, ih, List.map_cons, List.intercalate_cons_cons, ← hlead]
    simp

theorem mem_intercalate {sep : Bytes} {pieces : List Bytes} {b : UInt8}
    (h : b ∈ sep.intercalate pieces) : b ∈ sep ∨ ∃ piece ∈ pieces, b ∈ piece := by
  induction pieces with
  | nil => simp at h
  | cons piece rest ih =>
    cases rest with
    | nil => exact .inr ⟨piece, List.mem_cons_self, by simpa using h⟩
    | cons next rest =>
      rw [List.intercalate_cons_cons, List.append_assoc, List.mem_append, List.mem_append] at h
      rcases h with h | h | h
      · exact .inr ⟨piece, List.mem_cons_self, h⟩
      · exact .inl h
      · rcases ih h with h | ⟨piece', hpiece, hb⟩
        · exact .inl h
        · exact .inr ⟨piece', List.mem_cons_of_mem _ hpiece, hb⟩

theorem not_mem_writeBody {b : UInt8} (hgap : ∀ c ∈ gap, isPadding c = true)
    (hb : isPadding b = false) (hcomma : b ≠ ascii ',') (hcolon : b ≠ ascii ':')
    (hpairs : ∀ p ∈ pairs, b ∉ p.1 ∧ b ∉ p.2) : b ∉ writeBody gap pairs := by
  have hnot := not_mem_of_padding hgap hb
  intro hmem
  rcases mem_intercalate hmem with hsep | ⟨entry, hentry, hb⟩
  · rcases List.mem_cons.mp hsep with heq | hsep
    · exact hcomma heq
    · exact hnot hsep
  · obtain ⟨p, hp, rfl⟩ := List.mem_map.mp hentry
    obtain ⟨hkey, hvalue⟩ := hpairs p hp
    simp only [List.mem_append, List.mem_cons] at hb
    rcases hb with hb | hb | hb | hb
    · exact hkey hb
    · exact hcolon hb
    · exact hnot hb
    · exact hvalue hb

/-- The entries of a written body are the pairs it was written from. -/
theorem pairs_writeBody (hgap : ∀ b ∈ gap, isPadding b = true)
    (hkey : ∀ p ∈ pairs, ascii ',' ∉ p.1 ∧ ascii ':' ∉ p.1)
    (hvalue : ∀ p ∈ pairs, ascii ',' ∉ p.2) :
    (((writeBody gap pairs).splitOn (ascii ',')).map
        fun entry => (keyOf entry, valueOf entry)).filter
        (·.1 ≠ []) = (pairs.map fun p => (trim p.1, trim p.2)).filter (·.1 ≠ []) := by
  cases pairs with
  | nil => rfl
  | cons p rest =>
    have hcomma := not_mem_of_padding hgap (b := ascii ',') (by decide)
    have hentry : ∀ q ∈ p :: rest, ascii ',' ∉ q.1 ++ ascii ':' :: (gap ++ q.2) := by
      intro q hq hmem
      simp only [List.mem_append, List.mem_cons] at hmem
      rcases hmem with hmem | hmem | hmem | hmem
      · exact (hkey q hq).1 hmem
      · exact absurd hmem (by decide)
      · exact hcomma hmem
      · exact hvalue q hq hmem
    rw [writeBody, List.map_cons, intercalate_gap,
      List.splitOn_intercalate _ ?_ (List.cons_ne_nil _ _)]
    · rw [List.map_cons, List.map_cons, List.map_map, List.map_map]
      have hfirst : (keyOf (p.1 ++ ascii ':' :: (gap ++ p.2)),
          valueOf (p.1 ++ ascii ':' :: (gap ++ p.2))) = (trim p.1, trim p.2) :=
        @pair_of_entry gap [] p.1 p.2 nofun hgap (hkey p List.mem_cons_self).2
      rw [hfirst]
      congr 2
      refine List.map_congr_left fun q hq => ?_
      exact pair_of_entry q.2 hgap hgap (hkey q (List.mem_cons_of_mem _ hq)).2
    · intro entry hmem
      rcases List.mem_cons.mp hmem with rfl | hmem
      · exact hentry p List.mem_cons_self
      · rw [List.map_map] at hmem
        obtain ⟨q, hq, rfl⟩ := List.mem_map.mp hmem
        rw [Function.comp_apply, List.mem_append, not_or]
        exact ⟨hcomma, hentry q (List.mem_cons_of_mem _ hq)⟩

namespace Content

variable {c : Content}

theorem Writable.not_mem_body (h : c.Writable) (hgap : ∀ b ∈ gap, isPadding b = true)
    {inside : Bytes} (hinside : (c.spell gap).body = some inside) : ascii '\x7d' ∉ inside ∧
      newline ∉ inside := by
  obtain ⟨ps, hps, rfl⟩ := Option.map_eq_some_iff.mp hinside
  constructor
  · refine not_mem_writeBody hgap (by decide) (by decide) (by decide) fun p hp => ?_
    obtain ⟨-, -, hkey, -⟩ := h.key ps hps p hp
    exact ⟨hkey, (h.value ps hps p hp).2.1⟩
  · refine not_mem_writeBody hgap (by decide) (by decide) (by decide) fun p hp => ?_
    obtain ⟨-, -, -, hkey⟩ := h.key ps hps p hp
    exact ⟨hkey, (h.value ps hps p hp).2.2⟩

theorem Writable.wellFormed (h : c.Writable) (hgap : ∀ b ∈ gap, isPadding b = true) :
    (c.spell gap).WellFormed := by
  refine ⟨h.name_start, h.name_bytes, ?_, ?_⟩
  · exact fun inside hinside => (h.label inside hinside).1
  · exact fun inside hinside => (h.not_mem_body hgap hinside).1

theorem Writable.newline_not_mem (h : c.Writable) (hgap : ∀ b ∈ gap, isPadding b = true) :
    newline ∉ (c.spell gap).render := by
  have hbracketed : ∀ (opening closing : UInt8) (part : Option Bytes), newline ≠ opening →
      newline ≠ closing → (∀ inside, part = some inside → newline ∉ inside) →
      newline ∉ bracketed opening closing part := by
    intro opening closing part hopening hclosing hinside
    cases part with
    | none => exact List.not_mem_nil
    | some inside => simp [bracketed, hopening, hclosing, hinside inside rfl]
  simp only [Spelling.render, Spelling.front, List.mem_append, not_or]
  refine ⟨⟨?name, ?label⟩, ?body⟩
  case name => exact fun hmem => absurd (h.name_bytes newline hmem) (by decide)
  case label =>
    exact hbracketed _ _ _ (by decide) (by decide) fun inside hinside => (h.label inside hinside).2
  case body =>
    exact hbracketed _ _ _ (by decide) (by decide) fun inside hinside =>
      (h.not_mem_body hgap hinside).2

theorem Writable.pairs_spell (h : c.Writable) (hgap : ∀ b ∈ gap, isPadding b = true) :
    (c.spell gap).pairs =
      ((c.pairs.getD []).map fun p => (trim p.1, trim p.2)).filter (·.1 ≠ []) := by
  cases hps : c.pairs with
  | none => rw [Spelling.pairs, spell, hps]; rfl
  | some ps =>
    rw [Spelling.pairs, spell, hps]
    refine pairs_writeBody hgap (fun p hp => ?_) (fun p hp => (h.value ps hps p hp).1)
    obtain ⟨hcomma, hcolon, -⟩ := h.key ps hps p hp
    exact ⟨hcomma, hcolon⟩

end Content

/-- Where keys are not empty and nothing is to be trimmed, all is kept. -/
theorem filter_trim_eq_self
    (h : ∀ p ∈ pairs, p.1 ≠ [] ∧ trim p.1 = p.1 ∧ trim p.2 = p.2) :
    (pairs.map fun p => (trim p.1, trim p.2)).filter (·.1 ≠ []) = pairs := by
  have hmap : (pairs.map fun p => (trim p.1, trim p.2)) = pairs := by
    refine (List.map_congr_left fun p hp => ?_).trans (List.map_id pairs)
    obtain ⟨-, hkey, hvalue⟩ := h p hp
    rw [hkey, hvalue]
    rfl
  rw [hmap, List.filter_eq_self]
  intro p hp
  simpa using (h p hp).1

end Writing

/-- The reader accepts the grammar, each part as long as the line allows, and undoes writing. -/
theorem readAt_exact :
    (∀ b, isNameStart b = true ↔ ascii 'A' ≤ b ∧ b ≤ ascii 'Z') ∧
    (∀ b, isNameByte b = true ↔
      isNameStart b = true ∨ (ascii '0' ≤ b ∧ b ≤ ascii '9') ∨ b = ascii '_') ∧
    (∀ (text : Bytes) (o : Nat),
      ((readAt text o).1 = none ↔ (text.restOfLine o).length < 2 ∨
        ∃ b, (text.restOfLine o)[1]? = some b ∧ isNameStart b = false) ∧
      ((readAt text o).1 = none → (readAt text o).2 = o) ∧
      (∀ d next, readAt text o = (some d, next) ↔
        ∃ s rest, Written (text.restOfLine o) s rest ∧ d = s.directive o rest ∧
          next = d.segment.stop) ∧
      ∀ s rest, Written (text.restOfLine o) s rest →
        (s.directive o rest).contentIn text = (s.name, s.label, s.pairs) ∧
        newline ∉ text.extract o (o + 1 + s.render.length) ∧
        ∀ u, (s.directive o rest).unclosed = some u ↔
          s.LeavesOpen rest ∧ u = ⟨o + 1 + s.render.length, o + 1 + s.render.length + 1⟩) ∧
    ∀ (c : Content) (gap before tail text : Bytes) (first : UInt8), c.Writable →
      (∀ b ∈ gap, isPadding b = true) → first ≠ newline →
      (c.spell gap).EndsBefore (tail.restOfLine 0) →
      text = before ++ first :: ((c.spell gap).render ++ tail) →
      ∃ d, readAt text before.length = (some d, d.segment.stop) ∧
        d.segment = ⟨before.length, before.length + 1 + (c.spell gap).render.length⟩ ∧
        d.contentIn text = (c.name, c.label,
          ((c.pairs.getD []).map fun p => (trim p.1, trim p.2)).filter (·.1 ≠ [])) ∧
        ((∀ p ∈ c.pairs.getD [], p.1 ≠ [] ∧ trim p.1 = p.1 ∧ trim p.2 = p.2) →
          d.contentIn text = (c.name, c.label, c.pairs.getD [])) ∧
        ∀ u, d.unclosed = some u ↔ (c.spell gap).LeavesOpen (tail.restOfLine 0) ∧
          u = ⟨d.segment.stop, d.segment.stop + 1⟩ := by
  refine ⟨fun b => isNameStart_iff, fun b => isNameByte_iff, ?_, ?_⟩
  · intro text o
    refine ⟨?_, ?_, fun d next => readAt_eq_some_iff, ?_⟩
    · rw [readAt_eq_none_iff, read?_eq_none_iff]
    · intro hnone
      rw [readAt, readAt_eq_none_iff.mp hnone]
    · intro s rest hs
      exact ⟨hs.contentIn_eq, hs.newline_not_mem,
        fun u => Spelling.unclosed_directive_iff hs.toEndsBefore⟩
  · rintro c gap before tail text first hc hgap hfirst hends rfl
    have hs := written_append before (hc.wellFormed hgap) hends hfirst (hc.newline_not_mem hgap)
    have hcontent := hs.contentIn_eq
    rw [hc.pairs_spell hgap] at hcontent
    refine ⟨_, readAt_of_written hs, rfl, hcontent, ?_,
      fun u => Spelling.unclosed_directive_iff hends⟩
    intro htrimmed
    rw [hcontent, filter_trim_eq_self htrimmed]
    rfl

/-- Padding after colons and commas, a value that is missing, and more text on the line. -/
theorem readAt_exact_padded : ∃ d,
    readAt (utf8 "a !N_1[x y]\x7bk: v, l: \x7db\n") 2 = (some d, d.segment.stop) ∧
    d.segment = ⟨2, 22⟩ ∧
    d.contentIn (utf8 "a !N_1[x y]\x7bk: v, l: \x7db\n") =
      (utf8 "N_1", some (utf8 "x y"), [(utf8 "k", utf8 "v"), (utf8 "l", [])]) ∧
    d.unclosed = none := by
  have hc : (Content.mk (utf8 "N_1") (some (utf8 "x y"))
      (some [(utf8 "k", utf8 "v"), (utf8 "l", [])])).Writable := by
    refine ⟨⟨ascii 'N', utf8 "_1", by decide, by decide⟩, List.all_eq_true.mp (by decide),
      ?_, ?_, ?_⟩
    · rintro _ ⟨⟩
      decide
    · rintro _ ⟨⟩
      decide
    · rintro _ ⟨⟩
      decide
  have hgap : ∀ b ∈ utf8 " ", isPadding b = true := List.all_eq_true.mp (by decide)
  obtain ⟨d, hread, hsegment, -, hcontent, hunclosed⟩ := readAt_exact.2.2.2 _ (utf8 " ") (utf8 "a ")
    (utf8 "b\n") (utf8 "a !N_1[x y]\x7bk: v, l: \x7db\n") (ascii '!') hc hgap (by decide)
    ⟨nofun, nofun, nofun⟩ (by decide)
  refine ⟨d, hread, hsegment, hcontent (by decide), ?_⟩
  exact Option.eq_none_iff_forall_ne_some.mpr fun u hu => nomatch ((hunclosed u).mp hu).1.1

-- the second opening bracket has its closing one only on the next line
example : readAt (utf8 "see !A1[x]\x7b k: v\n\x7d") 4 =
    (some ⟨⟨4, 10⟩, ⟨5, 7⟩, some ⟨8, 9⟩, [], some ⟨10, 11⟩⟩, 10) := by decide

end DocTokens.Markdown.Directive
