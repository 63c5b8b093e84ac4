import DocTokens.Proofs.Markdown.DirectiveGrammar

/-! # How directives are written

The reader finds the parts of a directive by offsets into the line, into the body and into the
entries of the body. Here the offsets are traced back to the bytes of the text that stand there.
-/

namespace DocTokens

namespace Bytes

theorem restOfLine_of_lineAt {text line : Bytes} {before after : List Bytes} {o c : Nat}
    (h : LineAt (splitAt newline text) o before line after c) :
    text.restOfLine o = line.drop c ++ (lineTail after).take 1 := by
  have hdrop : text.drop o = line.drop c ++ lineTail after := by
    have htext := h.text_eq
    rw [intercalate_splitAt] at htext
    rw [htext, h.offset_eq, ← List.drop_drop, List.drop_left,
      List.drop_append_of_le_length h.column_le]
  have hline : newline ∉ line.drop c := fun hmem =>
    (LineIndex.not_newline_of_lineAt h).2 (List.mem_of_mem_drop hmem)
  have htake : (line.drop c ++ lineTail after).takeWhile (· != newline) = line.drop c := by
    rw [List.takeWhile_append_of_pos (ne_of_not_mem hline)]
    cases after with
    | nil => exact List.append_nil _
    | cons next after => simp [lineTail]
  rw [restOfLine, hdrop, htake, List.take_length_add_append]

end Bytes

namespace Markdown.Directive

open Bytes

/-- After its first byte a line has a name and perhaps a label, at the given segments. -/
structure Fronted (line : Bytes) (start : Nat) (name : Bytes) (label : Option Bytes)
    (nameAt : Segment) (labelAt : Option Segment) : Prop where
  name_eq : name = line.tail.takeWhile isNameByte
  name_ne_nil : name ≠ []
  closed : ∀ inside, label = some inside → ascii ']' ∉ inside
  nameAt_eq : nameAt = ⟨start + 1, start + 1 + name.length⟩
  labelAt_eq : labelAt = label.map fun inside =>
    ⟨start + 1 + name.length + 1, start + 1 + name.length + 1 + inside.length⟩

/-- The line is a directive with the given spelling, after its first byte, and some rest. -/
structure Spells (line : Bytes) (start : Nat) (d : Directive) (s : Spelling) (rest : Bytes) :
    Prop where
  line_eq : ∃ first, line = first :: (s.render ++ rest)
  front : Fronted line start s.name s.label d.name d.label
  closed : ∀ inside, s.body = some inside → ascii '\x7d' ∉ inside
  segment : d.segment = ⟨start, start + 1 + s.render.length⟩
  keys : d.keys = match s.body with
    | some inside => readKeys inside (start + 1 + s.front.length + 1)
    | none => []
  unclosed : ∀ u, d.unclosed = some u → u = ⟨d.segment.stop, d.segment.stop + 1⟩ ∧
    ∃ more, rest = ascii '[' :: more ∧ ascii ']' ∉ more ∨
      rest = ascii '\x7b' :: more ∧ ascii '\x7d' ∉ more

/-- What the reader accepts is written as a directive. -/
theorem exists_spells {line : Bytes} {start : Nat} {d : Directive} (h : read? line start = some d) :
    ∃ s rest, Spells line start d s rest := by
  obtain ⟨s, rest, hs, rfl⟩ := read?_eq_some_iff.mp h
  obtain ⟨first, hline⟩ := hs.line_eq
  have hname : s.name = line.tail.takeWhile isNameByte := by
    rw [hline, List.tail_cons, Spelling.takeWhile_render hs.toWellFormed hs.toEndsBefore]
  refine ⟨s, rest, ⟨first, hline⟩, ⟨hname, hs.name_ne_nil, hs.label_closed, rfl, rfl⟩,
    hs.body_closed, rfl, rfl, ?_⟩
  intro u hu
  obtain ⟨⟨-, hopen⟩, rfl⟩ := (Spelling.unclosed_directive_iff hs.toEndsBefore).mp hu
  refine ⟨rfl, ?_⟩
  rcases hopen with ⟨-, more, hmore⟩ | ⟨more, hmore⟩
  · exact ⟨more, .inl hmore⟩
  · exact ⟨more, .inr hmore⟩

namespace Spells

variable {line rest : Bytes} {start : Nat} {d : Directive} {s : Spelling}

theorem length_front_le (s : Spelling) : s.front.length ≤ s.render.length := by
  simp [Spelling.render]

/-- Keys stand between the brackets of the body. -/
theorem bounds_key (h : Spells line start d s rest) {e : KeyEntry} (he : e ∈ d.keys) :
    start + 1 + s.front.length < e.key.start ∧ e.key.start < e.key.stop ∧
      e.key.stop < d.segment.stop := by
  rw [h.keys] at he
  rw [h.segment, Spelling.render]
  cases hbody : s.body with
  | none => simp [hbody] at he
  | some inside =>
    rw [hbody] at he
    have hbetween := between_readEntries he
    rw [intercalate_splitAt] at hbetween
    obtain ⟨hstart, hkey, hvalue, hle, hstop⟩ := hbetween
    simp only [bracketed, List.length_append, List.length_cons]
    omega

theorem pairwise_keys (h : Spells line start d s rest) :
    d.keys.Pairwise fun a b => a.key.stop < b.key.start := by
  rw [h.keys]
  cases s.body with
  | none => exact .nil
  | some inside =>
    refine (pairwise_readEntries _ _).imp_of_mem ?_
    intro a b ha _ hlt
    obtain ⟨_, _, hvalue, hle, _⟩ := between_readEntries ha
    omega

theorem getLast?_render (h : Spells line start d s rest) :
    ∃ b, s.render.getLast? = some b ∧ b ≠ newline := by
  refine Spelling.getLast?_render h.front.name_ne_nil fun b hb => ?_
  rw [h.front.name_eq] at hb
  exact List.mem_takeWhile_imp hb

end Spells

/-- Where the body of a directive would open. -/
def bodyStart (d : Directive) : Nat :=
  match d.label with
  | some l => l.stop + 1
  | none => d.name.stop

/-- What a text has at the segments of a directive that stands at an offset. -/
structure WrittenAt (text : Bytes) (o : Nat) (d : Directive) : Prop where
  segment_start : d.segment.start = o
  name_start : d.name.start = o + 1
  name : text.extract d.name.start d.name.stop = (text.restOfLine o).tail.takeWhile isNameByte
  label : ∀ l, d.label = some l → l.start = d.name.stop + 1 ∧
    text[d.name.stop]? = some (ascii '[') ∧ text[l.stop]? = some (ascii ']') ∧
    ascii ']' ∉ text.extract l.start l.stop
  /-- The keys are those of the entries of the body that have one. -/
  body : d.segment.stop = d.bodyStart ∧ d.keys = [] ∨ ∃ stop, d.segment.stop = stop + 1 ∧
    text[d.bodyStart]? = some (ascii '\x7b') ∧ text[stop]? = some (ascii '\x7d') ∧
    ascii '\x7d' ∉ text.extract (d.bodyStart + 1) stop ∧
    d.keys.map (fun e => text.extract e.key.start e.key.stop) =
      ((splitAt (ascii ',') (text.extract (d.bodyStart + 1) stop)).map keyOf).filter (· ≠ [])
  unclosed : ∀ u, d.unclosed = some u → u = ⟨d.segment.stop, d.segment.stop + 1⟩ ∧
    (text[d.segment.stop]? = some (ascii '[') ∧
        ascii ']' ∉ (text.restOfLine o).drop d.segment.length ∨
      text[d.segment.stop]? = some (ascii '\x7b') ∧
        ascii '\x7d' ∉ (text.restOfLine o).drop d.segment.length)

theorem Spells.writtenAt {text rest : Bytes} {o : Nat} {d : Directive} {s : Spelling}
    (h : Spells (text.restOfLine o) o d s rest) : WrittenAt text o d := by
  obtain ⟨first, hline⟩ := h.line_eq
  have hstands : Stands text (o + 1) (s.render ++ rest) := by
    have hall := stands_restOfLine text o
    rw [hline] at hall
    exact hall.tail
  have hrest : (text.restOfLine o).drop d.segment.length = rest := by
    have hlength : d.segment.length = s.render.length + 1 := by
      simp only [h.segment, Segment.length]
      omega
    rw [hlength, hline, List.drop_succ_cons, List.drop_left]
  have hfront : Stands text (o + 1) s.front := hstands.left.left
  have hbodyStart : d.bodyStart = o + 1 + s.front.length := by
    unfold bodyStart Spelling.front
    rw [h.front.labelAt_eq, h.front.nameAt_eq]
    cases s.label with
    | none => simp [bracketed]
    | some inside =>
      simp only [Option.map_some, bracketed, List.length_append, List.length_cons, List.length_nil]
      omega
  refine ⟨by rw [h.segment], by rw [h.front.nameAt_eq], ?name, ?label, ?body, ?unclosed⟩
  case name =>
    rw [h.front.nameAt_eq, ← h.front.name_eq]
    exact hfront.left.extract_eq
  case label =>
    rintro l hl
    rw [h.front.labelAt_eq] at hl
    obtain ⟨inside, hlabel, rfl⟩ := Option.map_eq_some_iff.mp hl
    have hbracket := hfront.right
    rw [hlabel, bracketed] at hbracket
    rw [h.front.nameAt_eq]
    refine ⟨rfl, hbracket.getElem?_eq, hbracket.tail.right.getElem?_eq, ?_⟩
    rw [hbracket.tail.left.extract_eq]
    exact h.front.closed inside hlabel
  case body =>
    rw [hbodyStart, h.segment, h.keys]
    cases hbody : s.body with
    | none =>
      refine .inl ⟨?_, rfl⟩
      rw [Spelling.render, hbody, bracketed, List.append_nil]
    | some inside =>
      have hbracket := hstands.left.right
      rw [hbody, bracketed] at hbracket
      have hinside := hbracket.tail.left
      refine .inr ⟨o + 1 + s.front.length + 1 + inside.length, ?_, hbracket.getElem?_eq,
        hbracket.tail.right.getElem?_eq, ?_⟩
      · simp only [Spelling.render, hbody, bracketed, List.length_append, List.length_cons,
          List.length_nil]
        omega
      · rw [hinside.extract_eq]
        refine ⟨h.closed inside hbody, keys_readEntries ?_⟩
        rwa [intercalate_splitAt]
  case unclosed =>
    intro u hu
    obtain ⟨rfl, more, hmore⟩ := h.unclosed u hu
    refine ⟨rfl, ?_⟩
    have hstop : Stands text d.segment.stop rest := by
      rw [h.segment]
      exact hstands.right
    rw [hrest]
    rcases hmore with ⟨hopening, hclosing⟩ | ⟨hopening, hclosing⟩
    · rw [hopening] at hstop ⊢
      exact .inl ⟨hstop.getElem?_eq, List.not_mem_cons_of_ne_of_not_mem (by decide) hclosing⟩
    · rw [hopening] at hstop ⊢
      exact .inr ⟨hstop.getElem?_eq, List.not_mem_cons_of_ne_of_not_mem (by decide) hclosing⟩

end Markdown.Directive

end DocTokens
