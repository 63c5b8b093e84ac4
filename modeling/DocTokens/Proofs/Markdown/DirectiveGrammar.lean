import DocTokens.Proofs.Markdown.KeyLists

/-! # The grammar of directives

A directive is a name, a label in square brackets and a body in curly ones, where the last two may
be missing. The reader accepts what this grammar describes, with every part as long as the line
allows, and reads back what was written.
-/

namespace DocTokens

namespace Bytes

/-- Everything up to the first byte that does not belong is taken. -/
theorem takeWhile_eq_of_head? {p : UInt8 → Bool} {front back : Bytes}
    (hfront : ∀ b ∈ front, p b = true) (hback : ∀ b, back.head? = some b → p b = false) :
    (front ++ back).takeWhile p = front := by
  rw [List.takeWhile_append_of_pos hfront]
  cases back with
  | nil => exact List.append_nil front
  | cons b back => rw [List.takeWhile_cons_of_neg (by simp [hback b rfl]), List.append_nil]

theorem restOfLine_eq (text : Bytes) (o : Nat) : text.restOfLine o =
    (text.drop o).takeWhile (· != newline) ++ ((text.drop o).dropWhile (· != newline)).take 1 := by
  have htake : ((text.drop o).takeWhile (· != newline) ++
        (text.drop o).dropWhile (· != newline)).take
        (((text.drop o).takeWhile (· != newline)).length + 1) =
      (text.drop o).takeWhile (· != newline) ++ ((text.drop o).dropWhile (· != newline)).take 1 :=
    List.take_length_add_append 1
  rwa [List.takeWhile_append_dropWhile] at htake

theorem stands_restOfLine (text : Bytes) (o : Nat) : Stands text o (text.restOfLine o) :=
  List.take_prefix _ _

/-- A line goes on to its end. -/
theorem restOfLine_append {before line : Bytes} (tail : Bytes) (h : newline ∉ line) :
    (before ++ (line ++ tail)).restOfLine before.length = line ++ tail.restOfLine 0 := by
  rw [restOfLine, List.drop_left, List.takeWhile_append_of_pos (ne_of_not_mem h),
    List.length_append, Nat.add_assoc, List.take_length_add_append, restOfLine, List.drop_zero]

/-- Only at its end does the rest of a line have a line feed. -/
theorem newline_not_mem_of_prefix {text front : Bytes} {o : Nat} (h : front <+: text.restOfLine o)
    (hlast : front.getLast? ≠ some newline) : newline ∉ front := by
  have hbody : newline ∉ (text.drop o).takeWhile (· != newline) := by
    intro hmem
    simpa using List.mem_takeWhile_imp hmem
  obtain ⟨back, hback⟩ := h
  rw [restOfLine_eq] at hback
  rcases List.append_eq_append_iff.mp hback with ⟨extra, hfront, -⟩ | ⟨extra, hfront, hextra⟩
  · rw [hfront] at hbody
    exact fun hmem => hbody (List.mem_append_left _ hmem)
  · have hshort : extra = [] ∨ ∃ b, extra = [b] := by
      have hlength := congrArg List.length hextra
      rw [List.length_take, List.length_append] at hlength
      rcases Nat.eq_zero_or_pos extra.length with hzero | hpos
      · exact .inl (List.length_eq_zero_iff.mp hzero)
      · exact .inr (List.length_eq_one_iff.mp (by omega))
    rcases hshort with rfl | ⟨b, rfl⟩
    · rwa [hfront, List.append_nil]
    · -- the byte that follows the line is its line feed
      have hb : b = newline := by
        have hnot := List.head?_dropWhile_not (· != newline) (text.drop o)
        cases hdrop : (text.drop o).dropWhile (· != newline) with
        | nil =>
          rw [hdrop] at hextra
          cases hextra
        | cons b' more =>
          rw [hdrop] at hextra hnot
          obtain ⟨rfl, -⟩ := List.cons.inj hextra
          simpa using hnot
      rw [hfront, List.getLast?_concat, hb] at hlast
      exact absurd rfl hlast

end Bytes

namespace Markdown.Directive

open Bytes

/-! ## Names -/

theorem isNameStart_iff {b : UInt8} : isNameStart b = true ↔ ascii 'A' ≤ b ∧ b ≤ ascii 'Z' := by
  simp [isNameStart, isUpper]

theorem isNameByte_iff {b : UInt8} : isNameByte b = true ↔
    isNameStart b = true ∨ (ascii '0' ≤ b ∧ b ≤ ascii '9') ∨ b = ascii '_' := by
  simp [isNameByte, isNameStart, isDigit, or_assoc]

/-! ## Brackets -/

/-- A part in brackets, if it is there. -/
def bracketed (opening closing : UInt8) : Option Bytes → Bytes
  | none => []
  | some inside => opening :: (inside ++ [closing])

section Brackets

variable {opening closing : UInt8} {line inside rest : Bytes}

theorem bracket_of_missing (h : line.head? ≠ some opening) :
    bracket opening closing line = .missing := by
  cases line with
  | nil => rfl
  | cons b line => rw [bracket, if_neg (fun hb => h (congrArg some hb))]

theorem bracket_of_unclosed (h : closing ∉ rest) :
    bracket opening closing (opening :: rest) = .unclosed := by
  rw [bracket, if_pos rfl, List.idxOf?_eq_none_iff.mpr h]

theorem bracket_of_closed (h : closing ∉ inside) :
    bracket opening closing (bracketed opening closing (some inside) ++ rest) =
      .closed inside rest := by
  have hline : bracketed opening closing (some inside) ++ rest =
      opening :: (inside ++ closing :: rest) := by
    simp [bracketed]
  rw [hline, bracket, if_pos rfl, idxOf?_append h]
  simp

/-- A line starts with a part in brackets, or with nothing that could be one. -/
theorem exists_bracketed (opening closing : UInt8) (line : Bytes) : ∃ part rest,
    line = bracketed opening closing part ++ rest ∧
    (∀ inside, part = some inside → closing ∉ inside) ∧
    (part = none → ∀ more, rest = opening :: more → closing ∉ more) := by
  by_cases h : ∃ more, line = opening :: more ∧ closing ∈ more
  · obtain ⟨more, rfl, hmem⟩ := h
    obtain ⟨inside, rest, rfl, hinside⟩ := List.eq_append_cons_of_mem hmem
    refine ⟨some inside, rest, by simp [bracketed], ?_, nofun⟩
    rintro _ ⟨⟩
    exact hinside
  · exact ⟨none, line, rfl, nofun, fun _ more hmore hmem => h ⟨more, hmore, hmem⟩⟩

end Brackets

/-! ## Spellings -/

/-- The bytes of the parts of a directive. -/
structure Spelling where
  name : Bytes
  label : Option Bytes
  body : Option Bytes

namespace Spelling

/-- The name and the label. -/
def front (s : Spelling) : Bytes := s.name ++ bracketed (ascii '[') (ascii ']') s.label

/-- All that follows the first byte of a directive. -/
def render (s : Spelling) : Bytes :=
  s.front ++ bracketed (ascii '\x7b') (ascii '\x7d') s.body

/-- Names have their bytes, and brackets end with the first closing one. -/
structure WellFormed (s : Spelling) : Prop where
  name_start : ∃ b more, s.name = b :: more ∧ isNameStart b = true
  name_bytes : ∀ b ∈ s.name, isNameByte b = true
  label_closed : ∀ inside, s.label = some inside → ascii ']' ∉ inside
  body_closed : ∀ inside, s.body = some inside → ascii '\x7d' ∉ inside

/-- What follows on the line does not belong to the directive: neither a further byte of the name,
nor a label or a body where there could be one. -/
structure EndsBefore (s : Spelling) (rest : Bytes) : Prop where
  name_ends : s.label = none → s.body = none → ∀ b, rest.head? = some b → isNameByte b = false
  label_ends : s.label = none → s.body = none → ∀ more, rest = ascii '[' :: more → ascii ']' ∉ more
  body_ends : s.body = none → ∀ more, rest = ascii '\x7b' :: more → ascii '\x7d' ∉ more

/-- A bracket opens where there could be a label or a body, and nothing on the line closes it. -/
def LeavesOpen (s : Spelling) (rest : Bytes) : Prop :=
  s.body = none ∧ ((s.label = none ∧ ∃ more, rest = ascii '[' :: more ∧ ascii ']' ∉ more) ∨
    ∃ more, rest = ascii '\x7b' :: more ∧ ascii '\x7d' ∉ more)

/-- Whether a bracket opens where there could be a label or a body. -/
def opens (s : Spelling) (rest : Bytes) : Bool :=
  s.body.isNone && (s.label.isNone && rest.head? == some (ascii '[') ||
    rest.head? == some (ascii '\x7b'))

/-- The directive with this spelling at an offset, before the given rest of its line. -/
def directive (s : Spelling) (start : Nat) (rest : Bytes) : Directive where
  segment := ⟨start, start + 1 + s.render.length⟩
  name := ⟨start + 1, start + 1 + s.name.length⟩
  label := s.label.map fun inside =>
    ⟨start + 1 + s.name.length + 1, start + 1 + s.name.length + 1 + inside.length⟩
  keys := match s.body with
    | some inside => readKeys inside (start + 1 + s.front.length + 1)
    | none => []
  unclosed := if s.opens rest then
      some ⟨start + 1 + s.render.length, start + 1 + s.render.length + 1⟩ else none

variable {s : Spelling} {rest : Bytes}

theorem head?_eq_some_iff {b : UInt8} : rest.head? = some b ↔ ∃ more, rest = b :: more := by
  cases rest with
  | nil => simp
  | cons b' more => simp

theorem opens_iff (h : s.EndsBefore rest) : s.opens rest = true ↔ s.LeavesOpen rest := by
  simp only [opens, Bool.and_eq_true, Bool.or_eq_true, Option.isNone_iff_eq_none, beq_iff_eq,
    head?_eq_some_iff, LeavesOpen]
  constructor
  · rintro ⟨hbody, ⟨hlabel, more, hmore⟩ | ⟨more, hmore⟩⟩
    · exact ⟨hbody, .inl ⟨hlabel, more, hmore, h.label_ends hlabel hbody more hmore⟩⟩
    · exact ⟨hbody, .inr ⟨more, hmore, h.body_ends hbody more hmore⟩⟩
  · rintro ⟨hbody, ⟨hlabel, more, hmore, -⟩ | ⟨more, hmore, -⟩⟩
    · exact ⟨hbody, .inl ⟨hlabel, more, hmore⟩⟩
    · exact ⟨hbody, .inr ⟨more, hmore⟩⟩

/-- An opening bracket that nothing closes is reported, and it is the byte after the directive. -/
theorem unclosed_directive_iff (h : s.EndsBefore rest) {start : Nat} {u : Segment} :
    (s.directive start rest).unclosed = some u ↔ s.LeavesOpen rest ∧
      u = ⟨start + 1 + s.render.length, start + 1 + s.render.length + 1⟩ := by
  rw [← opens_iff h, directive]
  by_cases hopens : s.opens rest = true
  · simp [hopens, eq_comm]
  · simp [hopens]

theorem render_append (s : Spelling) (rest : Bytes) : s.render ++ rest =
    s.name ++ (bracketed (ascii '[') (ascii ']') s.label ++
      (bracketed (ascii '\x7b') (ascii '\x7d') s.body ++ rest)) := by
  simp only [render, front, List.append_assoc]

/-- A directive does not end in a line feed. -/
theorem getLast?_render (hne : s.name ≠ []) (hbytes : ∀ b ∈ s.name, isNameByte b = true) :
    ∃ b, s.render.getLast? = some b ∧ b ≠ newline := by
  have hlast : ∀ (a inside : Bytes) (opening closing : UInt8),
      (a ++ opening :: (inside ++ [closing])).getLast? = some closing := by
    intro a inside opening closing
    rw [← List.cons_append, ← List.append_assoc]
    exact List.getLast?_concat
  unfold render front
  cases s.body with
  | some inside => exact ⟨_, hlast _ _ _ _, by decide⟩
  | none =>
    cases s.label with
    | some inside => exact ⟨_, by rw [bracketed, bracketed, List.append_nil, hlast], by decide⟩
    | none =>
      simp only [bracketed, List.append_nil]
      refine ⟨_, List.getLast?_eq_some_getLast hne, ?_⟩
      intro hnewline
      have hbyte := hbytes _ (List.getLast_mem hne)
      rw [hnewline] at hbyte
      exact absurd hbyte (by decide)

theorem WellFormed.name_ne_nil (h : s.WellFormed) : s.name ≠ [] := by
  obtain ⟨b, more, hname, -⟩ := h.name_start
  rw [hname]
  exact List.cons_ne_nil b more

/-- After the name there is a byte that does not belong to it. -/
theorem EndsBefore.name_longest (h : s.EndsBefore rest) {b : UInt8}
    (hb : (bracketed (ascii '[') (ascii ']') s.label ++
      (bracketed (ascii '\x7b') (ascii '\x7d') s.body ++ rest)).head? = some b) :
    isNameByte b = false := by
  cases hlabel : s.label with
  | some inside =>
    rw [hlabel] at hb
    obtain rfl := Option.some.inj hb
    decide
  | none =>
    cases hbody : s.body with
    | some inside =>
      rw [hlabel, hbody] at hb
      obtain rfl := Option.some.inj hb
      decide
    | none =>
      rw [hlabel, hbody] at hb
      exact h.name_ends hlabel hbody b hb

/-- The name is as long as it can be. -/
theorem takeWhile_render (hs : s.WellFormed) (h : s.EndsBefore rest) :
    (s.render ++ rest).takeWhile isNameByte = s.name := by
  rw [render_append]
  exact takeWhile_eq_of_head? hs.name_bytes fun b hb => h.name_longest hb

end Spelling

/-- After its first byte a line has a directive with the given spelling, and then the given rest. -/
structure Written (line : Bytes) (s : Spelling) (rest : Bytes) : Prop extends
    s.WellFormed, s.EndsBefore rest where
  line_eq : ∃ first, line = first :: (s.render ++ rest)

/-! ## Reading -/

section Reading

variable {line rest : Bytes} {s : Spelling} {start : Nat}

/-- After name and label, where no label can open any more, the body is read. -/
theorem readBody_of_front (hs : s.WellFormed) (hends : s.EndsBefore rest)
    (hopen : s.label = none → s.body = none → rest.head? ≠ some (ascii '[')) (start : Nat) :
    readBody start (start + 1 + s.front.length) (s.directive start rest).name
        (s.directive start rest).label
        (bracketed (ascii '\x7b') (ascii '\x7d') s.body ++ rest) = s.directive start rest := by
  cases hbody : s.body with
  | some inside =>
    have hstop : start + 1 + s.render.length = start + 1 + s.front.length + inside.length + 2 := by
      simp only [Spelling.render, hbody, bracketed, List.length_append, List.length_cons,
        List.length_nil]
      omega
    rw [readBody, bracket_of_closed (hs.body_closed inside hbody)]
    simp only [Spelling.directive, Spelling.opens, hbody, hstop]
    rfl
  | none =>
    have hrender : s.render = s.front := by
      rw [Spelling.render, hbody, bracketed, List.append_nil]
    rw [bracketed, List.nil_append, readBody]
    by_cases hcurly : rest.head? = some (ascii '\x7b')
    · obtain ⟨more, rfl⟩ := Spelling.head?_eq_some_iff.mp hcurly
      rw [bracket_of_unclosed (hends.body_ends hbody more rfl)]
      simp [Spelling.directive, Spelling.opens, hbody, hrender]
    · have hopens : s.opens rest = false := by
        cases hlabel : s.label with
        | some inside => simp [Spelling.opens, hlabel, hcurly]
        | none => simp [Spelling.opens, hcurly, hopen hlabel hbody]
      rw [bracket_of_missing hcurly]
      simp [Spelling.directive, hopens, hbody, hrender]

/-- What is written by the grammar is read. -/
theorem read?_of_written (h : Written line s rest) (start : Nat) :
    read? line start = some (s.directive start rest) := by
  obtain ⟨first, rfl⟩ := h.line_eq
  obtain ⟨b, more, hname, hstart⟩ := h.name_start
  have hspan : spanLength isNameByte (s.render ++ rest) = s.name.length := by
    rw [spanLength, Spelling.takeWhile_render h.toWellFormed h.toEndsBefore]
  rw [s.render_append] at hspan ⊢
  obtain ⟨after, hafter⟩ : ∃ after, after = bracketed (ascii '[') (ascii ']') s.label ++
    (bracketed (ascii '\x7b') (ascii '\x7d') s.body ++ rest) := ⟨_, rfl⟩
  rw [← hafter] at hspan ⊢
  have hcons : s.name ++ after = b :: (more ++ after) := by rw [hname, List.cons_append]
  simp only [read?, List.tail_cons, hcons, hstart, if_true]
  rw [← hcons, hspan, List.drop_left, hafter]
  cases hlabel : s.label with
  | some inside =>
    have hfront : start + 1 + s.front.length =
        start + 1 + s.name.length + 1 + inside.length + 1 := by
      simp only [Spelling.front, hlabel, bracketed, List.length_append, List.length_cons,
        List.length_nil]
      omega
    have hbody := readBody_of_front h.toWellFormed h.toEndsBefore (by simp [hlabel]) start
    rw [bracket_of_closed (h.label_closed inside hlabel)]
    simp only [hfront, Spelling.directive, hlabel, Option.map_some] at hbody ⊢
    rw [hbody]
  | none =>
    have hfront : s.front = s.name := by rw [Spelling.front, hlabel, bracketed, List.append_nil]
    rw [bracketed, List.nil_append]
    by_cases hsquare : s.body = none ∧ rest.head? = some (ascii '[')
    · obtain ⟨hbody, hhead⟩ := hsquare
      obtain ⟨more, rfl⟩ := Spelling.head?_eq_some_iff.mp hhead
      rw [hbody, bracketed, List.nil_append,
        bracket_of_unclosed (h.label_ends hlabel hbody more rfl)]
      simp [Spelling.directive, Spelling.opens, Spelling.render, hlabel, hbody, hfront, bracketed]
    · have hmissing : (bracketed (ascii '\x7b') (ascii '\x7d') s.body ++ rest).head? ≠
          some (ascii '[') := by
        cases hbody : s.body with
        | some inside => exact fun hhead => absurd (Option.some.inj hhead) (by decide)
        | none => exact fun hhead => hsquare ⟨hbody, hhead⟩
      have hbody := readBody_of_front h.toWellFormed h.toEndsBefore
        (fun _ hbody hhead => hsquare ⟨hbody, hhead⟩) start
      rw [bracket_of_missing hmissing]
      simp only [hfront, Spelling.directive, hlabel, Option.map_none] at hbody ⊢
      rw [hbody]

/-- A line whose second byte can start a name has a directive. -/
theorem exists_written (first : UInt8) {b : UInt8} (more : Bytes) (h : isNameStart b = true) :
    ∃ s rest, Written (first :: b :: more) s rest := by
  have hbyte : isNameByte b = true := isNameByte_iff.mpr (.inl h)
  obtain ⟨after, hafter⟩ : ∃ after, after = (b :: more).dropWhile isNameByte := ⟨_, rfl⟩
  have hsplit : b :: more = (b :: more.takeWhile isNameByte) ++ after := by
    rw [hafter, ← List.takeWhile_cons_of_pos hbyte, List.takeWhile_append_dropWhile]
  have hbytes : ∀ c ∈ b :: more.takeWhile isNameByte, isNameByte c = true := by
    rw [← List.takeWhile_cons_of_pos hbyte]
    exact fun c hc => List.mem_takeWhile_imp hc
  have hnext : ∀ c, after.head? = some c → isNameByte c = false := by
    intro c hc
    have hnot := List.head?_dropWhile_not isNameByte (b :: more)
    rwa [← hafter, hc] at hnot
  obtain ⟨label, rest, hlabel, hclosed, hends⟩ := exists_bracketed (ascii '[') (ascii ']') after
  by_cases hopen : label = none ∧ rest.head? = some (ascii '[')
  · -- a label that is not closed leaves no room for a body
    obtain ⟨rfl, hhead⟩ := hopen
    obtain ⟨inside, hrest⟩ := Spelling.head?_eq_some_iff.mp hhead
    obtain rfl : after = rest := hlabel
    refine ⟨⟨b :: more.takeWhile isNameByte, none, none⟩, after, ⟨⟨b, _, rfl, h⟩, hbytes, nofun,
      nofun⟩, ⟨fun _ _ => hnext, fun _ _ => hends rfl, ?_⟩, first, ?_⟩
    · intro _ inside' hcurly
      rw [hrest] at hcurly
      exact absurd (List.cons.inj hcurly).1 (by decide)
    · rw [hsplit]
      simp [Spelling.render, Spelling.front, bracketed]
  · obtain ⟨body, rest', hbody, hclosed', hends'⟩ :=
      exists_bracketed (ascii '\x7b') (ascii '\x7d') rest
    refine ⟨⟨b :: more.takeWhile isNameByte, label, body⟩, rest', ⟨⟨b, _, rfl, h⟩, hbytes, hclosed,
      hclosed'⟩, ⟨?_, ?_, hends'⟩, first, ?_⟩
    · rintro rfl rfl
      rw [hlabel, hbody] at hnext
      exact hnext
    · rintro rfl rfl inside hsquare
      rw [bracketed, List.nil_append] at hbody
      exact absurd ⟨rfl, by rw [hbody, hsquare]; rfl⟩ hopen
    · rw [Spelling.render_append, hsplit, hlabel, hbody]

theorem read?_eq_none_iff {bytes : Bytes} : read? bytes start = none ↔
    bytes.length < 2 ∨ ∃ b, bytes[1]? = some b ∧ isNameStart b = false := by
  match bytes with
  | [] => simp [read?]
  | [first] => simp [read?]
  | first :: b :: more =>
    cases hb : isNameStart b with
    | true =>
      obtain ⟨s, rest, hs⟩ := exists_written first more hb
      simp [read?_of_written hs, hb]
    | false => simp [read?, hb]

/-- The reader accepts the lines of the grammar and no others. -/
theorem read?_eq_some_iff {d : Directive} : read? line start = some d ↔
    ∃ s rest, Written line s rest ∧ d = s.directive start rest := by
  constructor
  · intro h
    match line, h with
    | first :: b :: more, h =>
      have hb : isNameStart b = true := by
        cases hb : isNameStart b with
        | true => rfl
        | false =>
          rw [read?_eq_none_iff.mpr (.inr ⟨b, rfl, hb⟩)] at h
          cases h
      obtain ⟨s, rest, hs⟩ := exists_written first more hb
      rw [read?_of_written hs] at h
      exact ⟨s, rest, hs, (Option.some.inj h).symm⟩
  · rintro ⟨s, rest, hs, rfl⟩
    exact read?_of_written hs start

end Reading

/-! ## Reading in a text -/

/-- What a text has at the segments of a directive. -/
def contentIn (d : Directive) (text : Bytes) : Bytes × Option Bytes × List (Bytes × Bytes) :=
  (text.extract d.name.start d.name.stop, d.label.map fun l => text.extract l.start l.stop,
    d.keys.map fun e =>
      (text.extract e.key.start e.key.stop, text.extract e.value.start e.value.stop))

/-- The keys and values of the entries of the body that have a key. -/
def Spelling.pairs (s : Spelling) : List (Bytes × Bytes) :=
  (((s.body.getD []).splitOn (ascii ',')).map fun entry => (keyOf entry, valueOf entry)).filter
    (·.1 ≠ [])

/-- The segments of a directive hold the parts it was spelled with. -/
theorem Spelling.contentIn_directive {text : Bytes} {s : Spelling} {start : Nat}
    (h : Stands text (start + 1) s.render) (rest : Bytes) :
    (s.directive start rest).contentIn text = (s.name, s.label, s.pairs) := by
  have hfront : Stands text (start + 1) s.front := h.left
  have hlabel : (s.directive start rest).label.map (fun l => text.extract l.start l.stop) =
      s.label := by
    cases hs : s.label with
    | none => rw [directive, hs]; rfl
    | some inside =>
      have hbracket := hfront.right
      rw [hs, bracketed] at hbracket
      simp only [directive, hs, Option.map_some, hbracket.tail.left.extract_eq]
  have hkeys : (s.directive start rest).keys.map (fun e =>
      (text.extract e.key.start e.key.stop, text.extract e.value.start e.value.stop)) =
        s.pairs := by
    cases hs : s.body with
    | none => rw [directive, pairs, hs]; rfl
    | some inside =>
      have hbracket := h.right
      rw [hs, bracketed] at hbracket
      simp only [directive, pairs, hs, Option.getD_some, ← splitAt_eq_splitOn]
      refine pairs_readEntries ?_
      rw [intercalate_splitAt]
      exact hbracket.tail.left
  rw [contentIn, hlabel, hkeys]
  exact congrArg (·, _) hfront.left.extract_eq

section Texts

variable {text rest : Bytes} {s : Spelling} {o : Nat}

theorem readAt_of_written (h : Written (text.restOfLine o) s rest) :
    readAt text o = (some (s.directive o rest), (s.directive o rest).segment.stop) := by
  rw [readAt, read?_of_written h o]

theorem readAt_eq_some_iff {d : Directive} {next : Nat} : readAt text o = (some d, next) ↔
    ∃ s rest, Written (text.restOfLine o) s rest ∧ d = s.directive o rest ∧
      next = d.segment.stop := by
  constructor
  · intro h
    cases hread : read? (text.restOfLine o) o with
    | none =>
      rw [readAt, hread] at h
      cases h
    | some d' =>
      obtain ⟨s, rest, hs, -⟩ := read?_eq_some_iff.mp hread
      rw [readAt_of_written hs] at h
      cases h
      exact ⟨s, rest, hs, rfl, rfl⟩
  · rintro ⟨s, rest, hs, rfl, rfl⟩
    exact readAt_of_written hs

theorem readAt_eq_none_iff : (readAt text o).1 = none ↔ read? (text.restOfLine o) o = none := by
  cases hread : read? (text.restOfLine o) o with
  | none => simp [readAt, hread]
  | some d => simp [readAt, hread]

namespace Written

theorem stands (h : Written (text.restOfLine o) s rest) :
    ∃ first, first :: s.render <+: text.restOfLine o ∧ Stands text o (first :: s.render) := by
  obtain ⟨first, hline⟩ := h.line_eq
  have hfront : first :: s.render <+: text.restOfLine o := ⟨rest, hline.symm⟩
  exact ⟨first, hfront, hfront.trans (stands_restOfLine text o)⟩

theorem contentIn_eq (h : Written (text.restOfLine o) s rest) :
    (s.directive o rest).contentIn text = (s.name, s.label, s.pairs) := by
  obtain ⟨first, -, hstands⟩ := h.stands
  exact Spelling.contentIn_directive hstands.tail rest

/-- A directive stands on one line. -/
theorem newline_not_mem (h : Written (text.restOfLine o) s rest) :
    newline ∉ text.extract o (o + 1 + s.render.length) := by
  obtain ⟨first, hfront, hstands⟩ := h.stands
  have hextract := hstands.extract_eq
  rw [List.length_cons, Nat.add_comm s.render.length, ← Nat.add_assoc] at hextract
  rw [hextract]
  refine newline_not_mem_of_prefix hfront ?_
  obtain ⟨b, hlast, hb⟩ := Spelling.getLast?_render h.name_ne_nil h.name_bytes
  rw [List.getLast?_cons, hlast]
  exact fun heq => hb (Option.some.inj heq)

end Written

/-- On a line that goes on with something else, a spelling is found where it was put. -/
theorem written_append (before : Bytes) {tail : Bytes} {first : UInt8} (hs : s.WellFormed)
    (hends : s.EndsBefore (tail.restOfLine 0)) (hfirst : first ≠ newline)
    (hrender : newline ∉ s.render) :
    Written ((before ++ first :: (s.render ++ tail)).restOfLine before.length) s
      (tail.restOfLine 0) := by
  refine ⟨hs, hends, first, ?_⟩
  have hline : newline ∉ first :: s.render :=
    List.not_mem_cons_of_ne_of_not_mem hfirst.symm hrender
  exact restOfLine_append tail hline

end Texts

end Markdown.Directive

end DocTokens
