import DocTokens.Proofs.ForestTokens
import DocTokens.Proofs.Markdown.DirectiveSyntax
import DocTokens.Proofs.Markdown.Structure

/-! # Tokens of a directive

A directive has a token for its name, one for its label and one for every key. They stand on the
line that the directive was read from, one after another.
-/

namespace DocTokens

open Bytes

namespace Markdown.Directive

/-- The parts of a directive that have tokens, with their categories. -/
def marked (d : Directive) : List (Segment × Category) :=
  (d.name, .opcodeName) :: (d.label.toList.map (·, .label) ++ d.keys.map fun e => (e.key, .mapKey))

section Spells

variable {line rest : Bytes} {start : Nat} {d : Directive} {s : Spelling}

theorem Spells.bounds (h : Spells line start d s rest) : ∀ part ∈ d.marked,
    start < part.1.start ∧ part.1.start ≤ part.1.stop ∧ part.1.stop ≤ d.segment.stop := by
  have hrender := Spells.length_front_le s
  intro part hpart
  simp only [marked, h.front.nameAt_eq, h.front.labelAt_eq, List.mem_cons, List.mem_append,
    List.mem_map, Option.mem_toList, Option.map_eq_some_iff] at hpart
  rcases hpart with rfl | ⟨l, ⟨inside, hlabel, rfl⟩, rfl⟩ | ⟨e, he, rfl⟩
  · simp only [h.segment, Spelling.front, List.length_append] at hrender ⊢
    omega
  · simp only [h.segment, Spelling.front, hlabel, bracketed, List.length_append,
      List.length_cons] at hrender ⊢
    omega
  · have hkey := h.bounds_key he
    simp only
    omega

theorem Spells.pairwise (h : Spells line start d s rest) :
    d.marked.Pairwise fun a b => a.1.stop < b.1.start := by
  unfold marked
  rw [h.front.nameAt_eq, h.front.labelAt_eq, List.pairwise_cons, List.pairwise_append,
    List.pairwise_map]
  have hfront : s.name.length ≤ s.front.length := by
    simp [Spelling.front]
  have hlabel : ∀ inside, s.label = some inside →
      s.name.length + 1 + inside.length < s.front.length := by
    intro inside hinside
    simp only [Spelling.front, hinside, bracketed, List.length_append, List.length_cons]
    omega
  refine ⟨?_, ?_, List.pairwise_map.mpr h.pairwise_keys, ?_⟩
  · intro part hpart
    simp only [List.mem_append, List.mem_map, Option.mem_toList, Option.map_eq_some_iff] at hpart
    rcases hpart with ⟨l, ⟨inside, _, rfl⟩, rfl⟩ | ⟨e, he, rfl⟩
    · simp only
      omega
    · have hkey := h.bounds_key he
      simp only
      omega
  · cases s.label with
    | none => exact .nil
    | some inside => exact List.pairwise_singleton _ _
  · intro part hpart key hkey
    simp only [List.mem_map, Option.mem_toList, Option.map_eq_some_iff] at hpart hkey
    obtain ⟨l, ⟨inside, hinside, rfl⟩, rfl⟩ := hpart
    obtain ⟨e, he, rfl⟩ := hkey
    have hstop := hlabel inside hinside
    have hstart := h.bounds_key he
    simp only
    omega

/-- A directive read from the rest of a line ends on that line. -/
theorem Spells.stop_le {text lineText : Bytes} {before after : List Bytes} {o c : Nat}
    (h : Spells (text.restOfLine o) o d s rest)
    (hat : LineAt (splitAt newline text) o before lineText after c) :
    c + (1 + s.render.length) ≤ lineText.length := by
  obtain ⟨first, hline⟩ := h.line_eq
  rw [restOfLine_of_lineAt hat, ← List.cons_append] at hline
  have hcolumn := hat.column_le
  have htail : ∀ b ∈ (lineTail after).take 1, b = newline := by
    cases after with
    | nil => simp [lineTail]
    | cons next after => simp [lineTail]
  rcases List.append_eq_append_iff.mp hline with ⟨extra, hend, hextra⟩ | ⟨extra, hend, _⟩
  · rcases List.eq_nil_or_concat' extra with rfl | ⟨front, b, rfl⟩
    · have hlength := congrArg List.length hend
      simp only [List.append_nil, List.length_cons, List.length_drop] at hlength
      omega
    · -- past the line there is a line feed only, and no directive ends in one
      have hb : b = newline := htail b (by rw [hextra]; simp)
      have hlast : (first :: s.render).getLast? = some newline := by
        rw [hend, ← List.append_assoc, hb]
        exact List.getLast?_concat
      obtain ⟨b', hlast', hne⟩ := h.getLast?_render
      rw [List.getLast?_cons, hlast'] at hlast
      exact absurd (Option.some.inj hlast) hne
  · have hlength := congrArg List.length hend
    simp only [List.length_append, List.length_cons, List.length_drop] at hlength
    omega

end Spells

/-- The entries below the node of a directive. -/
def parts (src : Source) (d : Directive) : Forest Shape :=
  .leaf .opcode .text d.name.toSpan (match d.label with
    | some l => .leaf .label .text l.toSpan (keyEntries src d.keys)
    | none => keyEntries src d.keys)

/-- A document with nothing but a directive. -/
def inParagraph (lines : List Segment) (d : Directive) : Node :=
  .mk .document [] [.mk .paragraph lines [.leaf (.directive d)]]

end Markdown.Directive

namespace Markdown

open Directive

theorem classified_keyEntries (src : Source) (keys : List KeyEntry) :
    (keyEntries src keys).classified .opCode = keys.map fun e => (e.key.toSpan, .mapKey) := by
  have hkey : Category.ofPlace? .opCode .keys .text = some .mapKey := by decide
  have hvalue : Category.ofPlace? .opCode .children .text = none := by decide
  induction keys with
  | nil => rfl
  | cons e keys ih =>
    rw [keyEntries]
    split
    · simp only [Forest.classified, hkey, ih]
      rfl
    · simp only [Forest.leaf, Forest.classified, hkey, hvalue, ih]
      rfl

theorem classified_parts (src : Source) (d : Directive) :
    (d.parts src).classified .opCode = d.marked.map fun part => (part.1.toSpan, part.2) := by
  have hname : Category.ofPlace? .opCode .opcode .text = some .opcodeName := by decide
  have hlabel : Category.ofPlace? .opCode .label .text = some .label := by decide
  unfold parts marked
  cases d.label with
  | none => simp [Forest.leaf, Forest.classified, hname, classified_keyEntries]
  | some l => simp [Forest.leaf, Forest.classified, hname, hlabel, classified_keyEntries]

theorem entries_inParagraph (src : Source) (lines : List Segment) (d : Directive) : ∃ span,
    (convertAll src none (inParagraph lines d).children 0).entries =
      .node ⟨.children, []⟩ ⟨.paragraph, span⟩
        (.node ⟨.children, []⟩ ⟨.opCode, d.segment.toSpan⟩ (d.parts src) .nil) .nil :=
  ⟨_, rfl⟩

theorem diagnostics_inParagraph (src : Source) (lines : List Segment) (d : Directive) :
    (convert src (inParagraph lines d)).2 = (directive src d 0).diagnostics := by
  have happend : (convert src (inParagraph lines d)).2 =
      (directive src d 0).diagnostics ++ [] ++ [] := rfl
  rw [happend, List.append_nil, List.append_nil]

/-- An entry of a key mapping has the bytes of its node as its key. -/
def Keyed (src : Source) (label : Label) (head : Shape) : Prop :=
  label.slot = .keys → label.key = src.slice head.span.start.toNat head.span.stop.toNat

theorem keyed_keyEntries (src : Source) (keys : List KeyEntry) :
    (keyEntries src keys).EachEntry (Keyed src) := by
  have hchildren : ∀ head, Keyed src ⟨.children, []⟩ head := by
    intro head hslot
    exact absurd hslot (by decide)
  induction keys with
  | nil => trivial
  | cons e keys ih =>
    rw [keyEntries]
    refine ⟨fun _ => rfl, ?_⟩
    split
    · exact ih
    · exact ⟨hchildren _, ih⟩

theorem keyed_parts (src : Source) (d : Directive) : (d.parts src).EachEntry (Keyed src) := by
  have hother : ∀ slot head, slot ≠ Slot.keys → Keyed src ⟨slot, []⟩ head := by
    intro slot head hne hslot
    exact absurd hslot hne
  unfold parts
  refine ⟨hother _ _ (by decide), ?_⟩
  cases d.label with
  | none => exact keyed_keyEntries src d.keys
  | some l => exact ⟨hother _ _ (by decide), keyed_keyEntries src d.keys⟩

/-- The keys of a sequence of fields. -/
def keysOf (fields : List Field) : List Bytes := (fields.filter (·.slot = .keys)).map Field.key

theorem keysOf_keyEntries (src : Source) (keys : List KeyEntry) (base : Nat) :
    keysOf ((keyEntries src keys).fields base) =
      keys.map fun e => src.slice e.key.start e.key.stop := by
  induction keys generalizing base with
  | nil => rfl
  | cons e keys ih =>
    rw [keyEntries]
    split
    · exact congrArg _ (ih _)
    · exact congrArg _ (ih _)

theorem keysOf_parts (src : Source) (d : Directive) (base : Nat) :
    keysOf ((d.parts src).fields base) =
      d.keys.map fun e => src.slice e.key.start e.key.stop := by
  unfold parts
  cases d.label with
  | none => exact keysOf_keyEntries src d.keys _
  | some l => exact keysOf_keyEntries src d.keys _

theorem slice_toArray (text : Bytes) (start stop : Nat) :
    Source.slice text.toArray start stop = text.extract start stop := by
  simp [Source.slice]

/-- The node of the directive is number 2, after those of the file and the paragraph. -/
theorem nodes_inParagraph (src : Source) (lines : List Segment) (d : Directive) :
    (convert src (inParagraph lines d)).1.node? 2 =
      some ⟨2, .opCode, d.segment.toSpan, 1, ((d.parts src).fields 3).toArray⟩ ∧
    ∀ n ∈ ((d.parts src).number 2 3).heads,
      (convert src (inParagraph lines d)).1.node? n.id = some n := by
  obtain ⟨span, hentries⟩ := entries_inParagraph src lines d
  have hmem : ∀ n ∈
      ((convertAll src none (inParagraph lines d).children 0).entries.number 0 1).heads,
      (convert src (inParagraph lines d)).1.node? n.id = some n := by
    intro n hn
    exact Forest.node?_toTree_of_mem hn
  rw [hentries] at hmem
  simp only [Forest.number, Forest.heads, List.append_nil, List.mem_cons] at hmem
  exact ⟨hmem _ (.inr (.inl rfl)), fun n hn => hmem n (.inr (.inr hn))⟩

/-- The node of a directive has a field for each key, which names the bytes of the node it leads
to. -/
theorem keys_inParagraph (text : Bytes) (lines : List Segment) (d : Directive) :
    ∃ op, (convert text.toArray (inParagraph lines d)).1.node? 2 = some op ∧ op.type = .opCode ∧
      op.span = d.segment.toSpan ∧
      keysOf op.fields.toList = d.keys.map (fun e => text.extract e.key.start e.key.stop) ∧
      ∀ f ∈ op.fields, f.slot = .keys → ∃ child,
        (convert text.toArray (inParagraph lines d)).1.node? f.value.childId = some child ∧
        f.key = text.extract child.span.start.toNat child.span.stop.toNat := by
  obtain ⟨hop, hparts⟩ := nodes_inParagraph text.toArray lines d
  refine ⟨_, hop, rfl, rfl, ?_, ?_⟩
  · simpa only [slice_toArray] using keysOf_parts text.toArray d 3
  · intro f hf hslot
    obtain ⟨n, hn, hvalue, hkeyed⟩ :=
      (keyed_parts text.toArray d).exists_of_mem 2 (Array.mem_toList_iff.mpr hf)
    refine ⟨n, ?_, ?_⟩
    · rw [hvalue]
      exact hparts n hn
    · rw [← slice_toArray]
      exact hkeyed hslot

/-- The token of a segment on a line. -/
def tokenOn (idx : LineIndex) (line : Nat) (part : Segment × Category) : Token :=
  ⟨line, part.1.start - idx.lineStart line, part.1.length, part.2⟩

theorem ofRole_segment {text lineText : Bytes} {before after : List Bytes} {o c n : Nat}
    (hat : LineAt (splitAt newline text) o before lineText after c) (hn : c + n ≤ lineText.length)
    {part : Segment × Category} (hstart : o ≤ part.1.start) (hle : part.1.start ≤ part.1.stop)
    (hstop : part.1.stop ≤ o + n) :
    Token.ofRole text (part.1.toSpan, part.2) = [tokenOn (.ofBytes text) before.length part] := by
  have hoffset := hat.offset_eq
  have hpart : LineAt (splitAt newline text) (o + (part.1.start - o)) before lineText after
      (c + (part.1.start - o)) := hat.move (by omega)
  rw [Nat.add_sub_cancel' hstart] at hpart
  have hpieces := LineIndex.pieces_of_lineAt hpart (n := part.1.length)
    (by unfold Segment.length; omega)
  have hspan : part.1.toSpan = ⟨part.1.start, (part.1.start + part.1.length : Nat)⟩ := by
    simp only [Segment.toSpan, Segment.length, Span.mk.injEq, true_and]
    omega
  simp only [Token.ofRole, hspan, hpieces, List.map_singleton, Token.ofRange, tokenOn,
    LineIndex.lineStart_eq hat.lines_eq, List.cons.injEq, and_true, Token.mk.injEq, true_and]
  omega

theorem tokenize_inParagraph {text lineText : Bytes} {before after : List Bytes} {o c n : Nat}
    (hat : LineAt (splitAt newline text) o before lineText after c) (hn : c + n ≤ lineText.length)
    {d : Directive} (hparts : ∀ part ∈ d.marked, o ≤ part.1.start ∧ part.1.start ≤ part.1.stop ∧
      part.1.stop ≤ o + n) (lines : List Segment) (interval : Int) :
    (convert text.toArray (inParagraph lines d)).1.tokenize text interval .never =
      (.ok (d.marked.map (tokenOn (.ofBytes text) before.length)), .never) := by
  obtain ⟨span, hentries⟩ := entries_inParagraph text.toArray lines d
  have hfile : Category.ofType? .file = none := by decide
  have hparagraph : Category.ofPlace? .file .children .paragraph = none := by decide
  have hopCode : Category.ofPlace? .paragraph .children .opCode = none := by decide
  have hclassified :
      (convertAll text.toArray none (inParagraph lines d).children 0).entries.classified .file =
        d.marked.map fun part => (part.1.toSpan, part.2) := by
    rw [hentries]
    simp [Forest.classified, hparagraph, hopCode, classified_parts]
  have hsize : o + n ≤ text.length := by
    have hle := (hat.move hn).offset_le
    rwa [intercalate_splitAt] at hle
  have hfits : ∀ role ∈ d.marked.map (fun part => (part.1.toSpan, part.2)),
      role.1.Fits text.length := by
    intro role hrole
    obtain ⟨part, hpart, rfl⟩ := List.mem_map.mp hrole
    have hbounds := hparts part hpart
    simp only [Span.Fits, Segment.toSpan]
    omega
  have htokens := Forest.tokenize_toTree (plain_convert text.toArray (inParagraph lines d))
    ⟨.file, ⟨0, text.toArray.size⟩⟩ hfile (hclassified.symm ▸ hfits) interval
  have hmap : d.marked.flatMap (fun part => Token.ofRole text (part.1.toSpan, part.2)) =
      d.marked.map (tokenOn (.ofBytes text) before.length) := by
    rw [List.map_eq_flatMap]
    refine List.flatMap_congr fun part hpart => ?_
    obtain ⟨hstart, hle, hstop⟩ := hparts part hpart
    exact ofRole_segment hat hn hstart hle hstop
  refine htokens.trans ?_
  rw [hclassified, List.flatMap_map, hmap]

/-- A directive has one token for its name, one for its label if there is one, and one for each key.
They stand on the line of its offset, in this order and apart from each other. -/
theorem tokenize_directive (text : Bytes) (o : Nat) (lines : List Segment) (interval : Int)
    {d : Directive} (h : Directive.read? (text.restOfLine o) o = some d) :
    ∃ line : Nat,
      let idx := LineIndex.ofBytes text
      let result := convert text.toArray (inParagraph lines d)
      let tokens := d.marked.map (tokenOn idx line)
      result.1.tokenize text interval .never = (.ok tokens, .never) ∧
      idx.locate o = .ok ⟨line + 1, o - idx.lineStart line + 1⟩ ∧
      (∃ length, idx.lengths[line]? = some length ∧
        d.segment.stop ≤ idx.lineStart line + length) ∧
      (∀ part ∈ d.marked, o < part.1.start ∧ part.1.start ≤ part.1.stop ∧
        part.1.stop ≤ d.segment.stop) ∧
      tokens.Pairwise (fun a b => a.column < b.column ∧ a.column + a.length ≤ b.column) ∧
      d.WrittenAt text o ∧
      (∃ op, result.1.node? 2 = some op ∧ op.type = .opCode ∧ op.span = d.segment.toSpan ∧
        keysOf op.fields.toList = d.keys.map (fun e => text.extract e.key.start e.key.stop) ∧
        ∀ f ∈ op.fields, f.slot = .keys → ∃ child, result.1.node? f.value.childId = some child ∧
          f.key = text.extract child.span.start.toNat child.span.stop.toNat) ∧
      (d.unclosed = none → result.2 = []) ∧
      (∀ u, d.unclosed = some u → result.2 =
        [⟨utf8 "macro " ++ text.extract d.name.start d.name.stop ++ utf8 " has an unclosed " ++
          text.extract d.segment.stop (d.segment.stop + 1),
          ⟨d.segment.stop, d.segment.stop + 1⟩, .error⟩]) := by
  obtain ⟨s, rest, hs⟩ := exists_spells h
  obtain ⟨first, hfirst⟩ := hs.line_eq
  have ho : o ≤ text.length := by
    by_contra hlt
    rw [restOfLine, List.drop_eq_nil_of_le (by omega)] at hfirst
    cases hfirst
  obtain ⟨before, lineText, after, c, hat⟩ := LineIndex.exists_lineAt ho
  have hlength := hs.stop_le hat
  have hoffset := hat.offset_eq
  have hstop : d.segment.stop = o + (1 + s.render.length) := by
    rw [hs.segment]
    simp only
    omega
  have hwritten := hs.writtenAt
  refine ⟨before.length, ?tokens, ?locate, ?line, hs.bounds, ?pairwise, hwritten,
    keys_inParagraph text lines d, ?closed, ?unclosed⟩
  case tokens =>
    refine tokenize_inParagraph hat hlength ?_ lines interval
    intro part hpart
    have hbounds := hs.bounds part hpart
    omega
  case locate =>
    rw [LineIndex.locate_of_lineAt hat, LineIndex.lineStart_eq hat.lines_eq]
    simp only [Except.ok.injEq, Position.mk.injEq]
    omega
  case line =>
    rw [LineIndex.lineStart_eq hat.lines_eq]
    exact ⟨_, LineIndex.getElem?_lengths hat.lines_eq, by omega⟩
  case pairwise =>
    rw [List.pairwise_map]
    refine hs.pairwise.imp_of_mem ?_
    intro a b ha _ hlt
    have hbounds := hs.bounds a ha
    simp only [tokenOn, Segment.length]
    omega
  case closed =>
    intro hnone
    rw [diagnostics_inParagraph]
    simp [directive, hnone]
  case unclosed =>
    intro u hu
    obtain ⟨rfl, _⟩ := hwritten.unclosed u hu
    rw [diagnostics_inParagraph]
    simp [directive, hu, Segment.isEmpty, Segment.toSpan, Option.filter, slice_toArray]

/-- The directive `!M[l]{ k: v,, q}` on the second line of a text: it has a label, a blank entry and
an entry without a value. -/
theorem tokenize_directive_second_line :
    let text : Bytes :=
      [97, 10, 33, 77, 91, 108, 93, 123, 32, 107, 58, 32, 118, 44, 44, 32, 113, 125, 10]
    let d : Directive :=
      ⟨⟨2, 18⟩, ⟨3, 4⟩, some ⟨5, 6⟩, [⟨⟨9, 10⟩, ⟨12, 13⟩⟩, ⟨⟨16, 17⟩, ⟨17, 17⟩⟩], none⟩
    Directive.read? (text.restOfLine 2) 2 = some d ∧
    (convert text.toArray (inParagraph [⟨2, 19⟩] d)).1.tokenize text 1 .never =
      (.ok [⟨1, 1, 1, .opcodeName⟩, ⟨1, 3, 1, .label⟩, ⟨1, 7, 1, .mapKey⟩, ⟨1, 14, 1, .mapKey⟩],
        .never) := by
  intro text d
  have hread : Directive.read? (text.restOfLine 2) 2 = some d := by decide
  obtain ⟨line, htokens, hlocate, _⟩ := tokenize_directive text 2 [⟨2, 19⟩] 1 hread
  have hposition : (LineIndex.ofBytes text).locate (2 : Nat) = .ok ⟨2, 1⟩ := by decide
  have hline : line = 1 := by
    rw [hposition] at hlocate
    simp only [Except.ok.injEq, Position.mk.injEq] at hlocate
    omega
  subst hline
  exact ⟨hread, htokens⟩

end Markdown

end DocTokens
