import DocTokens.Markdown.Parse
import DocTokens.Proofs.Markdown.Ends

/-! # Automatic links

The label of an automatic link has a place in the source, but the link is put where the text of the
label is found first from the cursor on. This is the label where the text does not occur between the
cursor and the label, and another occurrence otherwise.
-/

namespace DocTokens

/-! ## The first occurrence of a text -/

namespace Bytes

variable {pattern s : Bytes} {n m : Nat}

theorem find?_le_of_stands (h : find? pattern s = some n) (hm : Stands s m pattern) : n ≤ m := by
  induction s generalizing n m with
  | nil =>
    rw [find?] at h
    split at h
    · cases h
      exact Nat.zero_le m
    · cases h
  | cons b rest ih =>
    rw [find?] at h
    split at h
    · cases h
      exact Nat.zero_le m
    · rename_i hfirst
      obtain ⟨k, hk, rfl⟩ := Option.map_eq_some_iff.mp h
      cases m with
      | zero => exact absurd (List.isPrefixOf_iff_prefix.mpr hm) hfirst
      | succ m => exact Nat.succ_le_succ (ih hk hm)

theorem not_stands_of_find?_eq_none (hne : pattern ≠ []) (h : find? pattern s = none) :
    ¬ Stands s m pattern := by
  induction s generalizing m with
  | nil => simpa [Stands] using hne
  | cons b rest ih =>
    rw [find?] at h
    split at h
    · cases h
    · rename_i hfirst
      cases m with
      | zero => exact fun hm => hfirst (List.isPrefixOf_iff_prefix.mpr hm)
      | succ m => exact ih (Option.map_eq_none_iff.mp h)

end Bytes

/-- The segment is the first from an offset on that spells the text. -/
structure Segment.FirstQuote (src : Source) (text : Bytes) (p : Nat) (s : Segment) : Prop where
  quotes : s.Quotes src text
  le_start : p ≤ s.start
  first : ∀ s' : Segment, s'.Quotes src text → p ≤ s'.start → s.start ≤ s'.start

namespace Segment

variable {src : Source} {text : Bytes} {p : Nat} {s s' : Segment}

theorem Quotes.stop_eq (h : s.Quotes src text) : s.stop = s.start + text.length := by
  have hordered := h.within.ordered
  rw [← h.slice_eq, Source.length_slice h.within.stop_le]
  omega

theorem Quotes.stands (h : s.Quotes src text) : Bytes.Stands src.toList s.start text := by
  have hslice := h.slice_eq
  rw [Source.slice, Array.toList_extract, List.extract_eq_take_drop] at hslice
  exact hslice ▸ List.take_prefix _ _

theorem Quotes.ext (h : s.Quotes src text) (h' : s'.Quotes src text) (hstart : s.start = s'.start) :
    s = s' := by
  have hstop := h.stop_eq
  have hstop' := h'.stop_eq
  cases s
  cases s'
  simp_all

theorem FirstQuote.unique (h : s.FirstQuote src text p) (h' : s'.FirstQuote src text p) : s = s' :=
  h.quotes.ext h'.quotes (Nat.le_antisymm (h.first s' h'.quotes h'.le_start)
    (h'.first s h.quotes h.le_start))

/-- The search from an offset finds the first place that spells a text, unless there is none. -/
theorem find?_suffix_spec (src : Source) (hne : text ≠ []) (p : Nat) :
    (∃ n, Bytes.find? text (src.suffix p) = some n ∧
      FirstQuote src text p ⟨p + n, p + n + text.length⟩) ∨
    Bytes.find? text (src.suffix p) = none ∧ ∀ s : Segment, s.Quotes src text → ¬ p ≤ s.start := by
  have hshift : ∀ {s : Segment}, s.Quotes src text → p ≤ s.start →
      Bytes.Stands (src.suffix p) (s.start - p) text := by
    intro s hs hle
    rw [Source.suffix_eq_drop, Bytes.Stands, List.drop_drop, Nat.add_sub_cancel' hle]
    exact hs.stands
  cases hfind : Bytes.find? text (src.suffix p) with
  | none =>
    exact .inr ⟨rfl, fun s hs hle => Bytes.not_stands_of_find?_eq_none hne hfind (hshift hs hle)⟩
  | some n =>
    have hstands := Bytes.stands_find? hfind
    rw [Source.suffix_eq_drop, Bytes.Stands, List.drop_drop] at hstands
    refine .inl ⟨n, rfl, quotes_of_stands hne hstands, Nat.le_add_right p n, fun s hs hle => ?_⟩
    have hfirst := Bytes.find?_le_of_stands hfind (hshift hs hle)
    simp only
    omega

end Segment

namespace Markdown

variable {src : Source} {cursor : Nat} {label : Segment}

/-! ## One link -/

/-- The target of an automatic link is the first place from the cursor on that spells the label or,
failing that, the address it stands for. -/
theorem autoLink_spec (hne : src.slice label.start label.stop ≠ []) (protocol : Option Bytes)
    (cursor : Nat) :
    ∃ s below, autoLink src label protocol cursor = leafAt src cursor .link s below ∧
      ((∃ href, Segment.FirstQuote src (src.slice label.start label.stop) cursor href ∧
          below.entriesIn .href = [.inl ⟨.text, href.toSpan⟩]) ∨
        (∀ s' : Segment, s'.Quotes src (src.slice label.start label.stop) → ¬ cursor ≤ s'.start) ∧
          below.entriesIn .href = [.inr (.literal (Kind.autoLinkUrl src label protocol))]) := by
  unfold autoLink
  dsimp only
  rw [if_neg (by simpa using hne)]
  rcases Segment.find?_suffix_spec src hne cursor with ⟨n, hfind, hfirst⟩ | ⟨hfind, hnone⟩
  · rw [hfind]
    exact ⟨_, _, rfl, .inl ⟨_, hfirst, rfl⟩⟩
  · rw [hfind]
    exact ⟨_, _, rfl, .inr ⟨hnone, rfl⟩⟩

/-! ## Documents -/

/-- What becomes of an automatic link that is begun at a cursor. Its target is the label exactly
where nothing from the cursor on spells it earlier. -/
structure LinkAt (src : Source) (t : Tree) (cursor : Nat) (label : Segment)
    (protocol : Option Bytes) (n : DocTokens.Node) : Prop where
  type_eq : n.type = .link
  target_iff : ∀ s, t.TextIn .href n s ↔
    s.FirstQuote src (src.slice label.start label.stop) cursor
  literal : (∀ s : Segment, s.Quotes src (src.slice label.start label.stop) → ¬ cursor ≤ s.start) →
    ∃ f, n.fieldsIn .href = [f] ∧ f.value = .literal (Kind.autoLinkUrl src label protocol)
  label_iff : t.TextIn .href n label ↔ cursor ≤ label.start ∧ ∀ s : Segment,
    s.Quotes src (src.slice label.start label.stop) → cursor ≤ s.start → label.start ≤ s.start

section Documents

variable {document : Node} {v : Step} {protocol : Option Bytes}

theorem linkAt_of_converted {n : Node} (hk : n.kind = .autoLink label protocol)
    (hl : label.Within src.size) (hlt : label.start < label.stop)
    (hpiece : (convertNode src v.marker n v.cursor).piece = some v.piece) {t : Tree}
    {c : DocTokens.Node × Forest DocTokens.Node} (hc : t.Holds v.branch c) :
    LinkAt src t v.cursor label protocol c.1 := by
  have hne : src.slice label.start label.stop ≠ [] := by
    refine List.ne_nil_of_length_pos ?_
    rw [Source.length_slice hl.stop_le]
    omega
  have hlabel : label.Quotes src (src.slice label.start label.stop) := ⟨hl, rfl⟩
  obtain ⟨s, below, hlink, htarget⟩ := autoLink_spec hne protocol v.cursor
  obtain ⟨kind, lines, children⟩ := n
  obtain rfl : kind = .autoLink label protocol := hk
  rw [convertNode_of_ne (by simp)] at hpiece
  change (autoLink src label protocol v.cursor).piece = _ at hpiece
  rw [hlink] at hpiece
  obtain hpiece : (⟨.link, s, below⟩ : Piece) = v.piece := Option.some.inj hpiece
  have hbelow : v.branch.2 = below := by rw [Step.branch, ← hpiece]
  have hiff : ∀ s, t.TextIn .href c.1 s ↔
      s.FirstQuote src (src.slice label.start label.stop) v.cursor := by
    intro s'
    rcases htarget with ⟨href, hfirst, hentries⟩ | ⟨hnone, hentries⟩
    · rw [hc.textIn_iff (hbelow ▸ hentries)]
      exact ⟨fun h => h ▸ hfirst, fun h => h.unique hfirst⟩
    · exact ⟨fun h => absurd h (hc.not_textIn (hbelow ▸ hentries)),
        fun h => absurd h.le_start (hnone s' h.quotes)⟩
  refine ⟨?_, hiff, fun hnone => ?_, ?_⟩
  · rw [← hc.type_eq, Step.branch, ← hpiece]
  · rcases htarget with ⟨href, hfirst, -⟩ | ⟨-, hentries⟩
    · exact absurd hfirst.le_start (hnone href hfirst.quotes)
    · exact hc.exists_field (hbelow ▸ hentries)
  · rw [hiff label]
    exact ⟨fun h => ⟨h.le_start, h.first⟩, fun h => ⟨hlabel, h.1, h.2⟩⟩

end Documents

/-- Each automatic link of a document with its target: the first place that spells its label from
the furthest end on of all that conversion was done with before it. -/
theorem convert_autoLinks (src : Source) (document : Node)
    (h : document.Everywhere (Node.InRange src.size)) :
    let t := (convert src document).1
    (nodeSteps src document).map Step.node? =
      (finishedAll (Node.convertsBelow src) document.children).map some ∧
    List.Forall₂ (fun v c => t.node? c.1.id = some c.1 ∧ c.1.span = v.piece.segment.toSpan ∧
      ∀ label protocol, v.node?.map Node.kind = some (.autoLink label protocol) →
        label.start < label.stop → LinkAt src t v.cursor label protocol c.1)
      (nodeSteps src document) t.branches ∧
    ∀ before v after label protocol, courseOf src document = before ++ v :: after →
      v.node?.map Node.kind = some (.autoLink label protocol) → v.cursor = furthest before := by
  intro t
  have hleaves := (convert_steps src document).2
  refine ⟨node?_nodeSteps src document, hleaves.imp fun v c hv => ?_, ?_⟩
  · refine ⟨hv.held.2.1, hv.held.span_eq.symm, fun label protocol hkind hlt => ?_⟩
    obtain ⟨n, hn, hk⟩ := Option.map_eq_some_iff.mp hkind
    have hlabel := (h.of_mem_finishedAll (hv.mem_nodes n hn)).here.segments label
      (by simp [hk, Kind.segments])
    exact linkAt_of_converted hk hlabel hlt (hv.converted n hn) hv.held
  · intro before v after label protocol hsteps hkind
    obtain ⟨n, hn, hk⟩ := Option.map_eq_some_iff.mp hkind
    have hclosed : n.convertsBelow src = false := by simp [Node.convertsBelow, hk, Kind.isLeaf]
    exact (cursor_of_closed h hsteps hn hclosed).1

def repeatedSource : Source := (utf8 "<xx:y> <xx:y>").toArray

/-- One address in two links. -/
def repeatedDocument : Node :=
  .mk .document []
    [.mk .paragraph [⟨0, 13⟩]
      [.leaf (.autoLink ⟨1, 5⟩ none), .text ⟨6, 7⟩, .leaf (.autoLink ⟨8, 12⟩ none)]]

/-- The second link is begun after the first and finds its own label. -/
theorem convert_autoLinks_repeated :
    repeatedDocument.Everywhere (Node.InRange repeatedSource.size) ∧
    (let t := (convert repeatedSource repeatedDocument).1
     List.Forall₂ (fun v c => t.node? c.1.id = some c.1 ∧ c.1.span = v.piece.segment.toSpan ∧
        ∀ label protocol, v.node?.map Node.kind = some (.autoLink label protocol) →
          label.start < label.stop → LinkAt repeatedSource t v.cursor label protocol c.1)
      (nodeSteps repeatedSource repeatedDocument) t.branches) ∧
    (nodeSteps repeatedSource repeatedDocument).map
        (fun v => (v.cursor, v.piece.segment, v.piece.below.entriesIn .href)) =
      [(0, ⟨0, 6⟩, [.inl ⟨.text, ⟨1, 5⟩⟩]), (6, ⟨6, 7⟩, []), (7, ⟨7, 13⟩, [.inl ⟨.text, ⟨8, 12⟩⟩]),
        (0, ⟨0, 13⟩, [])] := by
  have hrange : repeatedDocument.Everywhere (Node.InRange repeatedSource.size) := by
    simp only [repeatedDocument, Node.text, Node.leaf, Node.everywhere_mk_iff, List.forall_mem_cons,
      List.not_mem_nil, IsEmpty.forall_iff, implies_true, and_true]
    and_intros
    all_goals
      constructor <;> simp +decide
  obtain ⟨-, hlinks, -⟩ := convert_autoLinks repeatedSource repeatedDocument hrange
  exact ⟨hrange, hlinks, by decide +kernel⟩

def definedSource : Source := (utf8 "[a]: xx:y\n\n<xx:y>\n").toArray

/-- What is left of a definition and of a link to the same address. -/
def definedDocument : Node :=
  .mk .document []
    [.mk .textBlock [] [], .mk .paragraph [⟨11, 17⟩] [.leaf (.autoLink ⟨12, 16⟩ none)]]

/-- The definition leaves nothing that would move the cursor, so the address in it is taken for the
target of the link. -/
theorem target_in_definition :
    definedDocument.Everywhere (Node.InRange definedSource.size) ∧
    (finishedAll (fun _ => true) (parse definedSource).children).map (fun n => (n.kind, n.lines)) =
      (finishedAll (fun _ => true) definedDocument.children).map (fun n => (n.kind, n.lines)) ∧
    (let t := (convert definedSource definedDocument).1
     ∃ link target, t.node? 3 = some link ∧ link.type = .link ∧
      link.fieldsIn .href = [⟨.href, [], .child target.id⟩] ∧ t.node? 4 = some target ∧
      target.id = 4 ∧ target.span = ⟨5, 9⟩ ∧ target.span ≠ Segment.toSpan ⟨12, 16⟩) := by
  refine ⟨?_, by decide +kernel, ?_⟩
  · simp only [definedDocument, Node.leaf, Node.everywhere_mk_iff, List.forall_mem_cons,
      List.not_mem_nil, IsEmpty.forall_iff, implies_true, and_true]
    and_intros
    all_goals
      constructor <;> simp +decide
  · refine ⟨⟨3, .link, ⟨5, 9⟩, 2, #[⟨.href, [], .child 4⟩]⟩, ⟨4, .text, ⟨5, 9⟩, 3, #[]⟩, ?_⟩
    decide +kernel

end Markdown

end DocTokens
