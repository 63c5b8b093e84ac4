import DocTokens.Markdown.Convert
import DocTokens.Proofs.LineRanges
import DocTokens.Proofs.Markdown.Placement

/-! # Placed outcomes

What is asked of a converted node, of the forest below it and of a sequence of converted nodes: both
ends of every span lie inside the source. Only lists and tables may end before they start: they run
from their first part to their last, and nothing is known about the order of these. They stand in no
slot but that of plain children.
-/

namespace DocTokens

/-- The types whose spans run from the first part to the last. -/
def NodeType.Gathers (type : NodeType) : Prop := type = .list ∨ type = .table

instance (type : NodeType) : Decidable type.Gathers := inferInstanceAs (Decidable (_ ∨ _))

/-- The span lies inside the first `size` bytes. -/
structure Shape.Placed (size : Nat) (s : Shape) : Prop where
  start_nonneg : 0 ≤ s.span.start
  start_le : s.span.start ≤ size
  stop_nonneg : 0 ≤ s.span.stop
  stop_le : s.span.stop ≤ size
  ordered : ¬ s.type.Gathers → s.span.start ≤ s.span.stop

theorem Shape.Placed.fits {size : Nat} {s : Shape} (h : s.Placed size) (ht : ¬ s.type.Gathers) :
    s.span.Fits size :=
  ⟨h.start_nonneg, h.ordered ht, h.stop_le⟩

theorem Segment.Within.fits {size : Nat} {s : Segment} (h : s.Within size) :
    s.toSpan.Fits size := by
  have := h.ordered
  have := h.stop_le
  refine ⟨?_, ?_, ?_⟩ <;> simp only [toSpan] <;> omega

theorem Segment.Within.placed {size : Nat} {s : Segment} (h : s.Within size) (type : NodeType) :
    Shape.Placed size ⟨type, s.toSpan⟩ := by
  have := h.ordered
  have := h.stop_le
  constructor <;> simp only [toSpan] <;> omega

/-- Parts in any order will do for the types that gather. -/
theorem NodeType.Gathers.placed {size : Nat} {type : NodeType} (h : type.Gathers) {s : Segment}
    (hs : s.start ≤ size ∧ s.stop ≤ size) : Shape.Placed size ⟨type, s.toSpan⟩ := by
  constructor <;> simp only [Segment.toSpan, h, not_true, false_implies] <;> omega

namespace Forest

variable {size : Nat} {f g : Forest Shape}

/-- Every node of the forest has its span inside the first `size` bytes, no plain value is a
reference, and lists and tables are plain children. -/
def Placed (size : Nat) : Forest Shape → Prop
  | nil => True
  | value _ v rest => (∀ id, v ≠ .child id) ∧ rest.Placed size
  | node label head below rest =>
    head.Placed size ∧ (head.type.Gathers → label.slot = .children) ∧ below.Placed size ∧
      rest.Placed size

theorem placed_append (hf : f.Placed size) (hg : g.Placed size) : (f ++ g).Placed size := by
  induction f with
  | nil => exact hg
  | value label v rest ih => exact ⟨hf.1, ih hf.2⟩
  | node label head below rest _ ih => exact ⟨hf.1, hf.2.1, hf.2.2.1, ih hf.2.2.2⟩

theorem placed_leaf {span : Span} (slot : Slot) (h : span.Fits size) (hf : f.Placed size) :
    (leaf slot .text span f).Placed size := by
  obtain ⟨hstart, hle, hstop⟩ := h
  have hplain : ¬ NodeType.text.Gathers := by decide
  refine ⟨⟨hstart, ?_, ?_, hstop, fun _ => hle⟩, fun h => absurd h hplain, trivial, hf⟩
  · exact Int.le_trans hle hstop
  · exact Int.le_trans hstart hle

theorem placed_literal (label : Label) (text : Bytes) :
    (value label (.literal text) nil : Forest Shape).Placed size :=
  ⟨by simp, trivial⟩

end Forest

namespace Markdown

variable {src : Source} {size cursor : Nat} {s : Segment} {inner : Conversion}

/-- The node and what is below it lie inside the first `size` bytes. -/
structure Piece.Placed (size : Nat) (p : Piece) : Prop where
  shape : Shape.Placed size ⟨p.type, p.segment.toSpan⟩
  below : p.below.Placed size

/-- The outcome leaves the cursor, its node and its diagnostics inside the first `size` bytes. -/
structure Outcome.Placed (size : Nat) (o : Outcome) : Prop where
  piece : ∀ p ∈ o.piece, p.Placed size
  cursor_le : o.cursor ≤ size
  diagnostics : ∀ d ∈ o.diagnostics, d.span.Fits size

/-- The same of a sequence of nodes. -/
structure Conversion.Placed (size : Nat) (c : Conversion) : Prop where
  entries : c.entries.Placed size
  segments : ∀ s ∈ c.segments, s.start ≤ size ∧ s.stop ≤ size
  cursor_le : c.cursor ≤ size
  diagnostics : ∀ d ∈ c.diagnostics, d.span.Fits size

theorem advance_le (h : cursor ≤ src.size) (pos : Nat) : advance src cursor pos ≤ src.size := by
  unfold advance
  split
  · simp only [Bool.and_eq_true, decide_eq_true_eq] at *
    omega
  · exact h

theorem placed_none (h : cursor ≤ size) : Outcome.Placed size ⟨none, cursor, []⟩ :=
  ⟨by simp, h, by simp⟩

theorem Conversion.Placed.empty (h : cursor ≤ size) : (Conversion.empty cursor).Placed size :=
  ⟨trivial, by simp [Conversion.empty], h, by simp [Conversion.empty]⟩

theorem Conversion.Placed.cons {o : Outcome} {rest : Conversion} (ho : o.Placed size)
    (hrest : rest.Placed size) : (Conversion.cons o rest).Placed size := by
  have hdiagnostics : ∀ d ∈ o.diagnostics ++ rest.diagnostics, d.span.Fits size := by
    intro d hd
    cases List.mem_append.mp hd with
    | inl hd => exact ho.diagnostics d hd
    | inr hd => exact hrest.diagnostics d hd
  unfold Conversion.cons
  split
  · exact ⟨hrest.entries, hrest.segments, hrest.cursor_le, hdiagnostics⟩
  · rename_i p hp
    obtain ⟨hshape, hbelow⟩ := ho.piece p hp
    refine ⟨⟨hshape, fun _ => rfl, hbelow, hrest.entries⟩, ?_, hrest.cursor_le, hdiagnostics⟩
    intro s hs
    cases List.mem_cons.mp hs with
    | inl hs =>
      subst hs
      exact ⟨Int.ofNat_le.mp hshape.start_le, Int.ofNat_le.mp hshape.stop_le⟩
    | inr hs => exact hrest.segments s hs

theorem placed_leafAt {below : Forest Shape} (type : NodeType) (hs : s.Within src.size)
    (hbelow : below.Placed src.size) (hc : cursor ≤ src.size) :
    (leafAt src cursor type s below).Placed src.size := by
  refine ⟨?_, advance_le hc _, by simp [leafAt]⟩
  rintro p ⟨⟩
  exact ⟨hs.placed type, hbelow⟩

theorem placed_containerAt (type : NodeType) (hs : s.Within src.size)
    (hi : inner.Placed src.size) : (containerAt src type s inner).Placed src.size := by
  refine ⟨?_, advance_le hi.cursor_le _, hi.diagnostics⟩
  rintro p ⟨⟩
  exact ⟨hs.placed type, hi.entries⟩

end Markdown

end DocTokens
