import DocTokens.Proofs.Builder
import DocTokens.Proofs.Classification
import DocTokens.Proofs.Markdown.Checked
import DocTokens.Proofs.Numbering
import DocTokens.Proofs.Tokens

/-! # Converted documents have tokens

The tree of a placed forest keeps the spans of the forest and the slots that hold them. A node with
a category is neither a list nor a table, since neither has a category of its own and no slot rule
speaks of plain children. So the spans that matter for tokens begin before they end, and a placed
document always has tokens.
-/

namespace DocTokens

/-- Every node has its span inside the first `size` bytes, and every reference leads to a node;
lists and tables are referred to as plain children only. -/
structure ArenaPlaced (size : Nat) (nodes : Array Node) : Prop where
  shapes : ∀ (i : Nat) (n : Node), nodes[i]? = some n → Shape.Placed size ⟨n.type, n.span⟩
  references : ∀ (i : Nat) (m : Node), nodes[i]? = some m → ∀ f ∈ m.fields, ∀ id,
    f.value = .child id → ∃ n, nodes[id.toNat]? = some n ∧ (n.type.Gathers → f.slot = .children)

namespace ArenaPlaced

variable {size : Nat} {nodes : Array Node}

theorem empty : ArenaPlaced size #[] := ⟨by simp, by simp⟩

theorem push (h : ArenaPlaced size nodes) {n : Node} (hn : Shape.Placed size ⟨n.type, n.span⟩)
    (hfields : n.fields = #[]) : ArenaPlaced size (nodes.push n) := by
  have hkeep : ∀ (i : Nat) (m : Node), nodes[i]? = some m → (nodes.push n)[i]? = some m := by
    intro i m hm
    obtain ⟨hlt, _⟩ := Array.getElem?_eq_some_iff.mp hm
    rw [Array.getElem?_push, if_neg (Nat.ne_of_lt hlt), hm]
  refine ⟨?_, ?_⟩
  · intro i m hm
    rw [Array.getElem?_push] at hm
    split at hm
    · cases hm
      exact hn
    · exact h.shapes i m hm
  · intro i m hm f hf id hid
    rw [Array.getElem?_push] at hm
    split at hm
    · cases hm
      simp [hfields] at hf
    · obtain ⟨k, hk, hslot⟩ := h.references i m hm f hf id hid
      exact ⟨k, hkeep _ k hk, hslot⟩

/-- A node may get one more field if that is no reference, or leads to a node that may stand in its
slot. -/
theorem addField (h : ArenaPlaced size nodes) (k : Nat) {f : Field}
    (hf : ∀ id, f.value = .child id →
      ∃ n, nodes[id.toNat]? = some n ∧ (n.type.Gathers → f.slot = .children)) :
    ArenaPlaced size (nodes.modify k fun n => { n with fields := n.fields.push f }) := by
  have hkeep : ∀ (i : Nat) (n : Node), nodes[i]? = some n →
      ∃ m, (nodes.modify k fun n => { n with fields := n.fields.push f })[i]? = some m ∧
        m.type = n.type := by
    intro i n hn
    rw [Array.getElem?_modify, hn]
    split
    · exact ⟨_, rfl, rfl⟩
    · exact ⟨n, rfl, rfl⟩
  have hback : ∀ (i : Nat) (m : Node),
      (nodes.modify k fun n => { n with fields := n.fields.push f })[i]? = some m →
      ∃ n, nodes[i]? = some n ∧ m.type = n.type ∧ m.span = n.span ∧
        ∀ g ∈ m.fields, g ∈ n.fields ∨ g = f := by
    intro i m hm
    rw [Array.getElem?_modify] at hm
    split at hm
    · obtain ⟨n, hn, rfl⟩ := Option.map_eq_some_iff.mp hm
      exact ⟨n, hn, rfl, rfl, fun g hg => Array.mem_push.mp hg⟩
    · exact ⟨m, hm, rfl, rfl, fun g hg => .inl hg⟩
  refine ⟨?_, ?_⟩
  · intro i m hm
    obtain ⟨n, hn, htype, hspan, _⟩ := hback i m hm
    rw [htype, hspan]
    exact h.shapes i n hn
  · intro i m hm g hg id hid
    obtain ⟨n, hn, _, _, hfields⟩ := hback i m hm
    have htarget : ∃ t, nodes[id.toNat]? = some t ∧ (t.type.Gathers → g.slot = .children) := by
      cases hfields g hg with
      | inl hg => exact h.references i n hn g hg id hid
      | inr hg =>
        subst hg
        exact hf id hid
    obtain ⟨t, ht, hslot⟩ := htarget
    obtain ⟨t', ht', htype⟩ := hkeep _ t ht
    exact ⟨t', ht', htype ▸ hslot⟩

end ArenaPlaced

namespace Builder

variable {size : Nat} {b : Builder}

theorem placed_addField (h : ArenaPlaced size b.nodes) (parent : NodeId) {f : Field}
    (hf : ∀ id, f.value = .child id →
      ∃ n, b.nodes[id.toNat]? = some n ∧ (n.type.Gathers → f.slot = .children)) :
    ArenaPlaced size (b.addField parent f).nodes := by
  unfold Builder.addField Builder.modify
  split
  · exact h
  · exact h.addField _ hf

end Builder

namespace Forest

variable {size : Nat}

theorem placed_addTo {f : Forest Shape} (hf : f.Placed size) (parent : NodeId) {b : Builder}
    (h : ArenaPlaced size b.nodes) : ArenaPlaced size (f.addTo parent b).nodes := by
  induction f generalizing parent b with
  | nil => exact h
  | value label v rest ih =>
    exact ih hf.2 parent (Builder.placed_addField h parent fun id hid => absurd hid (hf.1 id))
  | node label head below rest ihBelow ihRest =>
    obtain ⟨hhead, hslot, hbelow, hrest⟩ := hf
    refine ihRest hrest parent (ihBelow hbelow _ ?_)
    refine Builder.placed_addField (h.push hhead rfl) parent ?_
    intro id hid
    -- the new reference leads to the node that was pushed just before
    cases hid
    exact ⟨_, Array.getElem?_push_size, hslot⟩

theorem placed_toTree {root : Shape} {f : Forest Shape} (hroot : root.Placed size)
    (hf : f.Placed size) : ArenaPlaced size (f.toTree root).nodes :=
  placed_addTo hf 0 (ArenaPlaced.empty.push hroot rfl)

end Forest

namespace Category

theorem ofType?_of_gathers {type : NodeType} (h : type.Gathers) : ofType? type = none := by
  obtain rfl | rfl := h <;> decide

theorem slot_ne_children {rule : SlotRule} (h : rule ∈ slotRules) : rule.slot ≠ .children := by
  revert rule
  decide

end Category

namespace Tree

variable {t : Tree} {size : Nat} {id : NodeId} {n : Node}

/-- Lists and tables have no category. -/
theorem not_gathers_of_classify (h : ArenaPlaced size t.nodes) (hn : t.node? id = some n)
    (hc : (t.classify id).isSome) : ¬ n.type.Gathers := by
  intro hg
  simp only [classify, hn, Category.ofType?_of_gathers hg] at hc
  split at hc
  · cases hc
  · simp only [Option.isSome_map, List.find?_isSome, Bool.and_eq_true] at hc
    obtain ⟨rule, hrule, _, href⟩ := hc
    obtain ⟨-, m, hm, f, hf, hslot, hchild⟩ := references_iff.mp href
    obtain ⟨n', hn', hplain⟩ := h.references _ m (getElem?_nodes hm) f hf id hchild
    obtain rfl : n' = n := by simpa [getElem?_nodes hn] using hn'.symm
    exact Category.slot_ne_children hrule (hslot ▸ hplain hg)

theorem not_offends_of_placed {text : Bytes} (h : ArenaPlaced text.length t.nodes)
    (hn : t.node? n.id = some n) : ¬ t.Offends text n := by
  rintro ⟨hc, hfits⟩
  exact hfits ((h.shapes _ n (getElem?_nodes hn)).fits (not_gathers_of_classify h hn hc))

end Tree

namespace Markdown

variable {src : Source} {document : Node}

theorem placed_root (src : Source) : Shape.Placed src.size ⟨.file, ⟨0, src.size⟩⟩ := by
  constructor <;> simp

theorem placed_converted (h : document.Everywhere (Node.Placed src.size)) :
    (convertAll src none document.children 0).Placed src.size :=
  placed_convertAll (fun m hm => placed_convertNode (h.children m hm)) none (Nat.zero_le _)

/-- A placed document is converted without a read outside of its source. The nodes of its tree and
its diagnostics have their spans inside of the source, where only lists and tables may end before
they start, and the tree has tokens over the source. -/
theorem convert_tokenizable (src : Source) (document : Node)
    (h : document.Everywhere (Node.Placed src.size)) :
    Checked.convert src document = some (convert src document) ∧
    (∀ n ∈ (convert src document).1.nodes,
      0 ≤ n.span.start ∧ n.span.start ≤ src.size ∧ 0 ≤ n.span.stop ∧ n.span.stop ≤ src.size ∧
      (n.type ≠ .list → n.type ≠ .table → n.span.start ≤ n.span.stop)) ∧
    (∀ d ∈ (convert src document).2, d.span.Fits src.size) ∧
    ∀ interval, ∃ tokens,
      (convert src document).1.tokenize src.toList interval .never = (.ok tokens, .never) := by
  have hall := placed_converted h
  have harena := Forest.placed_toTree (placed_root src) hall.entries
  refine ⟨Checked.convert_eq h, ?_, hall.diagnostics, ?_⟩
  · intro n hn
    obtain ⟨i, hi⟩ := Array.mem_iff_getElem?.mp hn
    have hshape := harena.shapes i n hi
    refine ⟨hshape.start_nonneg, hshape.start_le, hshape.stop_nonneg, hshape.stop_le, ?_⟩
    intro hlist htable
    exact hshape.ordered fun hg => hg.elim hlist htable
  · intro interval
    have hnum := Forest.numbered_toTree ⟨.file, ⟨0, src.size⟩⟩
      (convertAll src none document.children 0).entries
    refine ⟨_, Tree.tokenize_of_fits hnum (fun n hn => ?_) interval⟩
    exact Tree.not_offends_of_placed harena (Tree.node?_of_mem_preorder hnum hn)

def reversedSource : Source := #[36, 36, 32, 97]

/-- A list whose last part stands before its first. -/
def reversedParts : Node :=
  .mk .document [] [.mk (.list (ascii '-')) [] [.text ⟨3, 4⟩, .leaf (.formula ⟨0, 2⟩)]]

theorem placed_reversedParts : reversedParts.Everywhere (Node.Placed reversedSource.size) := by
  refine .mk ?_ (List.forall_mem_singleton.mpr (.mk ?_ (List.forall_mem_cons.mpr
    ⟨.mk ?_ (by simp), List.forall_mem_singleton.mpr (.mk ?_ (by simp))⟩)))
  all_goals
    constructor <;> simp +decide [Node.kind, Node.lines, firstToLast?, Segment.length]

theorem convert_tokenizable_reversed :
    reversedParts.Everywhere (Node.Placed reversedSource.size) ∧
    (∃ n ∈ (convert reversedSource reversedParts).1.nodes,
      n.type = .list ∧ n.span.stop < n.span.start) ∧
    Checked.convert reversedSource reversedParts = some (convert reversedSource reversedParts) ∧
    ∃ tokens, (convert reversedSource reversedParts).1.tokenize reversedSource.toList 0 .never =
      (.ok tokens, .never) := by
  obtain ⟨hchecked, _, _, htokens⟩ :=
    convert_tokenizable reversedSource reversedParts placed_reversedParts
  exact ⟨placed_reversedParts, by decide, hchecked, htokens 0⟩

end Markdown

end DocTokens
