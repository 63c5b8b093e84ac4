import DocTokens.Proofs.History
import DocTokens.Tree.Forest

/-! # Calls in another order

Changes of different nodes, or of different parts of one node, may be made in any order, and a node
that is there may be changed before or after others are added. So the span of a node that is set
when the nodes below it are there might have been given with the node.
-/

namespace DocTokens

namespace Builder

variable {b : Builder} {id : Int} {parent : NodeId} {type : NodeType} {span s : Span} {slot : Slot}

theorem valid_iff : b.valid id = true ↔ 0 ≤ id ∧ id < b.nodes.size := by
  simp [valid]

theorem modify_comm {f g : Node → Node} (hfg : ∀ n, f (g n) = g (f n)) (i j : Int) :
    (b.modify i f).modify j g = (b.modify j g).modify i f := by
  unfold modify
  by_cases hi : i < 0
  · simp only [if_pos hi]
  · by_cases hj : j < 0
    · simp only [if_pos hj]
    · simp only [if_neg hi, if_neg hj, mk.injEq, and_true]
      apply Array.ext_getElem?
      intro k
      simp only [Array.getElem?_modify]
      cases b.nodes[k]? with
      | none => simp
      | some n => by_cases hik : i.toNat = k <;> by_cases hjk : j.toNat = k <;> simp [hik, hjk, hfg]

/-- Nodes that are there are changed before or after another one is added. -/
theorem modify_add (h : b.valid id = true) (f : Node → Node) :
    (b.add parent type span).modify id f = (b.modify id f).add parent type span := by
  obtain ⟨hlow, hhigh⟩ := valid_iff.mp h
  have hneg : ¬ id < 0 := by omega
  have hmodify : ∀ b : Builder, b.modify id f = ⟨b.nodes.modify id.toNat f, b.root⟩ :=
    fun b => if_neg hneg
  simp only [hmodify, add, nextId, Array.size_modify, mk.injEq, and_true]
  apply Array.ext_getElem?
  intro k
  simp only [Array.getElem?_modify, Array.getElem?_push, Array.size_modify]
  by_cases hk : k = b.nodes.size
  · simp [hk, show ¬ id.toNat = b.nodes.size by omega]
  · simp [hk]

theorem setSpan_addField (f : Field) :
    (b.addField parent f).setSpan id s = (b.setSpan id s).addField parent f := by
  refine modify_comm ?_ parent id
  intro n
  rfl

/-- The span of a node may be set later. -/
theorem setSpan_new :
    (b.addSlot parent slot type span).setSpan b.nextId s = b.addSlot parent slot type s := by
  have hnew : (b.add parent type span).setSpan b.nextId s = b.add parent type s := by
    have hnonneg : ¬ b.nextId < 0 := Int.not_lt.mpr (Int.natCast_nonneg _)
    have hto : b.nextId.toNat = b.nodes.size := Int.toNat_natCast _
    rw [setSpan, modify, if_neg hnonneg, hto]
    simp only [add, mk.injEq, and_true]
    apply Array.ext_getElem?
    intro k
    simp only [Array.getElem?_modify, Array.getElem?_push]
    by_cases hk : k = b.nodes.size
    · simp [hk]
    · simp [hk, Ne.symm hk]
  rw [addSlot, attach, setSpan_addField, hnew]
  rfl

/-- All nodes are still there, with their spans. -/
def Grows (b b' : Builder) : Prop :=
  ∀ id : Int, b.valid id = true → b'.valid id = true ∧ b'.span id = b.span id

theorem Grows.trans {b₁ b₂ b₃ : Builder} (h : Grows b₁ b₂) (h' : Grows b₂ b₃) : Grows b₁ b₃ := by
  intro id hid
  obtain ⟨hvalid, hspan⟩ := h id hid
  obtain ⟨hvalid', hspan'⟩ := h' id hvalid
  exact ⟨hvalid', hspan'.trans hspan⟩

theorem grows_add : Grows b (b.add parent type span) := by
  intro id hid
  obtain ⟨hlow, hhigh⟩ := valid_iff.mp hid
  constructor
  · rw [valid_iff, add, Array.size_push]
    omega
  · have hne : ¬ id.toNat = b.nodes.size := by omega
    simp only [Builder.span, add, Array.getElem?_push, if_neg hne]

theorem grows_modify {f : Node → Node} (hf : ∀ n, (f n).span = n.span) (i : Int) :
    Grows b (b.modify i f) := by
  intro id hid
  obtain ⟨hlow, hhigh⟩ := valid_iff.mp hid
  constructor
  · rw [valid_iff, size_modify]
    exact ⟨hlow, hhigh⟩
  · have hlt : id.toNat < b.nodes.size := by omega
    obtain ⟨n, hn⟩ : ∃ n, b.nodes[id.toNat]? = some n := ⟨_, Array.getElem?_eq_getElem hlt⟩
    simp only [Builder.span, getElem?_modify hn, hn]
    by_cases hi : i = (id.toNat : Int)
    · simp only [if_pos hi, hf]
    · simp only [if_neg hi]

theorem grows_addField (f : Field) : Grows b (b.addField parent f) := by
  refine grows_modify ?_ parent
  intro n
  rfl

theorem valid_add : (b.add parent type span).valid b.nextId = true := by
  rw [valid_iff, add, Array.size_push]
  exact ⟨Int.natCast_nonneg _, Int.ofNat_lt.mpr (Nat.lt_succ_self _)⟩

theorem span_add : (b.add parent type span).span b.nextId = span := by
  simp [Builder.span, add, nextId, show ¬ (b.nodes.size : Int) < 0 by omega]

theorem valid_addSlot : (b.addSlot parent slot type span).valid b.nextId = true :=
  (grows_addField _ _ valid_add).1

theorem span_addSlot : (b.addSlot parent slot type span).span b.nextId = span :=
  (grows_addField _ _ valid_add).2.trans span_add

end Builder

namespace Forest

variable {b : Builder} {id : Int}

theorem addTo_append (f g : Forest Shape) (parent : NodeId) (b : Builder) :
    (f ++ g).addTo parent b = g.addTo parent (f.addTo parent b) := by
  induction f generalizing b with
  | nil => rfl
  | value label v rest ih => exact ih _
  | node label head below rest _ ih => exact ih _

theorem grows_addTo (f : Forest Shape) (parent : NodeId) (b : Builder) :
    b.Grows (f.addTo parent b) := by
  induction f generalizing parent b with
  | nil => exact fun id hid => ⟨hid, rfl⟩
  | value label v rest ih => exact (Builder.grows_addField _).trans (ih parent _)
  | node label head below rest ihb ihr =>
    exact (Builder.grows_add.trans (Builder.grows_addField _)).trans
      ((ihb _ _).trans (ihr parent _))

/-- What is added to other nodes leaves the span of a node to be set. -/
theorem setSpan_addTo (h : b.valid id = true) (f : Forest Shape) (parent : NodeId) (s : Span) :
    (f.addTo parent b).setSpan id s = f.addTo parent (b.setSpan id s) := by
  induction f generalizing parent b with
  | nil => rfl
  | value label v rest ih =>
    rw [addTo, addTo, ih ((Builder.grows_addField _) id h).1, Builder.setSpan_addField]
  | node label head below rest ihb ihr =>
    have hgrows : b.Grows ((b.add parent head.type head.span).addField parent
        ⟨label.slot, label.key, .child b.nextId⟩) :=
      Builder.grows_add.trans (Builder.grows_addField _)
    have hadd := (hgrows id h).1
    have hnext : (b.setSpan id s).nextId = b.nextId := congrArg Int.ofNat (b.size_modify id _)
    have hsame : (b.add parent head.type head.span).setSpan id s =
        (b.setSpan id s).add parent head.type head.span := Builder.modify_add h _
    have hbelow := (grows_addTo below b.nextId _ id hadd).1
    rw [addTo, addTo, ihr hbelow, ihb hadd, Builder.setSpan_addField, hsame, hnext]

end Forest

end DocTokens
