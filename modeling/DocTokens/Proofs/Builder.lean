import DocTokens.Tree.Builder

/-! # Reachable builders

What holds of every tree that some sequence of calls and builds hands over, whatever the calls name.
-/

namespace DocTokens

/-- Every node of an arena carries its own number. -/
def Numbered (nodes : Array Node) : Prop := ∀ (i : Nat) (n : Node), nodes[i]? = some n → n.id = i

namespace Numbered

variable {nodes : Array Node}

theorem empty : Numbered #[] := by
  intro i n h
  simp at h

theorem push (h : Numbered nodes) {n : Node} (hn : n.id = nodes.size) :
    Numbered (nodes.push n) := by
  intro i m hm
  rw [Array.getElem?_push] at hm
  split at hm
  · cases hm
    rw [hn]
    exact Eq.symm ‹_›
  · exact h i m hm

theorem modify (h : Numbered nodes) (k : Nat) {f : Node → Node} (hf : ∀ n, (f n).id = n.id) :
    Numbered (nodes.modify k f) := by
  intro i m hm
  rw [Array.getElem?_modify] at hm
  split at hm
  · obtain ⟨n, hn, rfl⟩ := Option.map_eq_some_iff.mp hm
    rw [hf]
    exact h i n hn
  · exact h i m hm

end Numbered

namespace Builder

/-- The builders that calls and builds lead to, starting from the empty one. -/
inductive Reachable : Builder → Prop where
  | empty : Reachable .empty
  | apply {b : Builder} (call : Call) : Reachable b → Reachable (b.apply call)
  | build {b : Builder} : Reachable b → Reachable b.build.2

variable {b : Builder}

theorem Reachable.run (h : b.Reachable) (calls : List Call) : (Builder.run calls b).Reachable := by
  induction calls generalizing b with
  | nil => exact h
  | cons call calls ih => exact ih (.apply call h)

theorem numbered_add (h : Numbered b.nodes) (parent : NodeId) (type : NodeType) (span : Span) :
    Numbered (b.add parent type span).nodes :=
  h.push rfl

theorem numbered_modify (h : Numbered b.nodes) (id : NodeId) {f : Node → Node}
    (hf : ∀ n, (f n).id = n.id) : Numbered (b.modify id f).nodes := by
  unfold Builder.modify
  split
  · exact h
  · exact h.modify _ hf

/-- No call renumbers a node. -/
theorem numbered_apply (h : Numbered b.nodes) (call : Call) : Numbered (b.apply call).nodes := by
  cases call with
  | add parent type span => exact numbered_add h parent type span
  | addSlot parent slot type span =>
    exact numbered_modify (numbered_add h parent type span) parent fun _ => rfl
  | attach parent slot child => exact numbered_modify h parent fun _ => rfl
  | attachKey parent key child => exact numbered_modify h parent fun _ => rfl
  | setLiteral parent slot text => exact numbered_modify h parent fun _ => rfl
  | setSpan id span => exact numbered_modify h id fun _ => rfl

theorem Reachable.numbered (h : b.Reachable) : Numbered b.nodes := by
  induction h with
  | empty => exact Numbered.empty
  | apply call _ ih => exact numbered_apply ih call
  | build _ _ => exact Numbered.empty

end Builder

/-- The trees that builders hand over. -/
def Tree.Built (t : Tree) : Prop := ∃ b : Builder, b.Reachable ∧ b.build.1 = t

namespace Tree.Built

theorem run (calls : List Builder.Call) : (Builder.run calls .empty).build.1.Built :=
  ⟨_, .run .empty calls, rfl⟩

theorem numbered {t : Tree} (h : t.Built) : Numbered t.nodes := by
  obtain ⟨b, hb, rfl⟩ := h
  exact hb.numbered

end Tree.Built

end DocTokens
