import DocTokens.Proofs.Classification
import DocTokens.Proofs.Numbering
import DocTokens.Proofs.Tokens

/-! # Tokens of a forest

In the tree of a forest every node but the root stands in one field of its parent. Its category then
depends on its type, on the slot of that field and on the type of the parent, and the tokens of the
tree can be read off the forest.
-/

namespace DocTokens

namespace Category

/-- The category that a slot of a parent gives. -/
def ofSlot? (parent : NodeType) (slot : Slot) : Option Category :=
  (slotRules.find? fun rule =>
    (rule.parentType.isNone || rule.parentType == some parent)
      && rule.slot == slot).map (·.category)

/-- The category of a node of a forest. -/
def ofPlace? (parent : NodeType) (slot : Slot) (type : NodeType) : Option Category :=
  (ofType? type).or (ofSlot? parent slot)

end Category

namespace Forest

/-- The spans and categories of the nodes that have a category, in pre-order, below a node of the
given type. -/
def classified (parent : NodeType) : Forest Shape → List (Span × Category)
  | nil => []
  | value _ _ rest => rest.classified parent
  | node label head below rest =>
    ((Category.ofPlace? parent label.slot head.type).map (head.span, ·)).toList ++
      (below.classified head.type ++ rest.classified parent)

end Forest

/-! ## Categories in the tree of a forest -/

namespace Tree

variable {t : Tree} {n parent : Node}

theorem field_unique {fields : List Field} (hnodup : (fieldIds fields).Nodup) {f g : Field}
    {id : NodeId} (hf : f ∈ fields) (hg : g ∈ fields) (hfid : f.value = .child id)
    (hgid : g.value = .child id) : f = g := by
  induction fields with
  | nil => cases hf
  | cons field fields ih =>
    have hmem : ∀ h ∈ fields, h.value = .child id → id ∈ fieldIds fields := by
      intro h hh hid
      exact List.mem_filterMap.mpr ⟨h, hh, by rw [hid]⟩
    have hfirst : field.value = .child id → id ∉ fieldIds fields := by
      intro hid
      have hids : fieldIds (field :: fields) = id :: fieldIds fields := by simp [fieldIds, hid]
      rw [hids] at hnodup
      exact (List.nodup_cons.mp hnodup).1
    rcases List.mem_cons.mp hf with rfl | hf'
    · rcases List.mem_cons.mp hg with rfl | hg'
      · rfl
      · exact absurd (hmem g hg' hgid) (hfirst hfid)
    · rcases List.mem_cons.mp hg with rfl | hg'
      · exact absurd (hmem f hf' hfid) (hfirst hgid)
      · exact ih (hnodup.sublist ((List.sublist_cons_self _ _).filterMap _)) hf' hg'

/-- A node that only one field of its parent refers to is held by the slot of that field. -/
theorem references_eq {slot : Slot} {key : Bytes} (hp : t.node? n.parent = some parent)
    (hfield : ⟨slot, key, .child n.id⟩ ∈ parent.fields.toList) (hnodup : parent.childIds.Nodup)
    (slot' : Slot) : t.references n.parent slot' n.id = (slot' == slot) := by
  rw [Bool.eq_iff_iff, references_iff, beq_iff_eq]
  constructor
  · rintro ⟨-, m, hm, f, hf, hslot, hvalue⟩
    obtain rfl : parent = m := Option.some.inj (hp.symm.trans hm)
    obtain rfl := field_unique hnodup (Array.mem_toList_iff.mpr hf) hfield hvalue rfl
    exact hslot.symm
  · rintro rfl
    exact ⟨Int.noConfusion, parent, hp, _, Array.mem_toList_iff.mp hfield, rfl, rfl⟩

theorem classify_eq {slot : Slot} {key : Bytes} (hn : t.node? n.id = some n)
    (hp : t.node? n.parent = some parent)
    (hfield : ⟨slot, key, .child n.id⟩ ∈ parent.fields.toList) (hnodup : parent.childIds.Nodup) :
    t.classify n.id = Category.ofPlace? parent.type slot n.type := by
  unfold classify Category.ofPlace? Category.ofSlot?
  simp only [hn, hp, references_eq hp hfield hnodup]
  cases Category.ofType? n.type <;> rfl

/-- The spans and categories of the nodes of a list that have a category. -/
def classified (t : Tree) (nodes : List Node) : List (Span × Category) :=
  nodes.flatMap fun n => ((t.classify n.id).map (n.span, ·)).toList

end Tree

namespace Forest

theorem nodup_fieldIds {f : Forest Shape} (hf : f.Plain) (base : Nat) :
    (Tree.fieldIds (f.fields base)).Nodup :=
  (fieldIds_fields hf base).2.imp fun h => Int.ne_of_lt h

/-- Where a tree holds the nodes of a forest, and `parent` its fields, the categories of the nodes
are those of the forest. -/
theorem classified_number {t : Tree} {f : Forest Shape} (hf : f.Plain) {parent : Node}
    (base : Nat) (hparent : t.node? parent.id = some parent) (hnodup : parent.childIds.Nodup)
    (hfields : ∀ field ∈ f.fields base, field ∈ parent.fields.toList)
    (ht : ∀ n ∈ (f.number parent.id base).heads, t.node? n.id = some n) :
    t.classified (f.number parent.id base).heads = f.classified parent.type := by
  induction f generalizing parent base with
  | nil => rfl
  | value label v rest ih =>
    exact ih hf.2 base hparent hnodup (fun field h => hfields field (List.mem_cons_of_mem _ h)) ht
  | node label head below rest ihb ihr =>
    simp only [number, heads, List.mem_cons, List.mem_append] at ht
    have hhead := ht _ (.inl rfl)
    have hclass := Tree.classify_eq hhead hparent (hfields _ List.mem_cons_self) hnodup
    have hbelow := ihb hf.1 (base + 1) hhead (nodup_fieldIds hf.1 (base + 1)) (fun _ h => h)
      (fun n hn => ht n (.inr (.inl hn)))
    have hrest := ihr hf.2 (base + 1 + below.size) hparent hnodup
      (fun field h => hfields field (List.mem_cons_of_mem _ h)) (fun n hn => ht n (.inr (.inr hn)))
    unfold Tree.classified at hbelow hrest ⊢
    rw [number, heads, List.flatMap_cons, List.flatMap_append, hbelow, hrest, hclass]
    rfl

/-- The categories of all nodes of the tree of a forest. -/
theorem classified_toTree {f : Forest Shape} (hf : f.Plain) (root : Shape) :
    (f.toTree root).classified (f.toTree root).preorder =
      ((Category.ofType? root.type).map (root.span, ·)).toList ++ f.classified root.type := by
  have hroot := node?_toTree_zero root f
  have hclass : (f.toTree root).classify 0 = Category.ofType? root.type := by
    have hnone : (f.toTree root).node? NodeId.none = none := rfl
    simp only [Tree.classify, hroot, rootNode, hnone]
    cases Category.ofType? root.type <;> rfl
  have hnodup : (f.rootNode root).childIds.Nodup := nodup_fieldIds hf 1
  have hbelow : (f.toTree root).classified (f.number 0 1).heads = f.classified root.type :=
    classified_number hf 1 hroot hnodup (fun _ h => h) (fun n hn => node?_toTree_of_mem hn)
  unfold Tree.classified at hbelow ⊢
  rw [preorder_toTree hf, toTree_toList, heads_number_rooted, List.flatMap_cons, ← hclass]
  exact congrArg _ hbelow

end Forest

/-! ## Entries -/

namespace Forest

/-- Every entry is a node whose label and head have the property. -/
def EachEntry (P : Label → Shape → Prop) : Forest Shape → Prop
  | nil => True
  | value _ _ _ => False
  | node label head _ rest => P label head ∧ rest.EachEntry P

/-- The field of an entry carries its label and refers to a node with its head. -/
theorem EachEntry.exists_of_mem {P : Label → Shape → Prop} {f : Forest Shape} (h : f.EachEntry P)
    (parent : NodeId) {base : Nat} {field : Field} (hfield : field ∈ f.fields base) :
    ∃ n ∈ (f.number parent base).heads, field.value = .child n.id ∧
      P ⟨field.slot, field.key⟩ ⟨n.type, n.span⟩ := by
  induction f generalizing base with
  | nil => cases hfield
  | value label v rest => exact h.elim
  | node label head below rest _ ihr =>
    simp only [number, heads, List.mem_cons, List.mem_append]
    rcases List.mem_cons.mp hfield with rfl | hfield
    · exact ⟨_, .inl rfl, rfl, h.1⟩
    · obtain ⟨n, hn, hvalue, hP⟩ := ihr h.2 hfield
      exact ⟨n, .inr (.inr hn), hvalue, hP⟩

end Forest

/-! ## Tokens -/

/-- The tokens of a span: one for each line that it touches. -/
def Token.ofRole (text : Bytes) (role : Span × Category) : List Token :=
  ((LineIndex.ofBytes text).pieces role.1).map (ofRange role.2)

theorem Tree.flatMap_tokensOf (t : Tree) (text : Bytes) (nodes : List Node) :
    nodes.flatMap (t.tokensOf text) = (t.classified nodes).flatMap (Token.ofRole text) := by
  rw [classified, List.flatMap_assoc]
  congr 1
  funext n
  rw [tokensOf]
  cases t.classify n.id with
  | none => rfl
  | some c => exact (List.append_nil _).symm

/-- A tree of a forest has tokens if the spans that have a category fit the text. -/
theorem Forest.tokenize_toTree {f : Forest Shape} (hf : f.Plain) (root : Shape)
    (hroot : Category.ofType? root.type = none) {text : Bytes}
    (h : ∀ role ∈ f.classified root.type, role.1.Fits text.length) (interval : Int) :
    (f.toTree root).tokenize text interval .never =
      (.ok ((f.classified root.type).flatMap (Token.ofRole text)), .never) := by
  have hroles := classified_toTree hf root
  rw [hroot] at hroles
  have hfits : ∀ n ∈ (f.toTree root).preorder, ¬ (f.toTree root).Offends text n := by
    rintro n hn ⟨hsome, hout⟩
    obtain ⟨c, hc⟩ := Option.isSome_iff_exists.mp hsome
    have hmem : (n.span, c) ∈ (f.toTree root).classified (f.toTree root).preorder :=
      List.mem_flatMap.mpr ⟨n, hn, by simp [hc]⟩
    rw [hroles] at hmem
    exact hout (h _ hmem)
  rw [Tree.tokenize_of_fits (numbered_toTree root f) hfits, Tree.flatMap_tokensOf, hroles]
  rfl

/-- A span inside one line is one range. -/
theorem LineIndex.pieces_of_lineAt {text line : Bytes} {before after : List Bytes} {s c n : Nat}
    (h : LineAt (Bytes.splitAt newline text) s before line after c) (hn : c + n ≤ line.length) :
    (ofBytes text).pieces ⟨s, (s + n : Nat)⟩ = [⟨before.length, c, n⟩] := by
  have hspan := locateSpan_eq (Nat.le_add_right s n) (locate_of_lineAt h)
    (locate_of_lineAt (h.move hn))
  have hend : (ofBytes text).spanEnd ⟨(before.length + 1 : Nat), c + 1⟩
      ⟨(before.length + 0 + 1 : Nat), (c + n : Nat) + 1⟩ =
        ⟨(before.length + 0 + 1 : Nat), (c + n : Nat) + 1⟩ := spanEnd_of_inside _ (.inl rfl)
  have hlines : before.length + 0 < ((ofBytes text).lengths.map Int.ofNat).length := by
    simp [h.lines_eq]
  have hpieces : LineRange.decompose ⟨(before.length + 1 : Nat), c + 1⟩
      ⟨(before.length + 0 + 1 : Nat), (c + n : Nat) + 1⟩ ((ofBytes text).lengths.map Int.ofNat) =
        .ok [⟨before.length, c, n⟩] := by
    have hlength : ((c + n : Nat) : Int) + 1 - 1 - c = n := by omega
    rw [LineRange.decompose_eq hlines (fun _ => Nat.le_add_right c n), LineRange.cover, hlength,
      if_neg (by omega)]
  rw [pieces, ranges_eq_ok_iff.mpr ⟨hspan, by rw [hend]; exact hpieces⟩]

end DocTokens
