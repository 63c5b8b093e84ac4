import DocTokens.Proofs.Walk
import Mathlib.Data.List.Nodup

/-! # Numbering a forest

The tree of a forest has the nodes of the forest in its arena, in pre-order. `Forest.number` is that
forest with the numbers and fields its nodes get, and reading the tree gives it back. So every node
but the root stands in one field, which is a field of its parent, and what is below a node has the
numbers that follow its own.
-/

namespace DocTokens

theorem modify_append_of_lt {α : Type} {l : List α} {i : Nat} (h : i < l.length) (more : List α)
    (f : α → α) : (l ++ more).modify i f = l.modify i f ++ more := by
  induction l generalizing i with
  | nil => simp at h
  | cons a l ih =>
    cases i with
    | zero => rfl
    | succ i => simpa using ih (Nat.lt_of_succ_lt_succ h)

theorem modify_append_of_eq {α : Type} {l : List α} {i : Nat} (h : i = l.length) (a : α)
    (f : α → α) : (l ++ [a]).modify i f = l ++ [f a] := by
  subst h
  induction l with
  | nil => rfl
  | cons b l ih => simpa using ih

/-! ## The arena of a forest -/

namespace Forest

/-- The fields that a forest gives to its parent, its first node having the number `base`. -/
def fields (base : Nat) : Forest Shape → List Field
  | nil => []
  | value label v rest => ⟨label.slot, label.key, v⟩ :: rest.fields base
  | node label _ below rest =>
    ⟨label.slot, label.key, .child base⟩ :: rest.fields (base + 1 + below.size)

/-- The forest with its nodes numbered in pre-order from `base` on. -/
def number (parent : NodeId) (base : Nat) : Forest Shape → Forest Node
  | nil => nil
  | value label v rest => value label v (rest.number parent base)
  | node label head below rest =>
    node label ⟨base, head.type, head.span, parent, (below.fields (base + 1)).toArray⟩
      (below.number base (base + 1)) (rest.number parent (base + 1 + below.size))

theorem map_id_heads_number (f : Forest Shape) (parent : NodeId) (base : Nat) :
    (f.number parent base).heads.map Node.id = List.range' base f.size := by
  induction f generalizing parent base with
  | nil => rfl
  | value label v rest ih => exact ih parent base
  | node label head below rest ihb ihr =>
    have hsize : 1 + below.size + rest.size = below.size + rest.size + 1 := by omega
    rw [number, heads, size, List.map_cons, List.map_append, ihb, ihr, List.range'_append_1, hsize,
      List.range'_succ]

theorem length_heads_number (f : Forest Shape) (parent : NodeId) (base : Nat) :
    (f.number parent base).heads.length = f.size := by
  rw [← List.length_map Node.id, map_id_heads_number, List.length_range']

end Forest

/-- Appends fields to a node. -/
def Node.extend (fields : List Field) (n : Node) : Node :=
  { n with fields := n.fields ++ fields.toArray }

theorem Node.extend_nil : Node.extend [] = fun n => n := by
  funext n
  simp [extend]

theorem Node.extend_comp (fs gs : List Field) : extend gs ∘ extend fs = extend (fs ++ gs) := by
  funext n
  simp [extend, Array.append_assoc]

theorem Builder.addField_toList (b : Builder) (p : Nat) (f : Field) :
    (b.addField p f).nodes.toList = b.nodes.toList.modify p (Node.extend [f]) := by
  have hp : ¬ (p : NodeId) < 0 := Int.not_lt.mpr (Int.natCast_nonneg p)
  simp only [addField, modify, hp, if_false, Int.toNat_natCast, Array.toList_modify]
  rfl

namespace Forest

/-- Adding a forest to a builder appends its fields to the parent and its nodes to the arena. -/
theorem addTo_toList (f : Forest Shape) (p : Nat) {b : Builder} (hp : p < b.nodes.toList.length) :
    (f.addTo p b).nodes.toList =
      b.nodes.toList.modify p (Node.extend (f.fields b.nodes.toList.length)) ++
        (f.number p b.nodes.toList.length).heads := by
  induction f generalizing p b with
  | nil =>
    rw [addTo, fields, Node.extend_nil, number, heads, List.append_nil]
    exact (List.modify_id p _).symm
  | value label v rest ih =>
    have hadd := b.addField_toList p ⟨label.slot, label.key, v⟩
    rw [addTo, ih p (by rw [hadd, List.length_modify]; exact hp), hadd, List.length_modify,
      List.modify_modify_eq, Node.extend_comp]
    rfl
  | node label head below rest ihb ihr =>
    have hnext : b.nextId = (b.nodes.toList.length : NodeId) := by simp [Builder.nextId]
    have hstep : ((b.add p head.type head.span).addField p
        ⟨label.slot, label.key, .child b.nodes.toList.length⟩).nodes.toList =
        b.nodes.toList.modify p
            (Node.extend [⟨label.slot, label.key, .child b.nodes.toList.length⟩]) ++
          [⟨b.nodes.toList.length, head.type, head.span, p, #[]⟩] := by
      rw [Builder.addField_toList, Builder.add, Array.toList_push, modify_append_of_lt hp,
        Array.length_toList]
    rw [addTo, hnext]
    generalize (b.add p head.type head.span).addField p _ = b₁ at hstep ⊢
    have hlen : b₁.nodes.toList.length = b.nodes.toList.length + 1 := by simp [hstep]
    have hbelow := ihb b.nodes.toList.length (b := b₁) (by omega)
    rw [hlen, hstep, modify_append_of_eq (by rw [List.length_modify])] at hbelow
    generalize below.addTo _ b₁ = b₂ at hbelow ⊢
    have hlen' : b₂.nodes.toList.length = b.nodes.toList.length + 1 + below.size := by
      simp only [hbelow, List.length_append, List.length_modify, List.length_singleton,
        length_heads_number]
    rw [ihr p (by omega), hlen', hbelow, List.append_assoc,
      modify_append_of_lt (by rw [List.length_modify]; exact hp), List.modify_modify_eq,
      Node.extend_comp]
    simp [fields, number, heads, Node.extend]

theorem numbered_addTo (f : Forest Shape) (parent : NodeId) {b : Builder} (h : Numbered b.nodes) :
    Numbered (f.addTo parent b).nodes := by
  induction f generalizing parent b with
  | nil => exact h
  | value label v rest ih => exact ih parent (Builder.numbered_modify h parent fun _ => rfl)
  | node label head below rest ihBelow ihRest =>
    refine ihRest parent (ihBelow _ (Builder.numbered_modify ?_ parent fun _ => rfl))
    exact Builder.numbered_add h parent head.type head.span

theorem root_addTo (f : Forest Shape) (p : Nat) (b : Builder) : (f.addTo p b).root = b.root := by
  have hadd : ∀ (b : Builder) (field : Field) (p : NodeId), (b.addField p field).root = b.root := by
    intro b field p
    unfold Builder.addField Builder.modify
    split <;> rfl
  induction f generalizing p b with
  | nil => rfl
  | value label v rest ih => rw [addTo, ih, hadd]
  | node label head below rest ihb ihr =>
    have hp : ¬ ((p : NodeId) = NodeId.none ∧ b.root = NodeId.none) := by
      rintro ⟨h, _⟩
      simp [NodeId.none] at h
    rw [addTo, ihr, Builder.nextId, ihb, hadd, Builder.add, if_neg hp]

/-- A forest below a root of its own. -/
def rooted (root : Shape) (below : Forest Shape) : Forest Shape :=
  node ⟨.children, []⟩ root below nil

/-- The root of the tree of a forest. -/
def rootNode (root : Shape) (f : Forest Shape) : Node :=
  ⟨0, root.type, root.span, NodeId.none, (f.fields 1).toArray⟩

theorem heads_number_rooted (root : Shape) (f : Forest Shape) :
    ((f.rooted root).number NodeId.none 0).heads = f.rootNode root :: (f.number 0 1).heads := by
  simp only [rooted, number, heads, List.append_nil]
  rfl

theorem toTree_toList (root : Shape) (f : Forest Shape) :
    (f.toTree root).nodes.toList = ((f.rooted root).number NodeId.none 0).heads := by
  have hadd := f.addTo_toList 0 (b := Builder.empty.add NodeId.none root.type root.span)
    (by simp [Builder.add, Builder.empty])
  have hstart : (Builder.empty.add NodeId.none root.type root.span).nodes.toList =
      [⟨0, root.type, root.span, NodeId.none, #[]⟩] := rfl
  rw [hstart] at hadd
  rw [heads_number_rooted]
  simpa [Node.extend, rootNode, toTree, Builder.build] using hadd

theorem numbered_toTree (root : Shape) (f : Forest Shape) : Numbered (f.toTree root).nodes :=
  numbered_addTo f 0 (Builder.numbered_add Numbered.empty _ _ _)

theorem size_toTree (root : Shape) (f : Forest Shape) : (f.toTree root).size = f.size + 1 := by
  rw [Tree.size, ← Array.length_toList, toTree_toList, heads_number_rooted, List.length_cons,
    length_heads_number]

theorem root_toTree (root : Shape) (f : Forest Shape) : (f.toTree root).root = 0 := by
  have hroot : (f.toTree root).rootId = 0 :=
    f.root_addTo 0 (Builder.empty.add NodeId.none root.type root.span)
  have hne : (f.toTree root).nodes.isEmpty = false := by
    rw [← Array.isEmpty_toList, toTree_toList, heads_number_rooted]
    rfl
  rw [Tree.root, hne, hroot]
  rfl

/-- Node number `base + i` is the `i`-th of the forest. -/
theorem getElem?_heads_number {f : Forest Shape} {parent : NodeId} {base i : Nat} {n : Node}
    (h : (f.number parent base).heads[i]? = some n) : n.id = base + i ∧ i < f.size := by
  have hmap : ((f.number parent base).heads.map Node.id)[i]? = some n.id := by
    rw [List.getElem?_map, h]
    rfl
  rw [map_id_heads_number] at hmap
  obtain ⟨hlt, hid⟩ := List.getElem?_eq_some_iff.mp hmap
  rw [List.getElem_range', Nat.one_mul] at hid
  exact ⟨hid.symm, by simpa using hlt⟩

theorem id_bounds {f : Forest Shape} {parent : NodeId} {base : Nat} {n : Node}
    (h : n ∈ (f.number parent base).heads) : base ≤ n.id ∧ n.id < base + f.size := by
  obtain ⟨i, hi⟩ := List.mem_iff_getElem?.mp h
  obtain ⟨hid, hlt⟩ := getElem?_heads_number hi
  omega

/-- The arena holds the nodes of the forest under their numbers, and nothing else. -/
theorem node?_toTree_iff {root : Shape} {f : Forest Shape} {id : NodeId} {n : Node} :
    (f.toTree root).node? id = some n ↔
      id = n.id ∧ n ∈ ((f.rooted root).number NodeId.none 0).heads := by
  constructor
  · intro h
    have hget := Tree.getElem?_nodes h
    rw [← Array.getElem?_toList, toTree_toList] at hget
    obtain ⟨hid, _⟩ := getElem?_heads_number hget
    refine ⟨?_, List.mem_of_getElem? hget⟩
    rw [hid, Nat.zero_add, Int.toNat_of_nonneg (Tree.nonneg_of_node? h)]
  · rintro ⟨rfl, h⟩
    obtain ⟨i, hi⟩ := List.mem_iff_getElem?.mp h
    obtain ⟨hid, _⟩ := getElem?_heads_number hi
    have hnonneg : ¬ (n.id : NodeId) < 0 := Int.not_lt.mpr (Int.natCast_nonneg n.id)
    rw [Tree.node?, if_neg hnonneg, Int.toNat_natCast, ← Array.getElem?_toList, toTree_toList, hid,
      Nat.zero_add, hi]

theorem node?_toTree_zero (root : Shape) (f : Forest Shape) :
    (f.toTree root).node? 0 = some (f.rootNode root) :=
  node?_toTree_iff.mpr ⟨rfl, by rw [heads_number_rooted]; exact List.mem_cons_self⟩

theorem node?_toTree_of_mem {root : Shape} {f : Forest Shape} {n : Node}
    (h : n ∈ (f.number 0 1).heads) : (f.toTree root).node? n.id = some n :=
  node?_toTree_iff.mpr ⟨rfl, by rw [heads_number_rooted]; exact List.mem_cons_of_mem _ h⟩

theorem exists_node?_toTree {root : Shape} {f : Forest Shape} {id : Int} (hnonneg : 0 ≤ id)
    (hlt : id < (f.toTree root).size) : ∃ n, (f.toTree root).node? id = some n := by
  have hbound : id.toNat < (f.toTree root).nodes.size := by
    simp only [Tree.size] at hlt
    omega
  exact ⟨_, by rw [Tree.node?, if_neg (Int.not_lt.mpr hnonneg), Array.getElem?_eq_getElem hbound]⟩

end Forest

/-! ## Reading the tree of a forest -/

theorem Tree.unfoldTo_child {t : Tree} {seen : Seen} {id : NodeId} {n : Node}
    (h : t.fresh? seen id = some n) (depth : Nat) (label : Label) (fields : List Field) :
    let below := t.unfoldTo depth n.fields.toList (seen.setIfInBounds id.toNat true)
    let rest := t.unfoldTo (depth + 1) fields below.2
    t.unfoldTo (depth + 1) (⟨label.slot, label.key, .child id⟩ :: fields) seen =
      (.node label n below.1 rest.1, rest.2) := by
  simp only [unfoldTo, unfoldFields, h]

namespace Forest

/-- No plain value of the forest is a reference. -/
def Plain {α : Type} : Forest α → Prop
  | nil => True
  | value _ v rest => (∀ id, v ≠ .child id) ∧ rest.Plain
  | node _ _ below rest => below.Plain ∧ rest.Plain

/-- Where a tree holds the nodes of a forest, reading them gives the forest back and marks nothing
else. -/
theorem unfoldTo_number {t : Tree} {f : Forest Shape} (hf : f.Plain) (parent : NodeId) (base : Nat)
    (ht : ∀ n ∈ (f.number parent base).heads, t.node? n.id = some n) {depth : Nat}
    (hd : f.size < depth) {seen : Tree.Seen}
    (hs : ∀ i, base ≤ i → i < base + f.size → seen[i]? = some false) :
    (t.unfoldTo depth (f.fields base) seen).1 = f.number parent base ∧
      ∀ i, i < base ∨ base + f.size ≤ i →
        (t.unfoldTo depth (f.fields base) seen).2[i]? = seen[i]? := by
  induction f generalizing parent base depth seen with
  | nil =>
    cases depth with
    | zero => omega
    | succ depth => exact ⟨rfl, fun _ _ => rfl⟩
  | value label v rest ih =>
    cases depth with
    | zero => omega
    | succ depth =>
      obtain ⟨hread, hmarks⟩ := ih hf.2 parent base ht hd hs
      cases v with
      | child id => exact absurd rfl (hf.1 id)
      | absent => exact ⟨congrArg (value label .absent) hread, hmarks⟩
      | literal text => exact ⟨congrArg (value label (.literal text)) hread, hmarks⟩
  | node label head below rest ihb ihr =>
    cases depth with
    | zero => omega
    | succ depth =>
      rw [size] at hd hs ⊢
      simp only [number, heads, List.mem_cons, List.mem_append] at ht
      have hhead := ht _ (.inl rfl)
      have hfresh := Tree.fresh?_eq_some_iff.mpr
        ⟨hhead, hs base (Nat.le_refl _) (by omega)⟩
      have hmark : ∀ i, base + 1 ≤ i → i < base + 1 + below.size →
          (seen.setIfInBounds base true)[i]? = some false := by
        intro i hle hlt
        exact Tree.mark_eq_false_iff.mpr ⟨by omega, hs i (by omega) (by omega)⟩
      have hdepth : below.size < depth := by omega
      obtain ⟨hbelow, hmarks⟩ :=
        ihb hf.1 base (base + 1) (fun n hn => ht n (.inr (.inl hn))) hdepth hmark
      have hmarked : ∀ i, i < base ∨ base + 1 + below.size ≤ i →
          (t.unfoldTo depth (below.fields (base + 1)) (seen.setIfInBounds base true)).2[i]? =
            seen[i]? := by
        intro i hi
        rw [hmarks i (by omega), Array.getElem?_setIfInBounds_ne (by omega)]
      have hunseen : ∀ i, base + 1 + below.size ≤ i → i < base + 1 + below.size + rest.size →
          (t.unfoldTo depth (below.fields (base + 1)) (seen.setIfInBounds base true)).2[i]? =
            some false := by
        intro i hle hlt
        rw [hmarked i (.inr hle)]
        exact hs i (by omega) (by omega)
      have hdepth' : rest.size < depth + 1 := by omega
      obtain ⟨hrest, hmarks'⟩ := ihr hf.2 parent (base + 1 + below.size)
        (fun n hn => ht n (.inr (.inr hn))) hdepth' hunseen
      rw [fields, Tree.unfoldTo_child hfresh]
      refine ⟨?_, fun i hi => ?_⟩
      · simp only [Int.toNat_natCast, hbelow, hrest, number]
      · simp only [Int.toNat_natCast]
        rw [hmarks' i (by omega), hmarked i (by omega)]

/-- Reading the tree of a forest gives the forest back. -/
theorem unfold_toTree {f : Forest Shape} (hf : f.Plain) (root : Shape) :
    (f.toTree root).unfold = some (f.rootNode root, f.number 0 1) := by
  have hzero := node?_toTree_zero root f
  have hfresh : (f.toTree root).fresh? (f.toTree root).unseen 0 = some (f.rootNode root) :=
    Tree.fresh?_eq_some_iff.mpr ⟨hzero, Tree.unseen_eq_false hzero⟩
  have hseen : ∀ i, 1 ≤ i → i < 1 + f.size →
      ((f.toTree root).unseen.setIfInBounds 0 true)[i]? = some false := by
    intro i hle hlt
    refine Tree.mark_eq_false_iff.mpr ⟨by omega, ?_⟩
    rw [Tree.unseen, size_toTree, Array.getElem?_replicate, if_pos (by omega)]
  have hdepth : f.size < (f.toTree root).size + 1 := by
    rw [size_toTree]
    omega
  obtain ⟨hread, _⟩ := unfoldTo_number hf 0 1 (fun n hn => node?_toTree_of_mem hn) hdepth hseen
  rw [Tree.unfold, root_toTree, hfresh]
  exact congrArg (fun below => some (f.rootNode root, below)) hread

theorem preorder_toTree {f : Forest Shape} (hf : f.Plain) (root : Shape) :
    (f.toTree root).preorder = (f.toTree root).nodes.toList := by
  rw [Tree.preorder, unfold_toTree hf, toTree_toList, heads_number_rooted]

theorem preorderIds_toTree {f : Forest Shape} (hf : f.Plain) (root : Shape) :
    (f.toTree root).preorderIds = (List.range (f.toTree root).size).map Int.ofNat := by
  have hids : (f.toTree root).nodes.toList.map Node.id = List.range (f.toTree root).size := by
    rw [toTree_toList, map_id_heads_number, size_toTree, List.range_eq_range', rooted, size, size,
      Nat.add_zero, Nat.add_comm]
  rw [Tree.preorderIds, preorder_toTree hf, ← hids, List.map_map]
  rfl

/-! ## References -/

theorem fieldIds_fields_value {label : Label} {v : Value} {rest : Forest Shape}
    (h : ∀ id, v ≠ .child id) (base : Nat) :
    Tree.fieldIds ((value label v rest).fields base) = Tree.fieldIds (rest.fields base) := by
  cases v with
  | child id => exact absurd rfl (h id)
  | absent => rfl
  | literal text => rfl

/-- The references of a forest are to its own nodes and strictly increase. -/
theorem fieldIds_fields {f : Forest Shape} (hf : f.Plain) (base : Nat) :
    (∀ c : Int, c ∈ Tree.fieldIds (f.fields base) → base ≤ c ∧ c < (base + f.size : Nat)) ∧
      (Tree.fieldIds (f.fields base)).Pairwise (· < ·) := by
  induction f generalizing base with
  | nil => exact ⟨by simp [fields, Tree.fieldIds], .nil⟩
  | value label v rest ih =>
    rw [fieldIds_fields_value hf.1]
    exact ih hf.2 base
  | node label head below rest _ ihr =>
    obtain ⟨hbounds, hincreasing⟩ := ihr hf.2 (base + 1 + below.size)
    have hids : Tree.fieldIds ((node label head below rest).fields base) =
        (base : Int) :: Tree.fieldIds (rest.fields (base + 1 + below.size)) := rfl
    rw [hids, size]
    refine ⟨?_, List.pairwise_cons.mpr ⟨fun c hc => ?_, hincreasing⟩⟩
    · intro c hc
      rcases List.mem_cons.mp hc with rfl | hc
      · omega
      · have := hbounds c hc
        omega
    · have hle := (hbounds c hc).1
      exact Int.lt_of_lt_of_le (Int.ofNat_lt.mpr (by omega)) hle

/-- The nodes below a node are the references of its fields. -/
theorem childIds_toArray (id : Nat) (type : NodeType) (span : Span) (parent : NodeId)
    (fields : List Field) :
    (Node.mk id type span parent fields.toArray).childIds = Tree.fieldIds fields := rfl

/-- Every node of a forest is referred to once, from outside of the forest or from one of its
nodes. -/
theorem perm_references {f : Forest Shape} (hf : f.Plain) (parent : NodeId) (base : Nat) :
    (Tree.fieldIds (f.fields base) ++ (f.number parent base).heads.flatMap Node.childIds).Perm
      ((List.range' base f.size).map Int.ofNat) := by
  induction f generalizing parent base with
  | nil => exact .nil
  | value label v rest ih =>
    rw [fieldIds_fields_value hf.1]
    exact ih hf.2 parent base
  | node label head below rest ihb ihr =>
    have hb := ihb hf.1 base (base + 1)
    have hr := ihr hf.2 parent (base + 1 + below.size)
    have hsize : 1 + below.size + rest.size = below.size + rest.size + 1 := by omega
    rw [size, hsize, List.range'_succ, ← List.range'_append_1, List.map_cons, List.map_append]
    refine .cons _ (.trans ?_ (hb.append hr))
    simp only [number, heads, List.flatMap_cons, List.flatMap_append, childIds_toArray]
    rw [← List.append_assoc (Tree.fieldIds (below.fields _))]
    exact List.perm_append_comm_assoc _ _ _

/-- A node hangs from the parent of the forest or from an earlier node of it. -/
theorem parent_cases {f : Forest Shape} {parent : NodeId} {base : Nat} {n : Node}
    (h : n ∈ (f.number parent base).heads) :
    (n.parent = parent ∧ (n.id : NodeId) ∈ Tree.fieldIds (f.fields base)) ∨
      ∃ m ∈ (f.number parent base).heads, m.id < n.id ∧ n.parent = m.id ∧
        (n.id : NodeId) ∈ m.childIds := by
  induction f generalizing parent base with
  | nil => cases h
  | value label v rest ih =>
    refine (ih h).imp_left fun ⟨hparent, hmem⟩ => ⟨hparent, ?_⟩
    exact List.mem_filterMap.mpr (by
      obtain ⟨field, hfield, hid⟩ := List.mem_filterMap.mp hmem
      exact ⟨field, List.mem_cons_of_mem _ hfield, hid⟩)
  | node label head below rest ihb ihr =>
    simp only [number, heads, List.mem_cons, List.mem_append] at h ⊢
    rcases h with rfl | h | h
    · exact .inl ⟨rfl, List.mem_cons_self⟩
    · refine .inr ?_
      rcases ihb h with ⟨hparent, hmem⟩ | ⟨m, hm, hlt, hparent, hmem⟩
      · exact ⟨_, .inl rfl, (id_bounds h).1, hparent, hmem⟩
      · exact ⟨m, .inr (.inl hm), hlt, hparent, hmem⟩
    · rcases ihr h with ⟨hparent, hmem⟩ | ⟨m, hm, hlt, hparent, hmem⟩
      · exact .inl ⟨hparent, List.mem_cons_of_mem _ hmem⟩
      · exact .inr ⟨m, .inr (.inr hm), hlt, hparent, hmem⟩

theorem le_parent {f : Forest Shape} {parent base : Nat} {n : Node}
    (h : n ∈ (f.number parent base).heads) (hle : parent ≤ base) : (parent : Int) ≤ n.parent := by
  rcases parent_cases h with ⟨hparent, _⟩ | ⟨m, hm, _, hparent, _⟩
  · exact Int.le_of_eq hparent.symm
  · rw [hparent]
    exact Int.ofNat_le.mpr (Nat.le_trans hle (id_bounds hm).1)

/-- A node refers to later nodes of the forest, in increasing order. -/
theorem childIds_bounds {f : Forest Shape} (hf : f.Plain) {parent : NodeId} {base : Nat} {n : Node}
    (h : n ∈ (f.number parent base).heads) :
    (∀ c : Int, c ∈ n.childIds → n.id < c ∧ c < (base + f.size : Nat)) ∧
      n.childIds.Pairwise (· < ·) := by
  induction f generalizing parent base with
  | nil => cases h
  | value label v rest ih => exact ih hf.2 h
  | node label head below rest ihb ihr =>
    simp only [number, heads, List.mem_cons, List.mem_append] at h
    rw [size]
    rcases h with rfl | h | h
    · obtain ⟨hbounds, hincreasing⟩ := fieldIds_fields hf.1 (base + 1)
      refine ⟨fun c hc => ?_, hincreasing⟩
      have := hbounds c hc
      simp only
      omega
    · obtain ⟨hbounds, hincreasing⟩ := ihb hf.1 h
      refine ⟨fun c hc => ?_, hincreasing⟩
      have := hbounds c hc
      omega
    · obtain ⟨hbounds, hincreasing⟩ := ihr hf.2 h
      refine ⟨fun c hc => ?_, hincreasing⟩
      have := hbounds c hc
      omega

/-- A node and what is below it have the numbers up to some end: references from there stay there,
and so do parents. -/
theorem exists_range {f : Forest Shape} (hf : f.Plain) {parent : NodeId} {base : Nat} {n : Node}
    (h : n ∈ (f.number parent base).heads) :
    ∃ stop, n.id < stop ∧ stop ≤ base + f.size ∧ ∀ m ∈ (f.number parent base).heads,
      n.id ≤ m.id → m.id < stop → (∀ c : Int, c ∈ m.childIds → n.id ≤ c ∧ c < stop) ∧
        (n.id < m.id → (n.id : Int) ≤ m.parent) := by
  induction f generalizing parent base with
  | nil => cases h
  | value label v rest ih => exact ih hf.2 h
  | node label head below rest ihb ihr =>
    simp only [number, heads, List.mem_cons, List.mem_append] at h ⊢
    rw [size]
    rcases h with rfl | h | h
    · refine ⟨base + 1 + below.size, by simp only; omega, by omega, ?_⟩
      rintro m (rfl | hm | hm) hle hlt
      · refine ⟨fun c hc => ?_, fun hlt => absurd hlt (Nat.lt_irrefl _)⟩
        have := (fieldIds_fields hf.1 (base + 1)).1 c hc
        simp only
        omega
      · refine ⟨fun c hc => ?_, fun _ => le_parent hm (Nat.le_succ base)⟩
        have := (childIds_bounds hf.1 hm).1 c hc
        omega
      · have := (id_bounds hm).1
        omega
    · obtain ⟨stop, hlt, hle, hrange⟩ := ihb hf.1 h
      refine ⟨stop, hlt, by omega, ?_⟩
      have hn := id_bounds h
      rintro m (rfl | hm | hm) hge hstop
      · simp only at hge
        omega
      · exact hrange m hm hge hstop
      · have := (id_bounds hm).1
        omega
    · obtain ⟨stop, hlt, hle, hrange⟩ := ihr hf.2 h
      refine ⟨stop, hlt, by omega, ?_⟩
      have hn := id_bounds h
      rintro m (rfl | hm | hm) hge hstop
      · simp only at hge
        omega
      · have := (id_bounds hm).2
        omega
      · exact hrange m hm hge hstop

end Forest

/-! ## Trees numbered in pre-order -/

namespace Tree

/-- The number `j` is that of node `i` or of a node to which references lead from it. -/
inductive InSubtree (t : Tree) (i : NodeId) : NodeId → Prop where
  | self : InSubtree t i i
  | child {p c : NodeId} {n : Node} : InSubtree t i p → t.node? p = some n → c ∈ n.childIds →
      InSubtree t i c

/-- A range of numbers is the subtree of its first, if references from there stay there and every
other number of the range is that of a node whose parent stands in the range before it and refers to
it. -/
theorem inSubtree_iff_range {t : Tree} {i stop : Int} (hlt : i < stop)
    (hclosed : ∀ (p : Int) n, t.node? p = some n → i ≤ p → p < stop →
      ∀ c : Int, c ∈ n.childIds → i ≤ c ∧ c < stop)
    (hparent : ∀ c : Int, i < c → c < stop → ∃ p : Int, i ≤ p ∧ p < c ∧ ∃ n, t.node? p = some n ∧
      c ∈ n.childIds) (j : Int) :
    t.InSubtree i j ↔ i ≤ j ∧ j < stop := by
  constructor
  · intro h
    induction h with
    | self => exact ⟨Int.le_refl i, hlt⟩
    | child _ hn hc ih => exact hclosed _ _ hn ih.1 ih.2 _ hc
  · rintro ⟨hle, hj⟩
    -- parents stand before their children, so this is an induction on the distance from `i`
    obtain ⟨k, hk⟩ := Int.le.dest hle
    induction k using Nat.strongRecOn generalizing j with
    | ind k ih =>
      rcases Int.lt_or_eq_of_le hle with hlt' | rfl
      · obtain ⟨p, hip, hpj, n, hn, hc⟩ := hparent j hlt' hj
        obtain ⟨m, hm⟩ := Int.le.dest hip
        exact .child (ih m (by omega) p hip (by omega) hm) hn hc
      · exact .self

/-- The number of fields in the whole arena that refer to a node. -/
def referenceCount (t : Tree) (id : NodeId) : Nat :=
  (t.nodes.toList.flatMap fun n => n.fields.toList).countP fun f => f.value = .child id

theorem referenceCount_eq (t : Tree) (id : NodeId) :
    t.referenceCount id = (t.nodes.toList.flatMap Node.childIds).count id := by
  rw [referenceCount, List.countP_flatMap, List.count_flatMap]
  congr 1
  refine List.map_congr_left fun n _ => ?_
  simp only [Function.comp_apply, Node.childIds, List.count_filterMap]
  refine List.countP_congr fun f _ => ?_
  cases f.value <;> simp

/-- The arena is a tree whose nodes are numbered in pre-order: the root is node `0`, every other
node stands in one field of the arena, which is a field of its parent, and a subtree has the numbers
that follow that of its top. -/
structure InPreorder (t : Tree) : Prop where
  root : t.root = 0
  parent : ∀ id n, t.node? id = some n → 0 < id → 0 ≤ n.parent ∧ n.parent < id
  held_once : ∀ id n, t.node? id = some n → 0 < id → t.referenceCount id = 1
  held_by_parent : ∀ id n, t.node? id = some n → 0 < id →
    ∃ p, t.node? n.parent = some p ∧ id ∈ p.childIds
  references : ∀ id n, t.node? id = some n → ∀ c ∈ n.childIds, ∃ m, t.node? c = some m
  increasing : ∀ id n, t.node? id = some n → n.childIds.Pairwise (· < ·)
  subtree : ∀ id n, t.node? id = some n →
    ∃ stop, ∀ j, t.InSubtree id j ↔ id ≤ j ∧ j < stop

end Tree

namespace Forest

variable {f : Forest Shape} {root : Shape}

theorem referenceCount_toTree (hf : f.Plain) {id : Nat} (hpos : 0 < id) (hlt : id < 1 + f.size) :
    (f.toTree root).referenceCount id = 1 := by
  have hflat : (f.toTree root).nodes.toList.flatMap Node.childIds =
      Tree.fieldIds (f.fields 1) ++ (f.number 0 1).heads.flatMap Node.childIds := by
    rw [toTree_toList, heads_number_rooted, List.flatMap_cons]
    rfl
  have hnodup : ((List.range' 1 f.size).map Int.ofNat).Nodup :=
    List.Nodup.map (fun a b h => Int.ofNat.inj h) List.nodup_range'
  rw [Tree.referenceCount_eq, hflat, (perm_references hf 0 1).count_eq]
  refine List.count_eq_one_of_mem hnodup (List.mem_map.mpr ⟨id, ?_, rfl⟩)
  exact List.mem_range'_1.mpr ⟨hpos, hlt⟩

theorem inPreorder_toTree (hf : f.Plain) (root : Shape) : (f.toTree root).InPreorder := by
  have hplain : (f.rooted root).Plain := ⟨hf, trivial⟩
  have hsize : (f.toTree root).size = 0 + (f.rooted root).size := by
    rw [size_toTree, rooted, size, size]
    omega
  -- a node that is not the root hangs from an earlier one
  have hparent : ∀ id n, (f.toTree root).node? id = some n → 0 < id → ∃ m : Node,
      m ∈ ((f.rooted root).number NodeId.none 0).heads ∧ m.id < n.id ∧ n.parent = m.id ∧
        (n.id : NodeId) ∈ m.childIds := by
    intro id n hn hpos
    obtain ⟨rfl, hmem⟩ := node?_toTree_iff.mp hn
    rcases parent_cases hmem with ⟨_, hid⟩ | hex
    · exact absurd (List.mem_singleton.mp hid) (Int.ne_of_gt hpos)
    · exact hex
  refine ⟨root_toTree root f, ?_, ?_, ?_, ?_, ?_, ?_⟩
  · intro id n hn hpos
    obtain ⟨m, _, hlt, heq, _⟩ := hparent id n hn hpos
    obtain ⟨rfl, _⟩ := node?_toTree_iff.mp hn
    rw [heq]
    exact ⟨Int.natCast_nonneg m.id, Int.ofNat_lt.mpr hlt⟩
  · intro id n hn hpos
    obtain ⟨rfl, hmem⟩ := node?_toTree_iff.mp hn
    have hlt := (id_bounds hmem).2
    refine referenceCount_toTree hf (Int.ofNat_lt.mp hpos) ?_
    rw [rooted, size, size] at hlt
    omega
  · intro id n hn hpos
    obtain ⟨m, hm, _, heq, hid⟩ := hparent id n hn hpos
    obtain ⟨rfl, _⟩ := node?_toTree_iff.mp hn
    exact ⟨m, node?_toTree_iff.mpr ⟨heq, hm⟩, hid⟩
  · intro id n hn c hc
    obtain ⟨rfl, hmem⟩ := node?_toTree_iff.mp hn
    obtain ⟨hlt, hstop⟩ := (childIds_bounds hplain hmem).1 c hc
    exact exists_node?_toTree (by omega) (by omega)
  · intro id n hn
    exact (childIds_bounds hplain (node?_toTree_iff.mp hn).2).2
  · intro id n hn
    obtain ⟨rfl, hmem⟩ := node?_toTree_iff.mp hn
    obtain ⟨stop, hlt, hle, hrange⟩ := exists_range hplain hmem
    refine ⟨(stop : Int), Tree.inSubtree_iff_range (Int.ofNat_lt.mpr hlt) ?_ ?_⟩
    · intro p m hm hge hstop
      obtain ⟨rfl, hmem'⟩ := node?_toTree_iff.mp hm
      exact (hrange m hmem' (Int.ofNat_le.mp hge) (Int.ofNat_lt.mp hstop)).1
    · intro c hgt hstop
      have hpos : 0 < c := Int.lt_of_le_of_lt (Int.natCast_nonneg n.id) hgt
      have hlast : c < (f.toTree root).size := by omega
      obtain ⟨m, hm⟩ := exists_node?_toTree (Int.le_of_lt hpos) hlast
      obtain ⟨p, hp, hlt', heq, hid⟩ := hparent c m hm hpos
      obtain ⟨rfl, hmem'⟩ := node?_toTree_iff.mp hm
      have hge := (hrange m hmem' (by omega) (Int.ofNat_lt.mp hstop)).2 (Int.ofNat_lt.mp hgt)
      exact ⟨p.id, heq ▸ hge, Int.ofNat_lt.mpr hlt', p, node?_toTree_iff.mpr ⟨rfl, hp⟩, hid⟩

end Forest

end DocTokens
