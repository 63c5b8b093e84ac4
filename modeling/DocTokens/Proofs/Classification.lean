import DocTokens.Category

/-! # Classification is local

The category of a node depends on its own type, on the type of its recorded parent and on the slots
in which that parent refers to it. Nothing else in the tree has a say.
-/

namespace DocTokens

namespace Category

/-- The registry has the category for nodes of the given type. -/
def IsOf (c : Category) (type : NodeType) : Prop :=
  ∃ info, c.info? = some info ∧ info.origin = .structural type

/-- The category comes from the type of a node and not from a slot. -/
def IsStructural (c : Category) : Prop := ∃ type, c.IsOf type

/-- Some category is for nodes of the type. -/
def Registered (type : NodeType) : Prop := ∃ c : Category, c.IsOf type

/-- No type is registered twice. -/
theorem pairwise_registry :
    registry.Pairwise fun a b => a.origin = .contextual ∨ a.origin ≠ b.origin := by
  decide

theorem contextual_of_mem_slotRules {rule : SlotRule} (h : rule ∈ slotRules) :
    rule.category.info?.map Info.origin = some .contextual := by
  revert rule
  decide

variable {c : Category} {type : NodeType}

theorem IsOf.unique {c' : Category} (h : c.IsOf type) (h' : c'.IsOf type) : c = c' := by
  obtain ⟨info, hinfo, horigin⟩ := h
  obtain ⟨info', hinfo', horigin'⟩ := h'
  obtain ⟨hi, rfl⟩ := List.getElem?_eq_some_iff.mp hinfo
  obtain ⟨hj, rfl⟩ := List.getElem?_eq_some_iff.mp hinfo'
  have hapart := List.pairwise_iff_getElem.mp pairwise_registry
  rcases Nat.lt_trichotomy c.id c'.id with hlt | heq | hlt
  · rcases hapart _ _ hi hj hlt with hc | hne
    · rw [horigin] at hc
      cases hc
    · exact absurd (horigin.trans horigin'.symm) hne
  · cases c
    cases c'
    exact congrArg _ heq
  · rcases hapart _ _ hj hi hlt with hc | hne
    · rw [horigin'] at hc
      cases hc
    · exact absurd (horigin'.trans horigin.symm) hne

theorem isOf_of_ofType? (h : ofType? type = some c) : c.IsOf type := by
  obtain ⟨i, hi, rfl⟩ := Option.map_eq_some_iff.mp h
  obtain ⟨hlt, horigin, -⟩ := List.findIdx?_eq_some_iff_getElem.mp hi
  exact ⟨_, List.getElem?_eq_getElem hlt, eq_of_beq horigin⟩

theorem registered_iff : Registered type ↔ ∃ c, ofType? type = some c := by
  constructor
  · rintro ⟨c, info, hinfo, horigin⟩
    cases h : ofType? type with
    | some c' => exact ⟨c', rfl⟩
    | none =>
      have hnone := List.findIdx?_eq_none_iff.mp (Option.map_eq_none_iff.mp h)
      have hne := hnone info (List.mem_of_getElem? hinfo)
      rw [horigin, beq_self_eq_true] at hne
      cases hne
  · rintro ⟨c, hc⟩
    exact ⟨c, isOf_of_ofType? hc⟩

theorem ofType?_eq_some_iff : ofType? type = some c ↔ c.IsOf type := by
  constructor
  · exact isOf_of_ofType?
  · intro h
    obtain ⟨c', hc'⟩ := registered_iff.mp ⟨c, h⟩
    rw [hc', h.unique (isOf_of_ofType? hc')]

theorem ofType?_eq_none_iff : ofType? type = none ↔ ¬ Registered type := by
  rw [registered_iff, Option.eq_none_iff_forall_ne_some, not_exists]

end Category

namespace Tree

variable {t : Tree} {id : NodeId} {n parent : Node} {slot : Slot} {c : Category}

def typeOf? (t : Tree) (id : NodeId) : Option NodeType := (t.node? id).map Node.type

/-- The node that a node has recorded as its parent. -/
def parentOf? (t : Tree) (id : NodeId) : Option Node := (t.node? id).bind fun n => t.node? n.parent

def parentTypeOf? (t : Tree) (id : NodeId) : Option NodeType := (t.parentOf? id).map Node.type

/-- The recorded parent of a node refers to it in the slot. -/
def HeldIn (t : Tree) (id : NodeId) (slot : Slot) : Prop :=
  ∃ parent, t.parentOf? id = some parent ∧ ∃ f ∈ parent.fields, f.slot = slot ∧ f.value = .child id

/-- A slot rule applies to a node. -/
def Applies (t : Tree) (id : NodeId) (rule : Category.SlotRule) : Prop :=
  (∀ type, rule.parentType = some type → t.parentTypeOf? id = some type) ∧ t.HeldIn id rule.slot

theorem parentOf?_eq (h : t.node? id = some n) : t.parentOf? id = t.node? n.parent := by
  rw [parentOf?, h, Option.bind_some]

theorem ne_none_of_node? (h : t.node? id = some n) : id ≠ NodeId.none := by
  rintro rfl
  cases h

theorem childId_eq_iff {v : Value} (h : id ≠ NodeId.none) : v.childId = id ↔ v = .child id := by
  cases v with
  | child id' => exact ⟨congrArg _, Value.child.inj⟩
  | absent => exact ⟨fun hnone => absurd hnone.symm h, nofun⟩
  | literal text => exact ⟨fun hnone => absurd hnone.symm h, nofun⟩

/-- Literal fields and fields without a value do not count. -/
theorem references_iff {holder : NodeId} : t.references holder slot id = true ↔ id ≠ NodeId.none ∧
    ∃ m, t.node? holder = some m ∧ ∃ f ∈ m.fields, f.slot = slot ∧ f.value = .child id := by
  cases hm : t.node? holder with
  | none => simp [references, hm]
  | some m =>
    have hfields : id ≠ NodeId.none →
        ((m.fields.any fun f => f.slot == slot && f.value.childId == id) = true ↔
          ∃ f ∈ m.fields, f.slot = slot ∧ f.value = .child id) := by
      intro hid
      simp only [Array.any_eq_true', Bool.and_eq_true, beq_iff_eq, childId_eq_iff hid]
    simp only [references, hm, Bool.and_eq_true, bne_iff_ne, Option.some.injEq, exists_eq_left']
    exact and_congr_right hfields

theorem references_parent_iff (hn : t.node? id = some n) :
    t.references n.parent slot id = true ↔ t.HeldIn id slot := by
  rw [references_iff, HeldIn, parentOf?_eq hn]
  exact and_iff_right (ne_none_of_node? hn)

theorem applies_iff (hn : t.node? id = some n) (hp : t.node? n.parent = some parent)
    (rule : Category.SlotRule) :
    ((rule.parentType.isNone || rule.parentType == some parent.type) &&
      t.references n.parent rule.slot id) = true ↔ t.Applies id rule := by
  have htype : t.parentTypeOf? id = some parent.type := by
    rw [parentTypeOf?, parentOf?_eq hn, hp, Option.map_some]
  rw [Bool.and_eq_true, references_parent_iff hn, Applies, htype]
  cases rule.parentType with
  | none => simp
  | some type =>
    have htypes : (∀ type', some type = some type' → some parent.type = some type') ↔
        type = parent.type := by
      constructor
      · intro h
        exact (Option.some.inj (h type rfl)).symm
      · rintro rfl type' h
        exact h
    rw [htypes, Option.isNone_some, Bool.false_or, beq_iff_eq, Option.some.injEq]

theorem exists_of_applies {rule : Category.SlotRule} (h : t.Applies id rule) :
    ∃ n parent, t.node? id = some n ∧ t.node? n.parent = some parent := by
  obtain ⟨-, parent, hparent, -⟩ := h
  obtain ⟨n, hn, hp⟩ := Option.bind_eq_some_iff.mp hparent
  exact ⟨n, parent, hn, hp⟩

/-- The category of the type comes first. -/
theorem classify_of_isOf {type : NodeType} (htype : t.typeOf? id = some type) (hc : c.IsOf type) :
    t.classify id = some c := by
  obtain ⟨n, hn, rfl⟩ := Option.map_eq_some_iff.mp htype
  simp only [classify, hn, Category.ofType?_eq_some_iff.mpr hc]

/-- Without it the first rule that applies decides. -/
theorem classify_eq_some_iff_rule
    (h : ∀ type, t.typeOf? id = some type → ¬ Category.Registered type) :
    t.classify id = some c ↔ ∃ (i : Nat) (rule : Category.SlotRule),
      Category.slotRules[i]? = some rule ∧ t.Applies id rule ∧ rule.category = c ∧
      ∀ (j : Nat) (earlier : Category.SlotRule), j < i →
        Category.slotRules[j]? = some earlier → ¬ t.Applies id earlier := by
  have hown : ∀ {n}, t.node? id = some n → Category.ofType? n.type = none := by
    intro n hn
    exact Category.ofType?_eq_none_iff.mpr (h n.type (by rw [typeOf?, hn, Option.map_some]))
  by_cases hplace : ∃ n parent, t.node? id = some n ∧ t.node? n.parent = some parent
  · obtain ⟨n, parent, hn, hp⟩ := hplace
    simp only [classify, hn, hown hn, hp, Option.map_eq_some_iff, List.find?_eq_some_iff_getElem]
    constructor
    · rintro ⟨rule, ⟨happlies, i, hi, rfl, hearlier⟩, rfl⟩
      refine ⟨i, _, List.getElem?_eq_getElem hi, (applies_iff hn hp _).mp happlies, rfl, ?_⟩
      intro j earlier hj hget happ
      obtain ⟨hj', rfl⟩ := List.getElem?_eq_some_iff.mp hget
      have hnot := hearlier j hj
      rw [(applies_iff hn hp _).mpr happ] at hnot
      cases hnot
    · rintro ⟨i, rule, hget, happlies, rfl, hearlier⟩
      obtain ⟨hi, rfl⟩ := List.getElem?_eq_some_iff.mp hget
      refine ⟨_, ⟨(applies_iff hn hp _).mpr happlies, i, hi, rfl, ?_⟩, rfl⟩
      intro j hj
      have hnot := hearlier j _ hj (List.getElem?_eq_getElem (Nat.lt_trans hj hi))
      rw [Bool.not_eq_true']
      exact Bool.eq_false_iff.mpr (mt (applies_iff hn hp _).mp hnot)
  · have hmissing : t.classify id = none := by
      cases hn : t.node? id with
      | none => simp only [classify, hn]
      | some n =>
        cases hp : t.node? n.parent with
        | none => simp only [classify, hn, hown hn, hp]
        | some parent => exact absurd ⟨n, parent, hn, hp⟩ hplace
    rw [hmissing]
    constructor
    · rintro ⟨⟩
    · rintro ⟨i, rule, -, happlies, -, -⟩
      exact absurd (exists_of_applies happlies) hplace

/-- Slots give contextual categories only. -/
theorem isOf_of_classify (h : t.classify id = some c) (hc : c.IsStructural) :
    ∃ type, t.typeOf? id = some type ∧ c.IsOf type := by
  by_cases hreg : ∃ type, t.typeOf? id = some type ∧ Category.Registered type
  · obtain ⟨type, htype, c', hc'⟩ := hreg
    obtain rfl : c' = c := Option.some.inj ((classify_of_isOf htype hc').symm.trans h)
    exact ⟨type, htype, hc'⟩
  · have hnot : ∀ type, t.typeOf? id = some type → ¬ Category.Registered type :=
      fun type htype hr => hreg ⟨type, htype, hr⟩
    obtain ⟨i, rule, hget, -, rfl, -⟩ := (classify_eq_some_iff_rule hnot).mp h
    obtain ⟨type, info, hinfo, horigin⟩ := hc
    have hcontext := Category.contextual_of_mem_slotRules (List.mem_of_getElem? hget)
    rw [hinfo, Option.map_some, horigin] at hcontext
    cases hcontext

theorem applies_congr {t' : Tree} {id' : NodeId} {rule : Category.SlotRule}
    (hparent : t.parentTypeOf? id = t'.parentTypeOf? id')
    (hslots : ∀ slot, t.HeldIn id slot ↔ t'.HeldIn id' slot) :
    t.Applies id rule ↔ t'.Applies id' rule := by
  unfold Applies
  rw [hparent, hslots]

/-- A node has the category of its type, if that is registered, and otherwise that of the first rule
that applies. Two nodes that agree in their type, in the type of their parents and in the slots of
their parents that hold them have the same category, wherever they are. -/
theorem classify_local (t : Tree) (id : NodeId) :
    (∀ c, t.classify id = some c ∧ c.IsStructural ↔
      ∃ type, t.typeOf? id = some type ∧ c.IsOf type) ∧
    ((∃ c, t.classify id = some c ∧ c.IsStructural) ↔
      ∃ type, t.typeOf? id = some type ∧ Category.Registered type) ∧
    ((∀ type, t.typeOf? id = some type → ¬ Category.Registered type) → ∀ c,
      t.classify id = some c ↔ ∃ (i : Nat) (rule : Category.SlotRule),
        Category.slotRules[i]? = some rule ∧ t.Applies id rule ∧ rule.category = c ∧
        ∀ (j : Nat) (earlier : Category.SlotRule), j < i →
          Category.slotRules[j]? = some earlier → ¬ t.Applies id earlier) ∧
    ∀ (t' : Tree) (id' : NodeId), t.typeOf? id = t'.typeOf? id' →
      t.parentTypeOf? id = t'.parentTypeOf? id' →
      (∀ slot, t.HeldIn id slot ↔ t'.HeldIn id' slot) → t.classify id = t'.classify id' := by
  have hstructural : ∀ c, t.classify id = some c ∧ c.IsStructural ↔
      ∃ type, t.typeOf? id = some type ∧ c.IsOf type := by
    intro c
    constructor
    · rintro ⟨h, hc⟩
      exact isOf_of_classify h hc
    · rintro ⟨type, htype, hc⟩
      exact ⟨classify_of_isOf htype hc, type, hc⟩
  refine ⟨hstructural, ?_, fun h c => classify_eq_some_iff_rule h, ?_⟩
  · simp only [hstructural, Category.Registered]
    constructor
    · rintro ⟨c, type, htype, hc⟩
      exact ⟨type, htype, c, hc⟩
    · rintro ⟨type, htype, c, hc⟩
      exact ⟨c, type, htype, hc⟩
  · intro t' id' htype hparent hslots
    by_cases hreg : ∃ type, t.typeOf? id = some type ∧ Category.Registered type
    · obtain ⟨type, hown, c, hc⟩ := hreg
      rw [classify_of_isOf hown hc, classify_of_isOf (htype ▸ hown) hc]
    · have hnot : ∀ type, t.typeOf? id = some type → ¬ Category.Registered type :=
        fun type hown hr => hreg ⟨type, hown, hr⟩
      ext c
      rw [classify_eq_some_iff_rule hnot, classify_eq_some_iff_rule (htype ▸ hnot)]
      simp only [applies_congr hparent hslots]

end Tree

end DocTokens
