import DocTokens.Proofs.Markdown.Structure
import DocTokens.Proofs.Markdown.Targets

/-! # Counterparts

The nodes of a document with a place in the source and the nodes of its tree that are not made up
stand in the same order, and each of the second is what its counterpart is converted to. Both are
listed from the leaves up: in the order in which conversion is done with them and reports on them.
-/

namespace DocTokens

/-! ## Branches of a forest -/

namespace Forest

/-- The nodes that are not made up, each with what is below it, from the leaves up. -/
def branches {α : Type} (type : α → NodeType) : NodeType → Forest α → List (α × Forest α)
  | _, nil => []
  | parent, value _ _ rest => rest.branches type parent
  | parent, node label head below rest =>
    if isSynthesized parent label.slot (type head) then rest.branches type parent
    else below.branches type (type head) ++ (head, below) :: rest.branches type parent

variable {f : Forest Shape} {parent : NodeType}

theorem branches_append (parent : NodeType) (f g : Forest Shape) :
    (f ++ g).branches Shape.type parent =
      f.branches Shape.type parent ++ g.branches Shape.type parent := by
  induction f with
  | nil => rfl
  | value label v rest ih => exact ih
  | node label head below rest _ ih =>
    change (node label head below (rest ++ g)).branches Shape.type parent = _
    rw [branches, branches, ih]
    split
    · rfl
    · rw [List.append_assoc, List.cons_append]

theorem Made.branches_eq (h : f.Made parent) : f.branches Shape.type parent = [] := by
  induction f with
  | nil => rfl
  | value label v rest ih => exact ih h.2
  | node label head below rest _ ih =>
    rw [branches, if_pos h.1]
    exact ih h.2.2

/-- The branch with the numbers and fields it gets in a tree. -/
def Numbers (b : Shape × Forest Shape) (c : Node × Forest Node) : Prop :=
  ∃ (parent : NodeId) (id : Nat),
    c = (⟨id, b.1.type, b.1.span, parent, (b.2.fields (id + 1)).toArray⟩, b.2.number id (id + 1))

theorem forall₂_branches_number (f : Forest Shape) (type : NodeType) (parent : NodeId)
    (base : Nat) :
    List.Forall₂ Numbers (f.branches Shape.type type)
      ((f.number parent base).branches Node.type type) := by
  induction f generalizing type parent base with
  | nil => exact .nil
  | value label v rest ih => exact ih type parent base
  | node label head below rest ihb ihr =>
    rw [number, branches, branches]
    split
    · exact ihr type parent _
    · exact List.rel_append (ihb head.type base _) (.cons ⟨parent, base, rfl⟩ (ihr type parent _))

theorem mem_heads_of_mem_branches {F : Forest Node} {type : NodeType} {c : Node × Forest Node}
    (h : c ∈ F.branches Node.type type) : c.1 ∈ F.heads ∧ ∀ m ∈ c.2.heads, m ∈ F.heads := by
  induction F generalizing type with
  | nil => cases h
  | value label v rest ih => exact ih h
  | node label head below rest ihb ihr =>
    have hrest : c ∈ rest.branches Node.type type →
        c.1 ∈ (node label head below rest).heads ∧
          ∀ m ∈ c.2.heads, m ∈ (node label head below rest).heads := by
      intro h
      obtain ⟨hhead, hbelow⟩ := ihr h
      simp only [heads, List.mem_cons, List.mem_append]
      exact ⟨.inr (.inr hhead), fun m hm => .inr (.inr (hbelow m hm))⟩
    rw [branches] at h
    split at h
    · exact hrest h
    · rcases List.mem_append.mp h with h | h
      · obtain ⟨hhead, hbelow⟩ := ihb h
        simp only [heads, List.mem_cons, List.mem_append]
        exact ⟨.inr (.inl hhead), fun m hm => .inr (.inl (hbelow m hm))⟩
      · rcases List.mem_cons.mp h with rfl | h
        · exact ⟨List.mem_cons_self,
            fun m hm => List.mem_cons_of_mem _ (List.mem_append_left _ hm)⟩
        · exact hrest h

end Forest

/-- The nodes of a tree that are not made up, each with what is below it, from the leaves up. -/
def Tree.branches (t : Tree) : List (Node × Forest Node) :=
  match t.unfold with
  | none => []
  | some (root, below) => below.branches Node.type root.type

/-- The tree holds the branch, numbered, with all the nodes of it. -/
def Tree.Holds (t : Tree) (b : Shape × Forest Shape) (c : Node × Forest Node) : Prop :=
  Forest.Numbers b c ∧ t.node? c.1.id = some c.1 ∧ ∀ m ∈ c.2.heads, t.node? m.id = some m

theorem Tree.Holds.type_eq {t : Tree} {b : Shape × Forest Shape} {c : Node × Forest Node}
    (h : t.Holds b c) : b.1.type = c.1.type := by
  obtain ⟨⟨parent, id, rfl⟩, -⟩ := h
  rfl

theorem Tree.Holds.span_eq {t : Tree} {b : Shape × Forest Shape} {c : Node × Forest Node}
    (h : t.Holds b c) : b.1.span = c.1.span := by
  obtain ⟨⟨parent, id, rfl⟩, -⟩ := h
  rfl

/-- What a branch has in a slot is stored in the fields of its node. -/
theorem Tree.Holds.stores {t : Tree} {b : Shape × Forest Shape} {c : Node × Forest Node}
    (h : t.Holds b c) (slot : Slot) :
    List.Forall₂ t.Stores (b.2.entriesIn slot) (c.1.fieldsIn slot) := by
  obtain ⟨⟨parent, id, rfl⟩, -, hbelow⟩ := h
  exact Tree.stores_entriesIn slot b.2 _ _ hbelow

/-- The node has one entry in the slot, a text node over the segment. -/
def Tree.TextIn (t : Tree) (slot : Slot) (n : Node) (s : Segment) : Prop :=
  ∃ f, n.fieldsIn slot = [f] ∧ t.Stores (.inl ⟨.text, s.toSpan⟩) f

theorem Tree.TextIn.unique {t : Tree} {slot : Slot} {n : Node} {s s' : Segment}
    (h : t.TextIn slot n s) (h' : t.TextIn slot n s') : s = s' := by
  obtain ⟨f, hfields, m, hvalue, hm, -, hspan⟩ := h
  obtain ⟨f', hfields', m', hvalue', hm', -, hspan'⟩ := h'
  obtain rfl : f = f' := by simpa using hfields.symm.trans hfields'
  rw [hvalue] at hvalue'
  obtain hid : (m.id : NodeId) = m'.id := by simpa using hvalue'
  rw [hid, hm'] at hm
  obtain rfl := Option.some.inj hm
  rw [hspan, Segment.toSpan, Segment.toSpan, Span.mk.injEq, Int.natCast_inj, Int.natCast_inj]
    at hspan'
  cases s
  cases s'
  simpa using hspan'

section OneEntry

variable {t : Tree} {b : Shape × Forest Shape} {c : Node × Forest Node} {slot : Slot}
  {s s' : Segment}

theorem Tree.Holds.exists_field {e : Shape ⊕ Value} (h : t.Holds b c)
    (he : b.2.entriesIn slot = [e]) : ∃ f, c.1.fieldsIn slot = [f] ∧ t.Stores e f := by
  have hstores := h.stores slot
  rw [he] at hstores
  obtain ⟨f, rest, hf, hrest, hfields⟩ := List.forall₂_cons_left_iff.mp hstores
  obtain rfl := List.forall₂_nil_left_iff.mp hrest
  exact ⟨f, hfields, hf⟩

/-- A branch with one text in a slot keeps it in a tree, and no other. -/
theorem Tree.Holds.textIn_iff (h : t.Holds b c)
    (hs : b.2.entriesIn slot = [.inl ⟨.text, s.toSpan⟩]) : t.TextIn slot c.1 s' ↔ s' = s := by
  have htext : t.TextIn slot c.1 s := h.exists_field hs
  exact ⟨fun h' => h'.unique htext, fun h' => h' ▸ htext⟩

theorem Tree.Holds.not_textIn {text : Bytes} (h : t.Holds b c)
    (hs : b.2.entriesIn slot = [.inr (.literal text)]) : ¬ t.TextIn slot c.1 s := by
  rintro ⟨f, hfields, m, hvalue, -⟩
  obtain ⟨f', hfields', hliteral⟩ := h.exists_field hs
  obtain rfl : f = f' := by simpa using hfields.symm.trans hfields'
  cases hvalue.symm.trans hliteral

end OneEntry

/-- A tree with the nodes of a forest holds its branches. -/
theorem Tree.forall₂_holds {t : Tree} {f : Forest Shape} {parent : NodeId} {base : Nat}
    (ht : ∀ m ∈ (f.number parent base).heads, t.node? m.id = some m) (type : NodeType) :
    List.Forall₂ t.Holds (f.branches Shape.type type)
      ((f.number parent base).branches Node.type type) := by
  have hnumbers := f.forall₂_branches_number type parent base
  rw [List.forall₂_iff_zip] at hnumbers ⊢
  refine ⟨hnumbers.1, fun {b c} hmem => ⟨hnumbers.2 hmem, ?_⟩⟩
  obtain ⟨hhead, hbelow⟩ := Forest.mem_heads_of_mem_branches (List.of_mem_zip hmem).2
  exact ⟨ht _ hhead, fun m hm => ht m (hbelow m hm)⟩

theorem Forest.forall₂_branches_toTree {f : Forest Shape} (hf : f.Plain) (root : Shape) :
    List.Forall₂ (f.toTree root).Holds (f.branches Shape.type root.type)
      (f.toTree root).branches := by
  rw [Tree.branches, unfold_toTree hf]
  exact Tree.forall₂_holds (fun m hm => node?_toTree_of_mem hm) root.type

namespace Markdown

/-! ## Nodes from the leaves up -/

mutual

/-- A node after what is below it, where `opens` tells whether to look there. Nodes without a place
are left out. -/
def Node.finished (opens : Node → Bool) : Node → List Node
  | .mk kind lines children =>
    if kind.isPlaceless then []
    else
      (if opens (.mk kind lines children) then finishedAll opens children else []) ++
        [.mk kind lines children]

/-- Several nodes one after another, each after what is below it. -/
def finishedAll (opens : Node → Bool) : List Node → List Node
  | [] => []
  | n :: rest => n.finished opens ++ finishedAll opens rest

end

/-- The nodes that are converted with a node, from the leaves up. -/
def Node.finishedBelow (src : Source) (n : Node) : List Node :=
  if n.convertsBelow src then finishedAll (Node.convertsBelow src) n.children else []

section Finished

variable {opens : Node → Bool} {n : Node}

theorem Node.finished_of_placeless (h : n.kind.isPlaceless = true) : n.finished opens = [] := by
  cases n
  exact if_pos h

theorem Node.finished_of_placed (h : n.kind.isPlaceless = false) :
    n.finished opens = (if opens n then finishedAll opens n.children else []) ++ [n] := by
  cases n with
  | mk kind lines children =>
    change kind.isPlaceless = false at h
    rw [finished, h]
    rfl

theorem finishedAll_congr {opens' : Node → Bool} {nodes : List Node}
    (h : ∀ n ∈ nodes, n.finished opens = n.finished opens') :
    finishedAll opens nodes = finishedAll opens' nodes := by
  induction nodes with
  | nil => rfl
  | cons n rest ih =>
    rw [finishedAll, finishedAll, h n List.mem_cons_self,
      ih fun m hm => h m (List.mem_cons_of_mem _ hm)]

/-- Where leaves are closed, looking below those that leave out their children finds nothing. -/
theorem Node.Everywhere.finished_eq {src : Source} (h : n.Everywhere Closed) :
    n.finished (Node.convertsBelow src) = n.finished fun _ => true := by
  induction n using Node.of_children with
  | h n ih =>
    cases hplace : n.kind.isPlaceless with
    | true => rw [finished_of_placeless hplace, finished_of_placeless hplace]
    | false =>
      have hchildren := finishedAll_congr fun m hm => ih m hm (h.children m hm)
      rw [finished_of_placed hplace, finished_of_placed hplace, hchildren]
      cases hopen : n.convertsBelow src with
      | true => rfl
      | false =>
        rw [h.here (Node.isLeaf_of_not_convertsBelow hopen)]
        rfl

end Finished

/-! ## What becomes of a node -/

/-- The node is converted to the branch, at some cursor. -/
def Node.Becomes (src : Source) (n : Node) (b : Shape × Forest Shape) : Prop :=
  ∃ marker cursor p, (convertNode src marker n cursor).piece = some p ∧
    b = (⟨p.type, p.segment.toSpan⟩, p.below)

/-- The diagnostics that nodes call for one after another, given the spans of their counterparts. -/
def dueAll (src : Source) (nodes : List Node) (spans : List Span) : List Diagnostic :=
  (List.zipWith (fun n span => n.kind.due src span) nodes spans).flatten

/-- The branches are what the nodes become, in order, and the diagnostics are those due for them. -/
structure Accounts (src : Source) (nodes : List Node) (branches : List (Shape × Forest Shape))
    (diagnostics : List Diagnostic) : Prop where
  becomes : List.Forall₂ (Node.Becomes src) nodes branches
  diagnostics_eq : diagnostics = dueAll src nodes (branches.map fun b => b.1.span)

namespace Accounts

variable {src : Source} {nodes nodes' : List Node}
  {branches branches' : List (Shape × Forest Shape)}
  {diagnostics diagnostics' : List Diagnostic}

theorem nil : Accounts src [] [] [] := ⟨.nil, rfl⟩

theorem append (h : Accounts src nodes branches diagnostics)
    (h' : Accounts src nodes' branches' diagnostics') :
    Accounts src (nodes ++ nodes') (branches ++ branches') (diagnostics ++ diagnostics') where
  becomes := List.rel_append h.becomes h'.becomes
  diagnostics_eq := by
    have hlength : nodes.length = (branches.map fun b => b.1.span).length := by
      rw [h.becomes.length_eq, List.length_map]
    rw [h.diagnostics_eq, h'.diagnostics_eq, dueAll, dueAll, dueAll, List.map_append,
      List.zipWith_append hlength, List.flatten_append]

end Accounts

/-- The branches that an outcome leaves. -/
def Outcome.branches (o : Outcome) : List (Shape × Forest Shape) :=
  match o.piece with
  | none => []
  | some p => p.below.branches Shape.type p.type ++ [(⟨p.type, p.segment.toSpan⟩, p.below)]

section Kinds

variable {src : Source} {cursor : Nat} {n : Node} {inner : Conversion} {p : Piece}

theorem exists_piece (h : n.kind.isPlaceless = false) (src : Source) (marker : Option UInt8)
    (cursor : Nat) :
    ∃ p, (convertNode src marker n cursor).piece = some p ∧ p.type = n.kind.nodeType src := by
  obtain ⟨segment, before, after, hpiece, -, -⟩ := wraps_convertNode h marker cursor
  exact ⟨_, hpiece, rfl⟩

/-- Only the types of closed kinds hold text of their own. -/
theorem Node.holdsText_of_convertsBelow (h : n.convertsBelow src = true) :
    (n.kind.nodeType src).holdsText = false := by
  cases hleaf : n.kind.isLeaf with
  | false => exact Kind.holdsText_nodeType src hleaf
  | true =>
    unfold convertsBelow at h
    cases hk : n.kind <;> simp only [hk, Kind.isLeaf, Bool.not_true, Bool.false_eq_true] at h hleaf
    case codeBlock => rfl
    case fencedCode info =>
      cases info with
      | none => rfl
      | some i => cases h

end Kinds

/-! ## Sequences of nodes -/

section Sequences

variable {src : Source} {cursor : Nat} {parent : NodeType}

theorem branches_cons {o : Outcome}
    (h : ∀ p ∈ o.piece, isSynthesized parent .children p.type = false)
    (rest : Conversion) : (Conversion.cons o rest).entries.branches Shape.type parent =
      o.branches ++ rest.entries.branches Shape.type parent := by
  cases hp : o.piece with
  | none => rw [cons_of_none hp, Outcome.branches, hp, List.nil_append]
  | some p =>
    have hshown := h p hp
    rw [cons_of_some hp, Forest.branches, if_neg (by simp [hshown]), Outcome.branches, hp,
      List.append_assoc, List.singleton_append]

theorem branches_cons_controlRow (o : Outcome) (parent : NodeType) (rest : Conversion) :
    (Conversion.cons (controlRow src o) rest).entries.branches Shape.type parent =
      rest.entries.branches Shape.type parent := by
  cases hp : (controlRow src o).piece with
  | none => rw [cons_of_none hp]
  | some p =>
    have hsynthesized : isSynthesized parent .children p.type = true := by
      simp [isSynthesized, (piece_controlRow src o p hp).1]
    rw [cons_of_some hp, Forest.branches, if_pos hsynthesized]

theorem diagnostics_cons (o : Outcome) (rest : Conversion) :
    (Conversion.cons o rest).diagnostics = o.diagnostics ++ rest.diagnostics := by
  unfold Conversion.cons
  split <;> rfl

theorem diagnostics_controlRow (o : Outcome) : (controlRow src o).diagnostics = [] := by
  unfold controlRow
  split
  · rfl
  · dsimp only
    split <;> rfl

/-- A converted node is not made up, unless its parent holds text only. -/
theorem isSynthesized_convertNode (hp : parent.holdsText = false) (src : Source) (n : Node)
    (marker : Option UInt8) (cursor : Nat) :
    ∀ p ∈ (convertNode src marker n cursor).piece,
      isSynthesized parent .children p.type = false := by
  intro p hpiece
  cases hplace : n.kind.isPlaceless with
  | true =>
    rw [piece_convertNode hplace] at hpiece
    cases hpiece
  | false =>
    obtain ⟨q, hq, htype⟩ := exists_piece hplace src marker cursor
    obtain rfl : q = p := Option.some.inj (hq.symm.trans hpiece)
    have hslot : Slot.children.isDerived = false := by decide
    simp [isSynthesized, hslot, hp, htype, Kind.nodeType_ne_tableControlCell]

section Accounts

variable {nodes : List Node} (h : ∀ n ∈ nodes, ∀ marker cursor,
  Accounts src (n.finished (Node.convertsBelow src)) (convertNode src marker n cursor).branches
    (convertNode src marker n cursor).diagnostics)
include h

theorem accounts_convertAll (hp : parent.holdsText = false) (marker : Option UInt8) :
    Accounts src (finishedAll (Node.convertsBelow src) nodes)
      ((convertAll src marker nodes cursor).entries.branches Shape.type parent)
      (convertAll src marker nodes cursor).diagnostics := by
  induction nodes generalizing cursor with
  | nil => exact .nil
  | cons n rest ih =>
    rw [convertAll, finishedAll]
    rw [branches_cons (isSynthesized_convertNode hp src n marker cursor), diagnostics_cons]
    exact (h n List.mem_cons_self marker cursor).append
      (ih fun m hm => h m (List.mem_cons_of_mem _ hm))

theorem accounts_convertRows (hp : parent.holdsText = false) :
    Accounts src (finishedAll (Node.convertsBelow src) nodes)
      ((convertRows src nodes cursor).entries.branches Shape.type parent)
      (convertRows src nodes cursor).diagnostics := by
  induction nodes generalizing cursor with
  | nil => exact .nil
  | cons n rest ih =>
    have ho := h n List.mem_cons_self none cursor
    have hrest := fun cursor => @ih cursor fun m hm => h m (List.mem_cons_of_mem _ hm)
    have hshown := isSynthesized_convertNode hp src n none cursor
    rw [convertRows, finishedAll]
    dsimp only
    split
    · rw [branches_cons hshown, branches_cons_controlRow, diagnostics_cons, diagnostics_cons,
        diagnostics_controlRow, List.nil_append]
      exact ho.append (hrest _)
    · rw [branches_cons hshown, diagnostics_cons]
      exact ho.append (hrest _)

end Accounts

/-- What is converted with a node is accounted for. -/
theorem accounts_convertedBelow {n : Node} (h : ∀ m ∈ n.children, ∀ marker cursor,
    Accounts src (m.finished (Node.convertsBelow src)) (convertNode src marker m cursor).branches
      (convertNode src marker m cursor).diagnostics) (cursor : Nat) :
    Accounts src (n.finishedBelow src)
      ((convertedBelow src n cursor).entries.branches Shape.type (n.kind.nodeType src))
      (convertedBelow src n cursor).diagnostics := by
  unfold convertedBelow Node.finishedBelow
  cases hopen : n.convertsBelow src with
  | false => exact .nil
  | true =>
    have htext := Node.holdsText_of_convertsBelow hopen
    rw [if_pos rfl, if_pos rfl]
    unfold convertBelow
    split
    · exact accounts_convertRows h htext
    · exact accounts_convertAll h htext _

/-- What stands below a converted node of its document is what is converted with it. -/
theorem branches_convertNode {n : Node} {marker : Option UInt8} {p : Piece}
    (h : (convertNode src marker n cursor).piece = some p) :
    p.below.branches Shape.type p.type =
      (convertedBelow src n cursor).entries.branches Shape.type (n.kind.nodeType src) := by
  cases hplace : n.kind.isPlaceless with
  | true =>
    rw [piece_convertNode hplace] at h
    cases h
  | false =>
    have hwraps : (convertNode src marker n cursor).Wraps (n.kind.nodeType src) _ :=
      wraps_convertNode hplace marker cursor
    obtain ⟨segment, before, after, hpiece, hbefore, hafter⟩ := hwraps
    rw [hpiece] at h
    cases h
    rw [Forest.branches_append, Forest.branches_append, hbefore.branches_eq, hafter.branches_eq,
      List.nil_append, List.append_nil, convertedBelow]
    split <;> rfl

theorem accounts_convertNode (src : Source) (n : Node) (marker : Option UInt8) (cursor : Nat) :
    Accounts src (n.finished (Node.convertsBelow src)) (convertNode src marker n cursor).branches
      (convertNode src marker n cursor).diagnostics := by
  induction n using Node.of_children generalizing marker cursor with
  | h n ih =>
    cases hplace : n.kind.isPlaceless with
    | true =>
      rw [Node.finished_of_placeless hplace, Outcome.branches, piece_convertNode hplace,
        diagnostics_of_placeless hplace]
      exact .nil
    | false =>
      obtain ⟨p, hpiece, -⟩ := exists_piece hplace src marker cursor
      rw [Node.finished_of_placed hplace, Outcome.branches, hpiece,
        (adds_convertNode src n marker cursor).diagnostics p hpiece]
      dsimp only
      rw [branches_convertNode hpiece]
      refine (accounts_convertedBelow ih cursor).append
        ⟨.cons ⟨marker, cursor, p, hpiece, rfl⟩ .nil, ?_⟩
      simp [dueAll]

end Sequences

/-! ## Documents -/

section Documents

variable {src : Source} {n : Node} {b : Shape × Forest Shape} {t : Tree}
  {c : DocTokens.Node × Forest DocTokens.Node}

/-- The node becomes a branch that the tree holds as `c`. -/
def Node.Counterpart (src : Source) (t : Tree) (n : Node)
    (c : DocTokens.Node × Forest DocTokens.Node) : Prop :=
  ∃ b, n.Becomes src b ∧ t.Holds b c

/-- A tree that holds the branches of nodes holds their counterparts. -/
theorem Accounts.counterparts {nodes : List Node} {branches : List (Shape × Forest Shape)}
    {diagnostics : List Diagnostic} {held : List (DocTokens.Node × Forest DocTokens.Node)}
    (h : Accounts src nodes branches diagnostics) (ht : List.Forall₂ t.Holds branches held) :
    List.Forall₂ (Node.Counterpart src t) nodes held ∧
      diagnostics = dueAll src nodes (held.map fun c => c.1.span) := by
  have hspans : List.Forall₂ (· = ·) (branches.map fun b => b.1.span)
      (held.map fun c => c.1.span) := by
    rw [List.forall₂_map_left_iff, List.forall₂_map_right_iff]
    exact ht.imp fun b c => Tree.Holds.span_eq
  rw [List.forall₂_eq_eq_eq] at hspans
  refine ⟨?_, by rw [h.diagnostics_eq, hspans]⟩
  have hbecomes := h.becomes
  clear h hspans
  induction hbecomes generalizing held with
  | nil =>
    cases ht
    exact .nil
  | cons hn _ ih =>
    cases ht with
    | cons hb hrest => exact .cons ⟨_, hn, hb⟩ (ih hrest)

/-- What is converted with a node has its counterparts below the counterpart of the node. -/
theorem Node.Counterpart.below (h : n.Counterpart src t c) :
    List.Forall₂ (Node.Counterpart src t) (n.finishedBelow src)
      (c.2.branches Node.type c.1.type) := by
  obtain ⟨b, ⟨marker, cursor, p, hpiece, rfl⟩, ⟨parent, id, rfl⟩, -, hbelow⟩ := h
  have haccounts := accounts_convertedBelow (n := n) (fun m _ => accounts_convertNode src m) cursor
  rw [← branches_convertNode hpiece] at haccounts
  exact (haccounts.counterparts (Tree.forall₂_holds hbelow p.type)).1

/-- The nodes that are converted have their counterparts in the tree, in order. -/
theorem convert_counterparts (src : Source) (document : Node) :
    let t := (convert src document).1
    let nodes := finishedAll (Node.convertsBelow src) document.children
    List.Forall₂ (Node.Counterpart src t) nodes t.branches ∧
      (convert src document).2 = dueAll src nodes (t.branches.map fun c => c.1.span) :=
  (accounts_convertAll (fun n _ => accounts_convertNode src n) rfl none).counterparts
    (Forest.forall₂_branches_toTree (plain_convert src document) _)

/-- The nodes that are converted, each with its counterpart in the tree. -/
def counterparts (src : Source) (document : Node) :
    List (Node × DocTokens.Node × Forest DocTokens.Node) :=
  (finishedAll (Node.convertsBelow src) document.children).zip (convert src document).1.branches

/-- The pair at an index, by what it shows of the node and of its counterpart. -/
theorem exists_counterpart {src : Source} {document : Node} (i : Nat) {kind : Kind}
    {lines : List Segment} {span : Span}
    (h : (counterparts src document)[i]?.map
      (fun pair => (pair.1.kind, pair.1.lines, pair.2.1.span)) =
      some (kind, lines, span)) :
    ∃ n c, (n, c) ∈ counterparts src document ∧ n.kind = kind ∧ n.lines = lines ∧
      c.1.span = span := by
  obtain ⟨⟨n, c⟩, hget, hshown⟩ := Option.map_eq_some_iff.mp h
  simp only [Prod.mk.injEq] at hshown
  exact ⟨n, c, List.mem_of_getElem? hget, hshown⟩

theorem Node.Becomes.type_eq (h : n.Becomes src b) : b.1.type = n.kind.nodeType src := by
  obtain ⟨marker, cursor, p, hpiece, rfl⟩ := h
  cases hplace : n.kind.isPlaceless with
  | true =>
    rw [piece_convertNode hplace] at hpiece
    cases hpiece
  | false =>
    obtain ⟨q, hq, htype⟩ := exists_piece hplace src marker cursor
    obtain rfl : q = p := Option.some.inj (hq.symm.trans hpiece)
    exact htype

/-- What a node becomes has its targets, also in a tree that holds it. -/
theorem Node.Becomes.aims (h : n.Becomes src b) (hb : t.Holds b c) :
    n.kind.Aims src (NamesIn t src) (c.1.fieldsIn .href) := by
  obtain ⟨marker, cursor, p, hpiece, rfl⟩ := h
  obtain ⟨⟨parent, id, rfl⟩, -, hbelow⟩ := hb
  have haims := (adds_convertNode src n marker cursor).targets p hpiece
  exact haims.transfer (Tree.stores_entriesIn .href p.below _ _ hbelow)
    fun written whole e f hef hnames => hnames.namesIn hef

end Documents

/-- In a document with closed leaves, each node with a place has one counterpart in the tree, of the
type its kind prescribes and with the targets its kind calls for; and the diagnostics are those due
for the nodes one after another, at the spans of their counterparts. -/
theorem convert_targets (src : Source) (document : Node) (h : document.Everywhere Node.Closed) :
    let t := (convert src document).1
    let nodes := finishedAll (fun _ => true) document.children
    List.Forall₂ (fun n b => t.node? b.1.id = some b.1 ∧ b.1.type = n.kind.nodeType src ∧
      n.kind.Aims src (NamesIn t src) (b.1.fieldsIn .href)) nodes t.branches ∧
    (convert src document).2 = dueAll src nodes (t.branches.map fun b => b.1.span) := by
  intro t nodes
  have hnodes : finishedAll (Node.convertsBelow src) document.children = nodes :=
    finishedAll_congr fun n hn => (h.children n hn).finished_eq
  obtain ⟨hcounterparts, hdiagnostics⟩ := convert_counterparts src document
  rw [hnodes] at hcounterparts hdiagnostics
  refine ⟨hcounterparts.imp ?_, hdiagnostics⟩
  rintro n c ⟨b, hbecomes, hholds⟩
  exact ⟨hholds.2.1, hholds.type_eq.symm.trans hbecomes.type_eq, hbecomes.aims hholds⟩

def linkedSource : Source :=
  (utf8 "[![i](p)](q) [e]() <a:b> !M(k\n|[t]|\n").toArray

/-- An image in a link, a link to nowhere, an automatic link and a directive that is not closed;
then a link in a table, whose destination is given elsewhere. -/
def linkedDocument : Node :=
  .mk .document []
    [.mk .paragraph [⟨0, 30⟩]
      [.mk (.link (utf8 "q")) [] [.mk (.image (utf8 "p")) [] [.text ⟨3, 4⟩]],
        .mk (.link []) [] [.text ⟨14, 15⟩], .leaf (.autoLink ⟨20, 23⟩ none),
        .leaf (.directive ⟨⟨25, 27⟩, ⟨26, 27⟩, none, [], some ⟨27, 28⟩⟩)],
     .mk .table []
      [.mk .tableHeader [] [.mk .tableCell [] [.mk (.link (utf8 "z")) [] [.text ⟨32, 33⟩]]]]]

/-- The link to nowhere and the open directive are all there is to report. -/
theorem convert_targets_linked :
    linkedDocument.Everywhere Node.Closed ∧
    (let t := (convert linkedSource linkedDocument).1
     List.Forall₂ (fun n b => t.node? b.1.id = some b.1 ∧ b.1.type = n.kind.nodeType linkedSource ∧
        n.kind.Aims linkedSource (NamesIn t linkedSource) (b.1.fieldsIn .href))
      (finishedAll (fun _ => true) linkedDocument.children) t.branches) ∧
    (convert linkedSource linkedDocument).2 =
      [⟨utf8 "link has an empty destination", ⟨13, 18⟩, .warning⟩,
        ⟨utf8 "macro M has an unclosed (", ⟨27, 28⟩, .error⟩] := by
  have hclosed : linkedDocument.Everywhere Node.Closed := by
    simp [linkedDocument, Node.leaf, Node.text, Node.everywhere_mk_iff, Node.Closed, Node.kind,
      Node.children, Kind.isLeaf]
  obtain ⟨htargets, hdiagnostics⟩ := convert_targets linkedSource linkedDocument hclosed
  refine ⟨hclosed, htargets, ?_⟩
  rw [hdiagnostics]
  decide +kernel

end Markdown

end DocTokens
