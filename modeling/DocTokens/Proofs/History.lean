import DocTokens.Proofs.Builder

/-! # Histories of builders

A builder is used by calls and builds in any order, and the calls may name any node. The tree of a
build is what the calls since the build before it say: they tell which nodes there are, and the
calls after the creation of a node tell what becomes of it. Only the root goes back further.
-/

namespace DocTokens.Builder

/-! ## What calls say -/

namespace Call

/-- A node added as a plain child. -/
def addChild (parent : NodeId) (type : NodeType) (span : Span) : Call :=
  addSlot parent .children type span

/-- The node that a call creates as node number `id`, before anything else happens to it. -/
def created? (id : Nat) : Call → Option Node
  | add parent type span | addSlot parent _ type span => some ⟨id, type, span, parent, #[]⟩
  | _ => none

def creates (c : Call) : Bool := (c.created? 0).isSome

/-- Whether a call creates a node without a parent. -/
def createsRoot (c : Call) : Bool := (c.created? 0).any (·.parent = NodeId.none)

/-- The field that a call gives to node `id`, where the next node to be created is number `next`. -/
def field? (id : NodeId) (next : Nat) : Call → Option Field
  | addSlot parent slot _ _ => if parent = id then some ⟨slot, [], .child next⟩ else none
  | attach parent slot child => if parent = id then some ⟨slot, [], .child child⟩ else none
  | attachKey parent key child => if parent = id then some ⟨.keys, key, .child child⟩ else none
  | setLiteral parent slot text => if parent = id then some ⟨slot, [], .literal text⟩ else none
  | _ => none

/-- The span that a call gives to node `id`. -/
def span? (id : NodeId) : Call → Option Span
  | setSpan node span => if node = id then some span else none
  | _ => none

/-- The node that a call changes, where it creates none. -/
def names? : Call → Option NodeId
  | attach parent _ _ | attachKey parent _ _ | setLiteral parent _ _ => some parent
  | setSpan node _ => some node
  | _ => none

/-- The number of the next node, if it was `next` before a call. -/
def nextAfter (c : Call) (next : Nat) : Nat := if c.creates then next + 1 else next

end Call

/-- The fields that calls give to node `id`, in the order of the calls. -/
def fieldsFor (id : NodeId) : Nat → List Call → List Field
  | _, [] => []
  | next, c :: calls => (c.field? id next).toList ++ fieldsFor id (c.nextAfter next) calls

/-- The last span that calls give to node `id`. -/
def spanFor? (id : NodeId) (calls : List Call) : Option Span :=
  (calls.filterMap (Call.span? id)).getLast?

/-- Node `id` after some calls, where the first of them finds `next` nodes: it has the last span
given to it, and the fields given to it in the order of the calls. -/
def revised (id next : Nat) (calls : List Call) (n : Node) : Node :=
  { n with
    span := (spanFor? id calls).getD n.span
    fields := n.fields ++ (fieldsFor id next calls).toArray }

theorem revised_nil (id next : Nat) (n : Node) : revised id next [] n = n := by
  simp [revised, spanFor?, fieldsFor]

theorem revised_cons (id next : Nat) (c : Call) (calls : List Call) (n : Node) :
    revised id next (c :: calls) n =
      revised id (c.nextAfter next) calls (revised id next [c] n) := by
  have hspan : (spanFor? id (c :: calls)).getD n.span =
      (spanFor? id calls).getD ((spanFor? id [c]).getD n.span) := by
    unfold spanFor?
    rw [List.filterMap_cons, List.filterMap_cons]
    cases c.span? id with
    | none => rfl
    | some s => rw [List.getLast?_cons]; rfl
  rw [revised, hspan, fieldsFor, ← List.append_toArray, ← Array.append_assoc]
  simp only [revised, fieldsFor, List.append_nil]

theorem revised_singleton {id : Nat} {c : Call} (h : c.span? id = none) (next : Nat) (n : Node) :
    revised id next [c] n =
      { n with fields := n.fields ++ (c.field? id next).toList.toArray } := by
  simp only [revised, spanFor?, fieldsFor, List.append_nil, List.filterMap_cons_none h,
    List.filterMap_nil]
  rfl

/-! ## What calls do -/

section Calls

variable {b : Builder} {i : Nat} {n : Node}

theorem size_modify (b : Builder) (id : NodeId) (f : Node → Node) :
    (b.modify id f).nodes.size = b.nodes.size := by
  unfold modify
  split
  · rfl
  · exact Array.size_modify

theorem getElem?_modify (h : b.nodes[i]? = some n) (id : Int) (f : Node → Node) :
    (b.modify id f).nodes[i]? = some (if id = i then f n else n) := by
  unfold modify
  by_cases hneg : id < 0
  · have hne : ¬ id = i := by omega
    rw [if_pos hneg, h, if_neg hne]
  · have hiff : id.toNat = i ↔ id = i := by omega
    rw [if_neg hneg, Array.getElem?_modify, h]
    simp only [hiff]
    split <;> rfl

theorem modify_of_not_valid {id : Int} (h : b.valid id = false) (f : Node → Node) :
    b.modify id f = b := by
  unfold modify
  split
  · rfl
  · have hneg : ¬ id < 0 := ‹_›
    have hout : ¬ (0 ≤ id ∧ id < b.nodes.size) := by
      rintro ⟨hlow, hhigh⟩
      simp [valid, hlow, hhigh] at h
    have hsize : ¬ id.toNat < b.nodes.size := by omega
    have hsame : b.nodes.modify id.toNat f = b.nodes := by
      apply Array.ext_getElem?
      intro k
      rw [Array.getElem?_modify]
      split
      · rw [Array.getElem?_eq_none (by omega)]
        rfl
      · rfl
    rw [hsame]

theorem apply_of_not_valid {c : Call} {id : NodeId} (hc : c.names? = some id)
    (h : b.valid id = false) : b.apply c = b := by
  cases c with
  | add _ _ _ | addSlot _ _ _ _ => cases hc
  | attach _ _ _ | attachKey _ _ _ | setLiteral _ _ _ | setSpan _ _ =>
    cases hc
    exact modify_of_not_valid h _

theorem getElem?_add (h : b.nodes[i]? = some n) (parent : NodeId) (type : NodeType) (span : Span) :
    (b.add parent type span).nodes[i]? = some n := by
  obtain ⟨hlt, _⟩ := Array.getElem?_eq_some_iff.mp h
  rw [add, Array.getElem?_push, if_neg (Nat.ne_of_lt hlt), h]

theorem size_apply (b : Builder) (c : Call) :
    (b.apply c).nodes.size = c.nextAfter b.nodes.size := by
  cases c with
  | add parent type span => exact Array.size_push _
  | addSlot parent slot type span => exact (size_modify _ _ _).trans (Array.size_push _)
  | attach _ _ _ | attachKey _ _ _ | setLiteral _ _ _ | setSpan _ _ => exact size_modify _ _ _

theorem getElem?_addField (h : b.nodes[i]? = some n) (parent : NodeId) (f : Field) :
    (b.addField parent f).nodes[i]? = some { n with
      fields := n.fields ++ (if parent = i then some f else none).toList.toArray } := by
  rw [addField, getElem?_modify h]
  split <;> simp

/-- What one call does to a node that exists. -/
theorem getElem?_apply (h : b.nodes[i]? = some n) (c : Call) :
    (b.apply c).nodes[i]? = some (revised i b.nodes.size [c] n) := by
  cases c with
  | add parent type span =>
    rw [apply, getElem?_add h, revised_singleton rfl]
    simp [Call.field?]
  | addSlot parent slot type span =>
    rw [revised_singleton rfl]
    exact getElem?_addField (getElem?_add h parent type span) parent _
  | attach parent _ _ | attachKey parent _ _ | setLiteral parent _ _ =>
    rw [revised_singleton rfl]
    exact getElem?_addField h parent _
  | setSpan id span =>
    rw [apply, setSpan, getElem?_modify h]
    by_cases hid : id = i
    · simp [revised, spanFor?, fieldsFor, Call.span?, Call.field?, hid]
    · simp [revised, spanFor?, fieldsFor, Call.span?, Call.field?, hid]

/-- The node that a call creates; it may be its own parent. -/
theorem getElem?_apply_new {c : Call} (h : c.created? b.nodes.size = some n) :
    (b.apply c).nodes[b.nodes.size]? = some (revised b.nodes.size b.nodes.size [c] n) := by
  cases c with
  | add parent type span =>
    cases h
    exact Array.getElem?_push_size
  | addSlot parent slot type span =>
    cases h
    have hnew : (b.add parent type span).nodes[b.nodes.size]? =
        some ⟨b.nodes.size, type, span, parent, #[]⟩ := Array.getElem?_push_size
    rw [revised_singleton rfl]
    exact getElem?_addField hnew parent _
  | attach _ _ _ | attachKey _ _ _ | setLiteral _ _ _ | setSpan _ _ => cases h

theorem size_run (b : Builder) (calls : List Call) :
    (run calls b).nodes.size = b.nodes.size + calls.countP Call.creates := by
  induction calls generalizing b with
  | nil => rfl
  | cons c calls ih =>
    have hrun : run (c :: calls) b = run calls (b.apply c) := rfl
    rw [hrun, ih, size_apply, Call.nextAfter, List.countP_cons]
    split <;> omega

/-- What becomes of a node that exists. -/
theorem getElem?_run (h : b.nodes[i]? = some n) (calls : List Call) :
    (run calls b).nodes[i]? = some (revised i b.nodes.size calls n) := by
  induction calls generalizing b n with
  | nil => rwa [revised_nil]
  | cons c calls ih =>
    have hrun : run (c :: calls) b = run calls (b.apply c) := rfl
    rw [hrun, ih (getElem?_apply h c), size_apply, ← revised_cons]

/-- What becomes of a node that a call creates. -/
theorem getElem?_run_new {front back : List Call} {c : Call}
    (hi : (run front b).nodes.size = i) (h : c.created? i = some n) :
    (run (front ++ c :: back) b).nodes[i]? = some (revised i i (c :: back) n) := by
  subst hi
  have hrun : run (front ++ c :: back) b = run back ((run front b).apply c) := by
    simp [run]
  rw [hrun, getElem?_run (getElem?_apply_new h), size_apply, ← revised_cons]

end Calls

/-! ## Roots -/

section Root

variable {b : Builder}

theorem root_modify (b : Builder) (id : NodeId) (f : Node → Node) :
    (b.modify id f).root = b.root := by
  unfold modify
  split <;> rfl

/-- A root is chosen once, by the first call that creates a node without a parent. -/
theorem root_apply (b : Builder) (c : Call) :
    (b.apply c).root =
      if c.createsRoot = true ∧ b.root = NodeId.none then b.nextId else b.root := by
  cases c with
  | add parent type span => simp [apply, add, Call.createsRoot, Call.created?]
  | addSlot parent slot type span =>
    rw [apply, addSlot, attach, addField, root_modify]
    simp [add, Call.createsRoot, Call.created?]
  | attach _ _ _ | attachKey _ _ _ | setLiteral _ _ _ | setSpan _ _ => exact root_modify _ _ _

theorem nextId_ne_none (b : Builder) : b.nextId ≠ NodeId.none := by
  have hnonneg : (0 : Int) ≤ b.nextId := Int.natCast_nonneg _
  intro h
  rw [h] at hnonneg
  exact absurd hnonneg (by decide)

/-- The parents of the nodes in the order of their numbers. -/
def parents (b : Builder) : List NodeId := b.nodes.toList.map Node.parent

theorem parents_modify (b : Builder) (id : NodeId) {f : Node → Node}
    (hf : ∀ n, (f n).parent = n.parent) : (b.modify id f).parents = b.parents := by
  unfold modify
  split
  · rfl
  · simp only [parents, Array.toList_modify]
    apply List.ext_getElem?
    intro k
    rw [List.getElem?_map, List.getElem?_map, List.getElem?_modify]
    cases b.nodes.toList[k]? with
    | none => rfl
    | some n =>
      split
      · exact congrArg some (hf n)
      · rfl

theorem parents_apply (b : Builder) (c : Call) :
    (b.apply c).parents = b.parents ++ ((c.created? 0).map Node.parent).toList := by
  have hadd : ∀ parent type span, (b.add parent type span).parents = b.parents ++ [parent] := by
    intro parent type span
    simp [parents, add]
  cases c with
  | add parent type span => exact hadd parent type span
  | addSlot parent slot type span =>
    exact (parents_modify _ _ (by intro _; rfl)).trans (hadd parent type span)
  | attach _ _ _ | attachKey _ _ _ | setLiteral _ _ _ | setSpan _ _ =>
    exact (parents_modify _ _ (by intro _; rfl)).trans (List.append_nil _).symm

/-- The first node without a parent is the root. -/
def RootFirst (b : Builder) : Prop :=
  b.root = ((b.parents.findIdx? (· = NodeId.none)).map Int.ofNat).getD NodeId.none

theorem RootFirst.apply (h : b.RootFirst) (c : Call) : (b.apply c).RootFirst := by
  unfold RootFirst at h ⊢
  rw [root_apply, parents_apply, List.findIdx?_append]
  cases hidx : b.parents.findIdx? (· = NodeId.none) with
  | some i =>
    have hsome : b.root = Int.ofNat i := by rw [h, hidx]; rfl
    have hne : b.root ≠ NodeId.none := by rw [hsome]; exact Int.noConfusion
    rw [if_neg fun hc => hne hc.2, hsome]
    rfl
  | none =>
    have hnone : b.root = NodeId.none := by rw [h, hidx]; rfl
    have hnext : b.nextId = Int.ofNat b.parents.length := by simp [nextId, parents]
    simp only [hnone, and_true, Option.none_or, Call.createsRoot]
    cases c.created? 0 with
    | none => rfl
    | some n =>
      by_cases hn : n.parent = NodeId.none
      · simp [hn, hnext]
      · simp [hn]

theorem RootFirst.root_build (h : b.RootFirst) : b.build.1.root = b.root := by
  show (if b.nodes.isEmpty then NodeId.none else b.root) = b.root
  split
  · have hempty : b.nodes = #[] := Array.isEmpty_iff.mp ‹b.nodes.isEmpty = true›
    have hnil : b.parents = [] := by
      rw [parents, hempty]
      rfl
    rw [h, hnil]
    rfl
  · rfl

theorem rootFirst_run (calls : List Call) : (run calls .empty).RootFirst := by
  have hrun : ∀ b : Builder, b.RootFirst → (run calls b).RootFirst := by
    induction calls with
    | nil => exact fun _ h => h
    | cons c calls ih => exact fun b h => ih (b.apply c) (h.apply c)
  exact hrun .empty rfl

end Root

/-! ## Histories -/

/-- What a user of a builder does. -/
inductive Operation where
  | call (c : Call)
  | build
  deriving Repr

/-- Whether an operation creates a node without a parent. -/
def Operation.createsRoot : Operation → Bool
  | call c => c.createsRoot
  | build => false

/-- A builder and the trees it has handed over, after one more operation. -/
def perform (s : Builder × List Tree) : Operation → Builder × List Tree
  | .call c => (s.1.apply c, s.2)
  | .build => (s.1.build.2, s.2 ++ [s.1.build.1])

/-- A new builder after a history, and the trees it has handed over. -/
def play (history : List Operation) : Builder × List Tree := history.foldl perform (.empty, [])

theorem play_append (history more : List Operation) :
    play (history ++ more) = more.foldl perform (play history) := List.foldl_append

theorem foldl_perform_calls (calls : List Call) (s : Builder × List Tree) :
    (calls.map .call).foldl perform s = (run calls s.1, s.2) := by
  induction calls generalizing s with
  | nil => rfl
  | cons c calls ih => exact ih _

/-- Trees that have been handed over stay as they are. -/
theorem trees_foldl_perform (history : List Operation) (s : Builder × List Tree) :
    s.2 <+: (history.foldl perform s).2 := by
  induction history generalizing s with
  | nil => exact List.prefix_rfl
  | cons op history ih =>
    refine List.IsPrefix.trans ?_ (ih (perform s op))
    cases op with
    | call c => exact List.prefix_rfl
    | build => exact List.prefix_append _ _

theorem nodes_play {history : List Operation}
    (h : history = [] ∨ history.getLast? = some .build) : (play history).1.nodes = #[] := by
  rcases h with rfl | h
  · rfl
  · obtain ⟨front, rfl⟩ := List.getLast?_eq_some_iff.mp h
    rw [play_append]
    rfl

theorem root_foldl_perform {history : List Operation}
    (h : ∀ op ∈ history, op.createsRoot = false) (s : Builder × List Tree) :
    (history.foldl perform s).1.root = s.1.root := by
  induction history generalizing s with
  | nil => rfl
  | cons op history ih =>
    obtain ⟨hop, hrest⟩ := List.forall_mem_cons.mp h
    rw [List.foldl_cons, ih hrest]
    cases op with
    | call c => exact (root_apply _ _).trans (if_neg fun hc => by simp_all [Operation.createsRoot])
    | build => rfl

theorem root_foldl_perform_of_ne {s : Builder × List Tree} (h : s.1.root ≠ NodeId.none)
    (history : List Operation) : (history.foldl perform s).1.root = s.1.root := by
  induction history generalizing s with
  | nil => rfl
  | cons op history ih =>
    have hop : (perform s op).1.root = s.1.root := by
      cases op with
      | call c => exact (root_apply _ _).trans (if_neg fun hc => h hc.2)
      | build => rfl
    rw [List.foldl_cons, ih (hop.symm ▸ h), hop]

/-- The root is the number that the first node without a parent got when it was created. -/
theorem root_play {front back : List Operation} {c : Call}
    (hfront : ∀ op ∈ front, op.createsRoot = false) (hc : c.createsRoot = true) :
    (play (front ++ .call c :: back)).1.root = (play front).1.nextId := by
  have hnone : (play front).1.root = NodeId.none := root_foldl_perform hfront _
  have hroot : ((play front).1.apply c).root = (play front).1.nextId :=
    (root_apply _ _).trans (if_pos ⟨hc, hnone⟩)
  rw [play_append, List.foldl_cons, root_foldl_perform_of_ne]
  · exact hroot
  · exact fun h => nextId_ne_none _ (hroot.symm.trans h)

theorem play_calls (earlier : List Operation) (calls : List Call) :
    play (earlier ++ calls.map .call) = (run calls (play earlier).1, (play earlier).2) := by
  rw [play_append, foldl_perform_calls]

/-! ## The tree of a build -/

/-- What the calls since the build before, and for the root also the operations up to that build,
say about a tree. The number of a node is the number of nodes created before it. -/
structure Recorded (earlier : List Operation) (calls : List Call) (t : Tree) : Prop where
  size : t.size = calls.countP Call.creates
  node : ∀ front c back n, calls = front ++ c :: back →
    c.created? (front.countP Call.creates) = some n →
      (play (earlier ++ front.map .call)).1.nextId = front.countP Call.creates ∧
      t.node? (front.countP Call.creates) = some { n with
        span := (spanFor? (front.countP Call.creates) back).getD n.span
        fields := (fieldsFor (front.countP Call.creates) (front.countP Call.creates)
          (c :: back)).toArray }
  root_empty : t.size = 0 → t.root = NodeId.none
  root_absent : (∀ op ∈ earlier ++ calls.map .call, op.createsRoot = false) → t.root = NodeId.none
  root_present : 0 < t.size → ∀ front c back,
    earlier ++ calls.map .call = front ++ .call c :: back → c.createsRoot = true →
    (∀ op ∈ front, op.createsRoot = false) → t.root = (play front).1.nextId
  root_first : earlier = [] → t.root =
    ((t.nodes.toList.findIdx? (·.parent = NodeId.none)).map Int.ofNat).getD NodeId.none

section Recorded

variable {earlier : List Operation} {calls : List Call} {t : Tree}

theorem root_of_size_pos (h : 0 < t.size) : t.root = t.rootId := by
  unfold Tree.root
  rw [if_neg]
  intro hempty
  rw [Array.isEmpty_iff_size_eq_zero] at hempty
  exact absurd hempty (Nat.ne_of_gt h)

theorem root_of_size_zero (h : t.size = 0) : t.root = NodeId.none :=
  if_pos (Array.isEmpty_iff_size_eq_zero.mpr h)

/-- A call that creates a node gives it no span. -/
theorem spanFor?_created {c : Call} {i : Nat} {n : Node} (h : c.created? i = some n) (id : NodeId)
    (back : List Call) : spanFor? id (c :: back) = spanFor? id back := by
  cases c with
  | add _ _ _ | addSlot _ _ _ _ => rfl
  | attach _ _ _ | attachKey _ _ _ | setLiteral _ _ _ | setSpan _ _ => cases h

theorem fields_created {c : Call} {i : Nat} {n : Node} (h : c.created? i = some n) :
    n.fields = #[] := by
  cases c with
  | add _ _ _ | addSlot _ _ _ _ => cases h; rfl
  | attach _ _ _ | attachKey _ _ _ | setLiteral _ _ _ | setSpan _ _ => cases h

theorem node?_build (b : Builder) (i : Nat) : b.build.1.node? i = b.nodes[i]? :=
  if_neg (Int.not_lt.mpr (Int.natCast_nonneg i))

theorem recorded_build (h : (play earlier).1.nodes = #[]) :
    Recorded earlier calls (play (earlier ++ calls.map .call)).1.build.1 := by
  have hnodes : ∀ front : List Call,
      (run front (play earlier).1).nodes.size = front.countP Call.creates := by
    intro front
    rw [size_run, h]
    exact Nat.zero_add _
  refine ⟨?size, ?node, root_of_size_zero, ?root_absent, ?root_present, ?root_first⟩
  case size =>
    rw [play_calls]
    exact hnodes calls
  case node =>
    rintro front c back n rfl hn
    refine ⟨?_, ?_⟩
    · rw [play_calls]
      exact congrArg Int.ofNat (hnodes front)
    · rw [play_calls, node?_build, getElem?_run_new (hnodes front) hn, revised,
        spanFor?_created hn, fields_created hn, Array.empty_append]
  case root_absent =>
    intro habsent
    rcases Nat.eq_zero_or_pos (play (earlier ++ calls.map .call)).1.build.1.size with hzero | hpos
    · exact root_of_size_zero hzero
    · exact (root_of_size_pos hpos).trans (root_foldl_perform habsent _)
  case root_present =>
    intro hpos front c back heq hc hfront
    have hplay : (play (front ++ .call c :: back)).1.root = (play front).1.nextId :=
      root_play hfront hc
    rw [root_of_size_pos hpos, ← hplay, ← heq]
    rfl
  case root_first =>
    rintro rfl
    have hplay : (play ([] ++ calls.map .call)).1 = run calls .empty :=
      congrArg Prod.fst (play_calls [] calls)
    rw [hplay, (rootFirst_run calls).root_build, rootFirst_run calls, parents, List.findIdx?_map]
    rfl

/-- The tree of a build is what the history says, and nothing that comes later changes it. -/
theorem tree_of_history (earlier later : List Operation) (calls : List Call)
    (h : earlier = [] ∨ earlier.getLast? = some .build) : ∃ t : Tree,
    (play (earlier ++ calls.map .call ++ [.build])).2 = (play earlier).2 ++ [t] ∧
    (play earlier).2 ++ [t] <+: (play (earlier ++ calls.map .call ++ .build :: later)).2 ∧
    Recorded earlier calls t ∧
    (∀ (b : Builder) c id, c.names? = some id → b.valid id = false → b.apply c = b) ∧
    (∀ (b : Builder) parent type span,
      b.apply (.addChild parent type span) = b.addChild parent type span) := by
  refine ⟨(play (earlier ++ calls.map .call)).1.build.1, ?_, ?_, recorded_build (nodes_play h),
    fun _ _ _ => apply_of_not_valid, fun _ _ _ _ => rfl⟩
  · rw [play_append, play_calls]
    rfl
  · rw [play_append _ (.build :: later), play_calls]
    exact trees_foldl_perform later (perform (run calls (play earlier).1, (play earlier).2) .build)

/-- A builder used again: it has no node 0 until a node is created as its own parent, and its root
is still that of the tree before. -/
theorem tree_of_history_reused :
    let calls : List Call := [.setLiteral 0 .lang [120], .addSlot 0 .children .text ⟨1, 2⟩,
      .setSpan 0 ⟨3, 4⟩, .attach 7 .label 0, .attachKey 0 [107] 9, .setSpan (-2) ⟨5, 6⟩]
    ∃ t : Tree,
      (play ([.call (.add NodeId.none .file ⟨0, 8⟩), .build] ++ calls.map .call ++ [.build])).2 =
        [⟨#[⟨0, .file, ⟨0, 8⟩, NodeId.none, #[]⟩], 0⟩, t] ∧
      t.size = 1 ∧ t.root = 0 ∧
      t.node? 0 = some
        ⟨0, .text, ⟨3, 4⟩, 0, #[⟨.children, [], .child 0⟩, ⟨.keys, [107], .child 9⟩]⟩ := by
  intro calls
  obtain ⟨t, htrees, -, ht, -⟩ :=
    tree_of_history [.call (.add NodeId.none .file ⟨0, 8⟩), .build] [] calls (Or.inr rfl)
  have hsize : t.size = 1 := ht.size
  refine ⟨t, htrees, hsize, ?_, ?_⟩
  · exact ht.root_present (by omega) [] _ _ rfl rfl (by simp)
  · exact (ht.node [.setLiteral 0 .lang [120]] (.addSlot 0 .children .text ⟨1, 2⟩) _ _ rfl rfl).2

end Recorded

end DocTokens.Builder
