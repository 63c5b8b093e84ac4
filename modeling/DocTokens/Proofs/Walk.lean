import DocTokens.Proofs.Builder
import DocTokens.Tree.Walk

/-! # The order of a walk

The walk with its stack visits the nodes in the order in which the recursive reading of the tree
first meets them. A node may stand on the stack several times, but only its first pop counts, and
what lies above it on the stack by then has been visited as the recursion would have visited it.
-/

namespace DocTokens

namespace Tree

section Seen

variable {t : Tree} {seen : Seen} {id : NodeId} {n : Node}

theorem fresh?_eq_some_iff :
    t.fresh? seen id = some n ↔ t.node? id = some n ∧ seen[id.toNat]? = some false := by
  refine ⟨fresh?_eq_some, ?_⟩
  rintro ⟨hn, hs⟩
  simp [fresh?, hn, hs]

theorem mark_eq_false_iff {i j : Nat} :
    (seen.setIfInBounds i true)[j]? = some false ↔ i ≠ j ∧ seen[j]? = some false := by
  rw [Array.getElem?_setIfInBounds]
  split
  · split <;> simp_all
  · simp_all

theorem nonneg_of_node? (h : t.node? id = some n) : 0 ≤ id := by
  unfold node? at h
  split at h
  · cases h
  · exact Int.not_lt.mp ‹_›

theorem eq_of_toNat_eq {id' : NodeId} {n' : Node} (hn : t.node? id = some n)
    (hn' : t.node? id' = some n') (h : id.toNat = id'.toNat) : id = id' := by
  rw [← Int.toNat_of_nonneg (nonneg_of_node? hn), h, Int.toNat_of_nonneg (nonneg_of_node? hn')]

theorem getElem?_nodes (h : t.node? id = some n) : t.nodes[id.toNat]? = some n := by
  unfold node? at h
  split at h
  · cases h
  · exact h

theorem unseen_eq_false (h : t.node? id = some n) : t.unseen[id.toNat]? = some false := by
  obtain ⟨hlt, _⟩ := Array.getElem?_eq_some_iff.mp (getElem?_nodes h)
  simp [unseen, size, hlt]

end Seen

section Order

variable (t : Tree)

/-- The nodes that a stack leads to, in the order in which they are visited. -/
def orderFrom (seen : Seen) (stack : List NodeId) : List NodeId :=
  match stack with
  | [] => []
  | id :: stack =>
    match _fresh : t.fresh? seen id with
    | none => orderFrom seen stack
    | some n => id :: orderFrom (seen.setIfInBounds id.toNat true) (n.childIds ++ stack)
  termination_by (seen.unvisited, stack.length)
  decreasing_by
    · exact Prod.Lex.right _ (by simp)
    · exact Prod.Lex.left _ _ (Seen.unvisited_set_lt (fresh?_eq_some _fresh).2)

theorem orderFrom_nil (seen : Seen) : t.orderFrom seen [] = [] := by
  rw [orderFrom]

variable {t} {seen : Seen} {id : NodeId} {n : Node} {stack : List NodeId}

theorem orderFrom_cons_of_none (h : t.fresh? seen id = none) :
    t.orderFrom seen (id :: stack) = t.orderFrom seen stack := by
  rw [orderFrom]
  split
  · rfl
  · simp_all

theorem orderFrom_cons_of_some (h : t.fresh? seen id = some n) :
    t.orderFrom seen (id :: stack) =
      id :: t.orderFrom (seen.setIfInBounds id.toNat true) (n.childIds ++ stack) := by
  rw [orderFrom]
  split
  · simp_all
  · simp_all

theorem fresh_of_mem_orderFrom (h : id ∈ t.orderFrom seen stack) :
    ∃ n, t.node? id = some n ∧ seen[id.toNat]? = some false := by
  fun_induction orderFrom t seen stack with
  | case1 => cases h
  | case2 seen id' stack hn ih => exact ih h
  | case3 seen id' stack n hn ih =>
    rcases List.mem_cons.mp h with rfl | h
    · exact ⟨n, fresh?_eq_some hn⟩
    · obtain ⟨m, hm, hs⟩ := ih h
      exact ⟨m, hm, (mark_eq_false_iff.mp hs).2⟩

theorem nodup_orderFrom (t : Tree) (seen : Seen) (stack : List NodeId) :
    (t.orderFrom seen stack).Nodup := by
  fun_induction orderFrom t seen stack with
  | case1 => exact List.nodup_nil
  | case2 seen id stack hn ih => exact ih
  | case3 seen id stack n hn ih =>
    refine List.nodup_cons.mpr ⟨fun h => ?_, ih⟩
    obtain ⟨m, _, hs⟩ := fresh_of_mem_orderFrom h
    exact (mark_eq_false_iff.mp hs).1 rfl

/-- A node that is unvisited stays so when another one is marked. -/
theorem mark_other {id' : NodeId} {n' : Node} (hn : t.node? id = some n)
    (hn' : t.node? id' = some n') (hs : seen[id.toNat]? = some false) (hne : id ≠ id') :
    (seen.setIfInBounds id'.toNat true)[id.toNat]? = some false :=
  mark_eq_false_iff.mpr ⟨fun h => hne (eq_of_toNat_eq hn hn' h.symm), hs⟩

/-- An unvisited node on the stack is going to be visited. -/
theorem mem_orderFrom_of_mem (hid : id ∈ stack) (hn : t.node? id = some n)
    (hs : seen[id.toNat]? = some false) : id ∈ t.orderFrom seen stack := by
  fun_induction orderFrom t seen stack with
  | case1 => cases hid
  | case2 seen id' stack hnone ih =>
    rcases List.mem_cons.mp hid with rfl | hid
    · simp [fresh?_eq_some_iff.mpr ⟨hn, hs⟩] at hnone
    · exact ih hid hs
  | case3 seen id' stack m hm ih =>
    by_cases he : id = id'
    · exact List.mem_cons.mpr (Or.inl he)
    · have hid : id ∈ stack := (List.mem_cons.mp hid).resolve_left he
      have hmark := mark_other hn (fresh?_eq_some hm).1 hs he
      exact List.mem_cons_of_mem _ (ih (List.mem_append_right _ hid) hmark)

/-- With a node its unvisited children are visited. -/
theorem child_mem_orderFrom {c : NodeId} {m : Node} (hid : id ∈ t.orderFrom seen stack)
    (hn : t.node? id = some n) (hc : c ∈ n.childIds) (hm : t.node? c = some m)
    (hs : seen[c.toNat]? = some false) : c ∈ t.orderFrom seen stack := by
  fun_induction orderFrom t seen stack with
  | case1 => cases hid
  | case2 seen id' stack hnone ih => exact ih hid hs
  | case3 seen id' stack n' hn' ih =>
    by_cases he : c = id'
    · exact List.mem_cons.mpr (Or.inl he)
    · have hnode := (fresh?_eq_some hn').1
      have hmark := mark_other hm hnode hs he
      rcases List.mem_cons.mp hid with rfl | hid
      · obtain rfl : n = n' := Option.some.inj (hn.symm.trans hnode)
        exact List.mem_cons_of_mem _
          (mem_orderFrom_of_mem (List.mem_append_left _ hc) hm hmark)
      · exact List.mem_cons_of_mem _ (ih hid hmark)

/-- What holds of the nodes on the stack and passes from nodes to their children holds of every
node visited. -/
theorem forall_mem_orderFrom {P : NodeId → Prop}
    (hchild : ∀ p c n, P p → t.node? p = some n → c ∈ n.childIds → P c)
    (hstack : ∀ id ∈ stack, P id) (hid : id ∈ t.orderFrom seen stack) : P id := by
  fun_induction orderFrom t seen stack with
  | case1 => cases hid
  | case2 seen id' stack hnone ih => exact ih (fun x hx => hstack x (List.mem_cons_of_mem _ hx)) hid
  | case3 seen id' stack n hn ih =>
    have hid' := hstack id' List.mem_cons_self
    rcases List.mem_cons.mp hid with rfl | hid
    · exact hid'
    · refine ih (fun x hx => ?_) hid
      rcases List.mem_append.mp hx with hx | hx
      · exact hchild id' x n hid' (fresh?_eq_some hn).1 hx
      · exact hstack x (List.mem_cons_of_mem _ hx)

/-- The nodes to which child references lead from the root. -/
inductive Reachable (t : Tree) : NodeId → Prop where
  | root {n : Node} : t.node? t.root = some n → Reachable t t.root
  | child {p c : NodeId} {n m : Node} : Reachable t p → t.node? p = some n → c ∈ n.childIds →
      t.node? c = some m → Reachable t c

theorem mem_orderFrom_root_iff : id ∈ t.orderFrom t.unseen [t.root] ↔ t.Reachable id := by
  constructor
  · intro h
    obtain ⟨n, hn, _⟩ := fresh_of_mem_orderFrom h
    have hP : ∀ m, t.node? id = some m → t.Reachable id := by
      refine forall_mem_orderFrom (P := fun id => ∀ m, t.node? id = some m → t.Reachable id)
        ?_ ?_ h
      · intro p c n hp hn hc m hm
        exact .child (hp n hn) hn hc hm
      · rintro x hx m hm
        obtain rfl := List.mem_singleton.mp hx
        exact .root hm
    exact hP n hn
  · intro h
    induction h with
    | root hn => exact mem_orderFrom_of_mem (List.mem_singleton.mpr rfl) hn (unseen_eq_false hn)
    | child _ hn hc hm ih => exact child_mem_orderFrom ih hn hc hm (unseen_eq_false hm)

end Order

section Visits

variable {ε σ : Type} (interval : Nat) (visit : NodeId → σ → Except ε σ)

/-- Visits nodes in a given order, as the walk does with those on its stack. -/
def visitAll : List NodeId → Nat → StopSignal → σ → WalkResult ε σ
  | [], visited, signal, acc => ⟨visited, .ok acc, signal⟩
  | id :: ids, visited, signal, acc =>
    match pollAt interval visited signal with
    | .error cause => ⟨visited, .error (.stopped visited cause), signal⟩
    | .ok signal =>
      match visit id acc with
      | .error e => ⟨visited + 1, .error (.failed e), signal⟩
      | .ok acc => visitAll ids (visited + 1) signal acc

/-- Neither the signal nor a visit has a say in the order. -/
theorem walkFrom_eq_visitAll (t : Tree) (seen : Seen) (stack : List NodeId) (visited : Nat)
    (signal : StopSignal) (acc : σ) :
    t.walkFrom interval visit seen stack visited signal acc =
      visitAll interval visit (t.orderFrom seen stack) visited signal acc := by
  fun_induction walkFrom t interval visit seen stack visited signal acc with
  | case1 => rw [orderFrom_nil, visitAll]
  | case2 seen visited signal acc id stack hn ih => rw [orderFrom_cons_of_none hn, ih]
  | case3 seen visited signal acc id stack n hn cause hp =>
    rw [orderFrom_cons_of_some hn, visitAll, hp]
  | case4 seen visited signal acc id stack n hn signal' hp e hv =>
    rw [orderFrom_cons_of_some hn, visitAll, hp]
    simp only [hv]
  | case5 seen visited signal acc id stack n hn signal' hp acc' hv ih =>
    rw [orderFrom_cons_of_some hn, visitAll, hp]
    simp only [hv, ih]

theorem pollAt_never (interval visited : Nat) : pollAt interval visited .never = .ok .never := by
  unfold pollAt
  split <;> rfl

/-- Without a stop the visits are one after another until one of them fails. -/
theorem visitAll_never_outcome (ids : List NodeId) (visited : Nat) (acc : σ) :
    (visitAll interval visit ids visited .never acc).outcome =
      (ids.foldlM (fun acc id => visit id acc) acc).mapError .failed := by
  induction ids generalizing visited acc with
  | nil => rfl
  | cons id ids ih =>
    rw [visitAll, pollAt_never, List.foldlM_cons]
    cases hv : visit id acc with
    | error e => rfl
    | ok acc => exact ih (visited + 1) acc

theorem visitAll_never_signal (ids : List NodeId) (visited : Nat) (acc : σ) :
    (visitAll interval visit ids visited .never acc).signal = .never := by
  induction ids generalizing visited acc with
  | nil => rfl
  | cons id ids ih =>
    rw [visitAll, pollAt_never]
    cases hv : visit id acc with
    | error e => rfl
    | ok acc => exact ih (visited + 1) acc

/-- Visits that never fail are all made. -/
theorem visitAll_never_ok (f : NodeId → σ → σ) (ids : List NodeId) (visited : Nat) (acc : σ) :
    visitAll interval (fun id acc => (.ok (f id acc) : Except ε σ)) ids visited .never acc =
      ⟨visited + ids.length, .ok (ids.foldl (fun acc id => f id acc) acc), .never⟩ := by
  induction ids generalizing visited acc with
  | nil => rfl
  | cons id ids ih =>
    rw [visitAll, pollAt_never]
    simp only [ih, List.foldl_cons, List.length_cons, Nat.add_assoc, Nat.add_comm 1]

end Visits

section Unfold

variable {t : Tree}

/-- The numbers of the nodes of a forest in pre-order. -/
def headIds (f : Forest Node) : List NodeId := f.heads.map fun n => (n.id : NodeId)

/-- The nodes that a list of fields refers to. -/
def fieldIds (fields : List Field) : List NodeId := fields.filterMap fun f => match f.value with
  | .child id => some id
  | _ => none

theorem childIds_eq_fieldIds (n : Node) : n.childIds = fieldIds n.fields.toList := rfl

theorem id_eq_of_node? (hnum : Numbered t.nodes) {id : NodeId} {n : Node}
    (h : t.node? id = some n) : (n.id : NodeId) = id := by
  rw [hnum _ n (getElem?_nodes h), Int.toNat_of_nonneg (nonneg_of_node? h)]

/-- The children of a node above a stack are visited as the recursion meets them, and then the walk
goes on with the stack. The recursion is deep enough when there are more levels than unvisited
nodes. -/
theorem orderFrom_fieldIds (hnum : Numbered t.nodes) (depth : Nat) (fields : List Field)
    (seen : Seen) (stack : List NodeId) (hd : seen.unvisited < depth) :
    t.orderFrom seen (fieldIds fields ++ stack) =
        headIds (t.unfoldTo depth fields seen).1 ++
          t.orderFrom (t.unfoldTo depth fields seen).2 stack ∧
      Seen.unvisited (t.unfoldTo depth fields seen).2 ≤ seen.unvisited ∧
      ∀ n ∈ (t.unfoldTo depth fields seen).1.heads, t.node? n.id = some n := by
  -- on the depth, and within one level along the fields
  induction depth generalizing fields seen stack with
  | zero => omega
  | succ depth ih =>
    simp only [unfoldTo]
    induction fields generalizing seen with
    | nil => simp [unfoldFields, fieldIds, headIds, Forest.heads]
    | cons f fields ihf =>
      cases hv : f.value with
      | absent => simpa [unfoldFields, fieldIds, hv, headIds, Forest.heads] using ihf seen hd
      | literal text => simpa [unfoldFields, fieldIds, hv, headIds, Forest.heads] using ihf seen hd
      | child id =>
        have hids : fieldIds (f :: fields) = id :: fieldIds fields := by simp [fieldIds, hv]
        cases hn : t.fresh? seen id with
        | none =>
          rw [hids, List.cons_append, orderFrom_cons_of_none hn]
          simpa only [unfoldFields, hv, hn] using ihf seen hd
        | some n =>
          have hlt := Seen.unvisited_set_lt (fresh?_eq_some hn).2
          have hid := id_eq_of_node? hnum (fresh?_eq_some hn).1
          obtain ⟨hbelow, hle, hnodes⟩ := ih n.fields.toList (seen.setIfInBounds id.toNat true)
            (fieldIds fields ++ stack) (by omega)
          obtain ⟨hrest, hle', hnodes'⟩ := ihf
            (t.unfoldTo depth n.fields.toList (seen.setIfInBounds id.toNat true)).2 (by omega)
          rw [hids, List.cons_append, orderFrom_cons_of_some hn, childIds_eq_fieldIds, hbelow,
            hrest]
          simp only [unfoldFields, hv, hn]
          refine ⟨by simp [headIds, Forest.heads, hid], by omega, ?_⟩
          intro m hm
          simp only [Forest.heads, List.mem_cons, List.mem_append] at hm
          rcases hm with rfl | hm | hm
          · exact hid ▸ (fresh?_eq_some hn).1
          · exact hnodes m hm
          · exact hnodes' m hm

theorem unvisited_mark_root_lt {n : Node} (h : t.fresh? t.unseen t.root = some n) :
    Seen.unvisited (t.unseen.setIfInBounds t.root.toNat true) < t.size + 1 := by
  have hlt := Seen.unvisited_set_lt (fresh?_eq_some h).2
  have hsize : t.unseen.unvisited = t.size := by simp [Seen.unvisited, unseen]
  omega

/-- The numbers of the nodes in the order of the recursive reading. -/
def preorderIds (t : Tree) : List NodeId := t.preorder.map fun n => (n.id : NodeId)

theorem orderFrom_root (hnum : Numbered t.nodes) :
    t.orderFrom t.unseen [t.root] = t.preorderIds := by
  unfold preorderIds preorder unfold
  cases hn : t.fresh? t.unseen t.root with
  | none => rw [orderFrom_cons_of_none hn, orderFrom_nil]; rfl
  | some n =>
    have hlt := unvisited_mark_root_lt hn
    obtain ⟨hbelow, _, _⟩ := orderFrom_fieldIds hnum (t.size + 1) n.fields.toList
      (t.unseen.setIfInBounds t.root.toNat true) [] hlt
    simp only [orderFrom_nil, List.append_nil] at hbelow
    rw [orderFrom_cons_of_some hn, List.append_nil, childIds_eq_fieldIds, hbelow]
    simp [headIds, id_eq_of_node? hnum (fresh?_eq_some hn).1]

theorem node?_of_mem_preorder (hnum : Numbered t.nodes) {n : Node} (h : n ∈ t.preorder) :
    t.node? n.id = some n := by
  unfold preorder unfold at h
  cases hr : t.fresh? t.unseen t.root with
  | none => simp [hr] at h
  | some r =>
    have hlt := unvisited_mark_root_lt hr
    obtain ⟨_, _, hnodes⟩ := orderFrom_fieldIds hnum (t.size + 1) r.fields.toList
      (t.unseen.setIfInBounds t.root.toNat true) [] hlt
    simp only [hr, List.mem_cons] at h
    rcases h with rfl | h
    · exact id_eq_of_node? hnum (fresh?_eq_some hr).1 ▸ (fresh?_eq_some hr).1
    · exact hnodes n h

end Unfold

end Tree

/-- One line of a dumped tree. -/
inductive DumpLine where
  | root (n : Node)
  | node (depth : Nat) (label : Label) (n : Node)
  | value (depth : Nat) (label : Label) (v : Value)

namespace DumpLine

def render : DumpLine → Bytes
  | root n => utf8 n.render ++ [newline]
  | node depth label n =>
    Forest.indent depth ++ label.render ++ utf8 ": " ++ utf8 n.render ++ [newline]
  | value depth label v =>
    Forest.indent depth ++ label.render ++ utf8 " = " ++ utf8 v.render ++ [newline]

/-- The node a line is about, if it is a line of a node. -/
def node? : DumpLine → Option Node
  | root n | node _ _ n => some n
  | value _ _ _ => none

end DumpLine

namespace Forest

def dumpLines : Nat → Forest Node → List DumpLine
  | _, nil => []
  | depth, value label v rest => .value depth label v :: rest.dumpLines depth
  | depth, node label head below rest =>
    .node depth label head :: (below.dumpLines (depth + 1) ++ rest.dumpLines depth)

theorem render_eq_flatMap (depth : Nat) (f : Forest Node) :
    f.render depth = (f.dumpLines depth).flatMap DumpLine.render := by
  induction f generalizing depth with
  | nil => rfl
  | value label v rest ih => simp [render, dumpLines, DumpLine.render, ih]
  | node label head below rest ihb ihr => simp [render, dumpLines, DumpLine.render, ihb, ihr]

theorem filterMap_dumpLines (depth : Nat) (f : Forest Node) :
    (f.dumpLines depth).filterMap DumpLine.node? = f.heads := by
  induction f generalizing depth with
  | nil => rfl
  | value label v rest ih =>
    simpa [dumpLines, heads, List.filterMap_cons, DumpLine.node?] using ih depth
  | node label head below rest ihb ihr => simp [dumpLines, DumpLine.node?, heads, ihb, ihr]

end Forest

namespace Tree

/-- The lines of a dumped tree in the order in which they are written. -/
def dumpLines (t : Tree) : List DumpLine :=
  match t.unfold with
  | none => []
  | some (n, below) => .root n :: below.dumpLines 1

theorem dump_eq_flatMap (t : Tree) : t.dump = t.dumpLines.flatMap DumpLine.render := by
  unfold dump dumpLines
  cases t.unfold with
  | none => rfl
  | some p => simp [DumpLine.render, Forest.render_eq_flatMap]

theorem filterMap_dumpLines (t : Tree) : t.dumpLines.filterMap DumpLine.node? = t.preorder := by
  unfold preorder dumpLines
  cases t.unfold with
  | none => rfl
  | some p => simp [DumpLine.node?, Forest.filterMap_dumpLines]

/-- A walk that nothing stops visits exactly the nodes reachable from the root, each of them once,
in the order in which they are dumped, and counts them. -/
theorem walk_preorder {t : Tree} (ht : t.Built) :
    (∀ {ε σ : Type} (interval : Int) (f : NodeId → σ → σ) (acc : σ),
      t.walk interval (fun id acc => (.ok (f id acc) : Except ε σ)) .never acc =
        ⟨t.preorderIds.length, .ok (t.preorderIds.foldl (fun acc id => f id acc) acc), .never⟩) ∧
    t.preorderIds.Nodup ∧ (∀ id, id ∈ t.preorderIds ↔ t.Reachable id) ∧
    t.dump = t.dumpLines.flatMap DumpLine.render ∧
    t.dumpLines.filterMap DumpLine.node? = t.preorder := by
  have horder := orderFrom_root ht.numbered
  refine ⟨?_, ?_, ?_, dump_eq_flatMap _, filterMap_dumpLines _⟩
  · intro ε σ interval f acc
    rw [walk, walkFrom_eq_visitAll, horder, visitAll_never_ok, Nat.zero_add]
  · rw [← horder]
    exact nodup_orderFrom _ _ _
  · intro id
    rw [← mem_orderFrom_root_iff, horder]

/-- Calls for a tree whose second node refers to itself, to its parent and to no node at all. -/
def cyclicCalls : List Builder.Call :=
  [.add (-1) .file ⟨0, 0⟩, .addSlot 0 .children .em ⟨0, 0⟩, .attach 1 .children 1,
   .attach 1 .children 0, .attach 1 .children 7, .attach 0 .children 1]

theorem walk_preorder_cyclic :
    (Builder.run cyclicCalls .empty).build.1.Built ∧
    (Builder.run cyclicCalls .empty).build.1.walk 1
        (fun id ids => (.ok (ids ++ [id]) : Except Unit (List NodeId))) .never [] =
      ⟨2, .ok [0, 1], .never⟩ := by
  have ht := Built.run cyclicCalls
  have hids : (Builder.run cyclicCalls .empty).build.1.preorderIds = [0, 1] := by decide
  refine ⟨ht, ?_⟩
  rw [(walk_preorder ht).1, hids]
  rfl

end Tree

end DocTokens
