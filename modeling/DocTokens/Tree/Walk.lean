import DocTokens.StopSignal
import DocTokens.Tree.Forest

/-! # Walking a tree

The walk keeps a stack of nodes still to visit. A popped node that is missing or already visited is
dropped; otherwise it is visited and its children are pushed, the first on top. Before every
`interval`-th visit a stop signal is asked, and a visit may fail: either ends the walk.
-/

namespace DocTokens

/-- Why a walk ends before its stack is empty. -/
inductive WalkError (ε : Type) where
  /-- The stop signal answered after this many visits. -/
  | stopped (visited : Nat) (cause : StopCause)
  | failed (cause : ε)
  deriving DecidableEq, Repr

/-- What a walk leaves behind: the number of visits, what they made of the value they were handed
or why they ended, and the stop signal. -/
structure WalkResult (ε σ : Type) where
  visited : Nat
  outcome : Except (WalkError ε) σ
  signal : StopSignal

namespace Tree

/-- The number of nodes between two questions: at least one. -/
def pollInterval (n : Int) : Nat := max 1 n.toNat

/-- Asks the signal, if it is to be asked after this many visits. -/
def pollAt (interval visited : Nat) (signal : StopSignal) : Except StopCause StopSignal :=
  if visited % interval = 0 then signal.poll else .ok signal

/-- The number of nodes not visited yet. -/
def Seen.unvisited (seen : Seen) : Nat := seen.count false

theorem fresh?_eq_some {t : Tree} {seen : Seen} {id : NodeId} {n : Node}
    (h : t.fresh? seen id = some n) : t.node? id = some n ∧ seen[id.toNat]? = some false := by
  unfold fresh? at h
  split at h
  · rename_i m hm
    split at h
    · cases h
    · rename_i hs
      cases h
      cases hi : seen[id.toNat]? with
      | none => simp [hi] at hs
      | some b => simp_all
  · cases h

theorem Seen.unvisited_set_lt {seen : Seen} {i : Nat} (h : seen[i]? = some false) :
    Seen.unvisited (seen.setIfInBounds i true) < seen.unvisited := by
  obtain ⟨hi, hb⟩ := Array.getElem?_eq_some_iff.mp h
  have hpos : 0 < seen.count false := Array.count_pos_iff.mpr (hb ▸ Array.getElem_mem hi)
  have hset : (seen.setIfInBounds i true).count false = seen.count false - 1 := by
    simp [Array.setIfInBounds, hi, Array.count_set, hb]
  unfold Seen.unvisited
  omega

section Walk

variable {ε σ : Type} (t : Tree) (interval : Nat) (visit : NodeId → σ → Except ε σ)

/-- Goes on with the nodes on the stack, `visited` nodes having been visited before. Every turn
takes a node off the stack, and only a visit puts new ones there. -/
def walkFrom (seen : Seen) (stack : List NodeId) (visited : Nat) (signal : StopSignal) (acc : σ) :
    WalkResult ε σ :=
  match stack with
  | [] => ⟨visited, .ok acc, signal⟩
  | id :: stack =>
    match _fresh : t.fresh? seen id with
    | none => walkFrom seen stack visited signal acc
    | some n =>
      match pollAt interval visited signal with
      | .error cause => ⟨visited, .error (.stopped visited cause), signal⟩
      | .ok signal =>
        match visit id acc with
        | .error e => ⟨visited + 1, .error (.failed e), signal⟩
        | .ok acc =>
          walkFrom (seen.setIfInBounds id.toNat true) (n.childIds ++ stack) (visited + 1) signal acc
  termination_by (seen.unvisited, stack.length)
  decreasing_by
    · exact Prod.Lex.right _ (by simp)
    · exact Prod.Lex.left _ _ (Seen.unvisited_set_lt (fresh?_eq_some _fresh).2)

end Walk

/-- Hands `acc` from visit to visit over the nodes reachable from the root, parents first, children
in field order, each node once. -/
def walk {ε σ : Type} (t : Tree) (interval : Int) (visit : NodeId → σ → Except ε σ)
    (signal : StopSignal) (acc : σ) : WalkResult ε σ :=
  t.walkFrom (pollInterval interval) visit t.unseen [t.root] 0 signal acc

end Tree

end DocTokens
