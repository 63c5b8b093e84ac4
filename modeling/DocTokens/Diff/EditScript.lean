/-! # Edit scripts

A shortest script that turns one list into another by deletions and insertions. The search walks the
grid of positions in both lists: `x` elements of the first are used up and `y` of the second, and
the diagonal `x - y` stays the same while equal elements are kept. For every number of edits it
remembers how far each diagonal can be reached.
-/

namespace DocTokens

/-- One step of a script. -/
inductive Edit (α : Type) where
  | keep (a : α)
  | insert (a : α)
  | delete (a : α)
  deriving DecidableEq, Repr

namespace Edit

/-- Whether the step changes anything. -/
def isChange : Edit α → Bool
  | keep _ => false
  | _ => true

/-- What the script starts from: its kept and deleted elements. -/
def sources (script : List (Edit α)) : List α := script.filterMap fun
  | keep a => some a
  | delete a => some a
  | insert _ => none

/-- What the script leads to: its kept and inserted elements. -/
def targets (script : List (Edit α)) : List α := script.filterMap fun
  | keep a => some a
  | insert a => some a
  | delete _ => none

end Edit

namespace EditScript

/-- How many elements of the first list are used up at the end of the furthest path on each
diagonal. Diagonal `0` is at index `offset`. -/
structure Reach where
  offset : Nat
  ends : Array Int
  deriving DecidableEq, Repr

namespace Reach

def empty (offset : Nat) : Reach := ⟨offset, Array.replicate (2 * offset + 1) 0⟩

def get (r : Reach) (k : Int) : Int := r.ends.getD (k + r.offset).toNat 0

def set (r : Reach) (k x : Int) : Reach :=
  { r with ends := r.ends.setIfInBounds (k + r.offset).toNat x }

/-- Whether diagonal `k` is entered by an insertion, from the diagonal above it, after `d` edits. -/
def entersByInsert (r : Reach) (d : Nat) (k : Int) : Bool :=
  k == -d || (k != d && r.get (k - 1) < r.get (k + 1))

end Reach

variable [BEq α] (a b : Array α)

/-- The first position from `x` on along a diagonal at which the lists differ or one ends. -/
def slide (k : Int) : Nat → Int → Int
  | 0, x => x
  | fuel + 1, x =>
    match a[x.toNat]?, b[(x - k).toNat]? with
    | some p, some q => if 0 ≤ x ∧ 0 ≤ x - k ∧ p == q then slide k fuel (x + 1) else x
    | _, _ => x

/-- Extends the paths on the given diagonals by one edit. The second part tells whether the end of
both lists was reached; then the diagonals left are not extended. -/
def extend (d : Nat) : List Int → Reach → Reach × Bool
  | [], r => (r, false)
  | k :: rest, r =>
    let start := if r.entersByInsert d k then r.get (k + 1) else r.get (k - 1) + 1
    let x := slide a b k (a.size + 1) start
    let r := r.set k x
    if a.size ≤ x ∧ b.size ≤ x - k then (r, true) else extend d rest r

/-- The diagonals that `d` edits can lead to. -/
def diagonals (d : Nat) : List Int := (List.range (d + 1)).map fun (i : Nat) => 2 * (i : Int) - d

/-- How far the diagonals are reached after each number of edits from `d` on, the last first, put
before what was reached with fewer edits. -/
def explore : Nat → Nat → Reach → List Reach → List Reach
  | 0, _, _, reached => reached
  | fuel + 1, d, r, reached =>
    let (r, done) := extend a b d (diagonals d) r
    if done then r :: reached else explore fuel (d + 1) r (r :: reached)

/-- The script along the reached paths up to position `x` of diagonal `k`, put before the steps that
follow. -/
def retrace (x k : Int) : List Reach → List (Edit α) → List (Edit α)
  | [], steps => steps
  | [_], steps => (a.toList.take x.toNat).map .keep ++ steps
  | r :: reached, steps =>
    let last := r.get k
    if r.entersByInsert reached.length k then
      let start := r.get (k + 1)
      let edit := ((b[(start - (k + 1)).toNat]?).map Edit.insert).toList
      let kept := (a.toList.drop start.toNat).take (last - start).toNat
      retrace start (k + 1) reached (edit ++ kept.map .keep ++ steps)
    else
      let start := r.get (k - 1)
      let edit := ((a[start.toNat]?).map Edit.delete).toList
      let kept := (a.toList.drop (start + 1).toNat).take (last - (start + 1)).toNat
      retrace start (k - 1) reached (edit ++ kept.map .keep ++ steps)

end EditScript

/-- A shortest script from `source` to `target`. -/
def editScript [BEq α] (source target : List α) : List (Edit α) :=
  let a := source.toArray
  let b := target.toArray
  let bound := a.size + b.size
  let reached := EditScript.explore a b (bound + 1) 0 (.empty (bound + 1)) []
  EditScript.retrace a b a.size (a.size - b.size) reached []

end DocTokens
