import PriorityQueue.Position

/-!
# Sifting

Two loops move one element of a level-order tree along a branch. `siftUp` lifts it while it
precedes its parent. `siftDown` lowers it while a child precedes it, always changing places with
the winner among the position and its children. Both work on a vector, so that every position
they read or swap lies inside the storage by construction, and both end for every rule, because
the position moves strictly towards the root or strictly away from it.

Positions here are numbers without bound, and that the loops end is said of these. A machine
reckons positions in words: `Word.siftUp` and `Word.siftDown` are the loops that do, and
`Proofs.WordSift` and `Proofs.WordHeap` say where they do the same as the loops here and where the
way down does not end.
-/

namespace PriorityQueue

universe u

variable {α : Type u} {n : Nat}

/-- Lifts the element at a position while it precedes its parent. -/
def siftUp (less : α → α → Bool) (storage : Vector α n) (position : Nat)
    (inside : position < n) : Vector α n :=
  if below : 0 < position then
    have above : parent position < n := Nat.lt_of_le_of_lt (parent_le position) inside
    if less storage[position] storage[parent position] then
      siftUp less (storage.swap position (parent position)) (parent position) above
    else storage
  else storage
termination_by position
decreasing_by exact parent_lt below

/-- The left child if there is one and its element precedes the one at the position, and the
position itself otherwise. -/
def leftWinner (less : α → α → Bool) (storage : Vector α n) (position : Fin n) : Fin n :=
  if inside : leftChild position < n then
    if less storage[leftChild position] storage[position] then ⟨leftChild position, inside⟩
    else position
  else position

/-- The winner among a position and its children: the right child, if there is one, must precede
whatever has won against the left child. -/
def winner (less : α → α → Bool) (storage : Vector α n) (position : Fin n) : Fin n :=
  let best := leftWinner less storage position
  if inside : rightChild position < n then
    if less storage[rightChild position] storage[best] then ⟨rightChild position, inside⟩
    else best
  else best

/-- A winner is the position itself or one of its two children. -/
theorem winner_cases (less : α → α → Bool) (storage : Vector α n) (position : Fin n) :
    winner less storage position = position ∨
      (winner less storage position).val = leftChild position ∨
      (winner less storage position).val = rightChild position := by
  unfold winner leftWinner
  dsimp only
  repeat' split
  all_goals simp

/-- A winner other than the position itself lies after it. -/
theorem lt_winner {less : α → α → Bool} {storage : Vector α n} {position : Fin n}
    (moved : winner less storage position ≠ position) :
    position.val < (winner less storage position).val := by
  rcases winner_cases less storage position with stays | left | right
  · exact absurd stays moved
  · rw [left]
    exact lt_leftChild position
  · rw [right]
    exact lt_rightChild position

/-- Lowers the element at a position while one of the children wins against it. -/
def siftDown (less : α → α → Bool) (storage : Vector α n) (position : Fin n) : Vector α n :=
  let best := winner less storage position
  if settled : best = position then storage
  else siftDown less (storage.swap position best) best
termination_by n - position.val
decreasing_by
  have later : position.val < best.val := lt_winner settled
  omega

end PriorityQueue
