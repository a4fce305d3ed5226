/-!
# Positions of a level-order tree

A complete binary tree is laid out level by level: the root is at position zero, and the children
of a position follow from it by arithmetic alone. `parent` undoes both child functions, and every
position but the root is exactly one of the two children of its parent.
-/

namespace PriorityQueue

/-- The position above; the root is its own parent. -/
def parent (position : Nat) : Nat := (position - 1) / 2

/-- The first position below. -/
def leftChild (position : Nat) : Nat := 2 * position + 1

/-- The second position below, next to the first. -/
def rightChild (position : Nat) : Nat := leftChild position + 1

/-- Every position but the root lies after its parent. -/
theorem parent_lt {position : Nat} (below : 0 < position) : parent position < position := by
  unfold parent
  omega

/-- A parent never lies after its child. -/
theorem parent_le (position : Nat) : parent position ≤ position := by
  unfold parent
  omega

/-- The parent of a left child is the position it was taken from. -/
@[simp] theorem parent_leftChild (position : Nat) : parent (leftChild position) = position := by
  unfold parent leftChild
  omega

/-- The parent of a right child is the position it was taken from. -/
@[simp] theorem parent_rightChild (position : Nat) : parent (rightChild position) = position := by
  unfold parent rightChild leftChild
  omega

/-- A left child lies after its parent. -/
theorem lt_leftChild (position : Nat) : position < leftChild position := by
  unfold leftChild
  omega

/-- A right child lies after its parent. -/
theorem lt_rightChild (position : Nat) : position < rightChild position := by
  unfold rightChild leftChild
  omega

/-- Every position but the root is a child of its parent. -/
theorem child_of_parent {position : Nat} (below : 0 < position) :
    position = leftChild (parent position) ∨ position = rightChild (parent position) := by
  unfold rightChild leftChild parent
  omega

end PriorityQueue
