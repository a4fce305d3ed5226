import PriorityQueue.Sift

/-!
# Sifting only moves elements

Both loops are made of swaps, so what they return is a rearrangement of what they were given, for
every rule. The equations below open one round of a loop by the answer of the rule.
-/

namespace PriorityQueue

universe u

variable {α : Type u} {n : Nat}

/-- At the root there is nothing to lift past. -/
theorem siftUp_root (less : α → α → Bool) (storage : Vector α n) (inside : 0 < n) :
    siftUp less storage 0 inside = storage := by
  rw [siftUp]
  simp

/-- An element that does not precede its parent stays. -/
theorem siftUp_of_not_less {less : α → α → Bool} {storage : Vector α n} {position : Nat}
    (inside : position < n) (above : parent position < n)
    (stays : less storage[position] storage[parent position] = false) :
    siftUp less storage position inside = storage := by
  rw [siftUp]
  simp [stays]

/-- An element that precedes its parent changes places with it and is lifted on from there. -/
theorem siftUp_of_less {less : α → α → Bool} {storage : Vector α n} {position : Nat}
    (inside : position < n) (above : parent position < n) (below : 0 < position)
    (climbs : less storage[position] storage[parent position] = true) :
    siftUp less storage position inside =
      siftUp less (storage.swap position (parent position)) (parent position) above := by
  conv => lhs; rw [siftUp]
  simp [below, climbs]

/-- Lifting an element rearranges the storage. -/
theorem siftUp_perm (less : α → α → Bool) (storage : Vector α n) (position : Nat)
    (inside : position < n) : (siftUp less storage position inside).Perm storage := by
  fun_induction siftUp less storage position inside with
  | case1 storage position inside below above climbs hypothesis =>
    exact hypothesis.trans (Vector.swap_perm inside above)
  | case2 => exact .refl _
  | case3 => exact .refl _

/-- An element against which no child wins stays. -/
theorem siftDown_of_settled {less : α → α → Bool} {storage : Vector α n} {position : Fin n}
    (settled : winner less storage position = position) :
    siftDown less storage position = storage := by
  rw [siftDown]
  simp [settled]

/-- An element changes places with the child that wins and is lowered on from there. -/
theorem siftDown_of_moved {less : α → α → Bool} {storage : Vector α n} {position : Fin n}
    (moved : winner less storage position ≠ position) :
    siftDown less storage position =
      siftDown less
        (storage.swap position (winner less storage position) position.isLt
          (winner less storage position).isLt)
        (winner less storage position) := by
  conv => lhs; rw [siftDown]
  simp [moved]

/-- Lowering an element rearranges the storage. -/
theorem siftDown_perm (less : α → α → Bool) (storage : Vector α n) (position : Fin n) :
    (siftDown less storage position).Perm storage := by
  fun_induction siftDown less storage position with
  | case1 => exact .refl _
  | case2 storage position best moved hypothesis =>
    exact hypothesis.trans (Vector.swap_perm position.isLt best.isLt)

end PriorityQueue
