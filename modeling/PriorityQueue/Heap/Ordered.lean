import PriorityQueue.Heap.Basic
import PriorityQueue.Order

/-!
# Heap order

Storage is in heap order under a rule when no element strictly precedes its parent. The condition
is stated on places that hold an element, so that it can be written down for storage of any size.
-/

namespace PriorityQueue

universe u v

variable {α : Type u} {ρ : Type v}

/-- The element at a place, if any, does not precede the one at its parent. -/
def OrderedAt (less : α → α → Bool) (storage : Array α) (position : Nat) : Prop :=
  ∀ element above, storage[position]? = some element →
    storage[parent position]? = some above → less element above = false

/-- No element precedes its parent. -/
def HeapOrdered (less : α → α → Bool) (storage : Array α) : Prop :=
  ∀ position, 0 < position → OrderedAt less storage position

/-- A heap whose storage is in order under its own rule. -/
def Heap.IsOrdered [Precedence ρ α] (heap : Heap α ρ) : Prop :=
  HeapOrdered (precedes heap.rule) heap.storage

/-- Storage without elements is in order. -/
theorem heapOrdered_empty (less : α → α → Bool) : HeapOrdered less (#[] : Array α) := by
  intro position _ element above here
  simp at here

/-- Heap order in terms of positions inside the storage. -/
theorem heapOrdered_iff {less : α → α → Bool} {storage : Array α} :
    HeapOrdered less storage ↔
      ∀ position (inside : position < storage.size) (above : parent position < storage.size),
        0 < position → less storage[position] storage[parent position] = false := by
  constructor
  · intro ordered position inside above below
    exact ordered position below _ _ (Array.getElem?_eq_getElem inside)
      (Array.getElem?_eq_getElem above)
  · intro ordered position below element upper here there
    obtain ⟨inside, rfl⟩ := Array.getElem?_eq_some_iff.1 here
    obtain ⟨above, rfl⟩ := Array.getElem?_eq_some_iff.1 there
    exact ordered position inside above below

/-- Heap order with the place of the parent written out. -/
theorem heapOrdered_iff_children {less : α → α → Bool} {storage : Array α} :
    HeapOrdered less storage ↔ ∀ child (inside : child < storage.size), 0 < child →
      less storage[child] storage[(child - 1) / 2] = false := by
  rw [heapOrdered_iff]
  constructor
  · intro ordered child inside below
    have higher : parent child < child := parent_lt below
    exact ordered child inside (by omega) below
  · intro ordered child inside above below
    exact ordered child inside below

/-- Heap order is found out by looking at each place and its parent. -/
instance instDecidableHeapOrdered (less : α → α → Bool) (storage : Array α) :
    Decidable (HeapOrdered less storage) :=
  decidable_of_decidable_of_iff heapOrdered_iff_children.symm

instance instDecidableIsOrdered [Precedence ρ α] (heap : Heap α ρ) : Decidable heap.IsOrdered :=
  inferInstanceAs (Decidable (HeapOrdered (precedes heap.rule) heap.storage))

end PriorityQueue
