import PriorityQueue.Heap.Basic
import PriorityQueue.Sift.Lemmas

/-!
# What the heap operations do to the elements

The view of a heap is its list of elements in level order. Each operation is described by what it
adds to that list or takes from it, up to rearrangement and for every rule. No operation but the
transfer from another heap touches the rule.
-/

namespace PriorityQueue.Heap

universe u v

variable {α : Type u} {ρ : Type v}

/-- The empty heap has no elements. -/
@[simp] theorem toList_empty (rule : ρ) : (empty rule : Heap α ρ).toList = [] := rfl

/-- The empty heap has the rule it was made with. -/
@[simp] theorem rule_empty (rule : ρ) : (empty rule : Heap α ρ).rule = rule := rfl

/-- A cleared heap has no elements. -/
@[simp] theorem toList_clear (heap : Heap α ρ) : heap.clear.toList = [] := rfl

/-- Clearing keeps the rule. -/
@[simp] theorem rule_clear (heap : Heap α ρ) : heap.clear.rule = heap.rule := rfl

/-- A copy has the same elements in the same places. -/
@[simp] theorem storage_copy (heap : Heap α ρ) : heap.copy.storage = heap.storage := rfl

/-- A copy has the same rule. -/
@[simp] theorem rule_copy (heap : Heap α ρ) : heap.copy.rule = heap.rule := rfl

/-- A transfer takes the elements of the source. -/
@[simp] theorem storage_assign (heap source : Heap α ρ) :
    (heap.assign source).storage = source.storage := rfl

/-- A transfer takes the rule of the source. -/
@[simp] theorem rule_assign (heap source : Heap α ρ) :
    (heap.assign source).rule = source.rule := rfl

/-- Giving back room leaves the elements. -/
@[simp] theorem storage_shrinkToFit (heap : Heap α ρ) :
    heap.shrinkToFit.storage = heap.storage := rfl

/-- Giving back room leaves the rule. -/
@[simp] theorem rule_shrinkToFit (heap : Heap α ρ) : heap.shrinkToFit.rule = heap.rule := rfl

/-- The size is the length of the list of elements. -/
theorem length_toList (heap : Heap α ρ) : heap.toList.length = heap.size := by
  simp [toList, size]

/-- The element that leaves next is the first one in level order. -/
theorem peek?_eq_head? (heap : Heap α ρ) : heap.peek? = heap.toList.head? := by
  simp [peek?, toList, List.head?_eq_getElem?]

/-- Promising room succeeds exactly up to the limit of storage. -/
theorem reserve_eq_ok_iff [Footprint α] {heap roomy : Heap α ρ} {additional : Nat} :
    heap.reserve additional = .ok roomy ↔
      heap.size + additional ≤ capacityLimit α ∧
        roomy = { heap with spare := max heap.spare additional } := by
  unfold reserve
  split
  case isTrue fits => simp [fits, eq_comm]
  case isFalse exceeds => simp [exceeds]

/-- Room beyond the limit of storage is refused. -/
theorem reserve_of_exceeds [Footprint α] {heap : Heap α ρ} {additional : Nat}
    (exceeds : capacityLimit α < heap.size + additional) :
    heap.reserve additional = .error .capacityOverflow := by
  rw [reserve, if_neg (Nat.not_le_of_lt exceeds)]

section Ruled

variable [Precedence ρ α]

/-- Adding an element keeps the rule. -/
@[simp] theorem rule_push (heap : Heap α ρ) (element : α) :
    (heap.push element).rule = heap.rule := rfl

/-- Adding an element adds one to the size. -/
@[simp] theorem size_push (heap : Heap α ρ) (element : α) :
    (heap.push element).size = heap.size + 1 := by
  simp [push, size]

/-- Adding an element adds exactly that element. -/
theorem toList_push_perm (heap : Heap α ρ) (element : α) :
    (heap.push element).toList.Perm (element :: heap.toList) := by
  have moved := siftUp_perm (precedes heap.rule) (heap.storage.push element).toVector
    heap.storage.size (by simp)
  have appended : (heap.push element).toList.Perm (heap.storage.push element).toList :=
    moved.toArray.toList
  refine appended.trans ?_
  simp only [toList, Array.toList_push]
  exact List.perm_append_singleton element heap.storage.toList

/-- An element that does not precede the parent of the last place stays at that place. -/
theorem storage_push_of_stays {heap : Heap α ρ} {element : α}
    (stays : ∀ above, heap.storage[parent heap.storage.size]? = some above →
      precedes heap.rule element above = false) :
    (heap.push element).storage = heap.storage.push element := by
  unfold push
  dsimp only
  by_cases root : heap.storage.size = 0
  · rw [siftUp]
    simp [root]
  · have higher : parent heap.storage.size < heap.storage.size :=
      parent_lt (Nat.pos_of_ne_zero root)
    rw [siftUp_of_not_less (by simp) (by simp; omega)]
    have found := stays _ (Array.getElem?_eq_getElem higher)
    simp only [Vector.getElem_mk, Array.getElem_push_eq]
    rw [Array.getElem_push_lt higher]
    exact found

/-- Adding several elements keeps the rule. -/
@[simp] theorem rule_pushAll (heap : Heap α ρ) (elements : List α) :
    (heap.pushAll elements).rule = heap.rule := by
  induction elements generalizing heap with
  | nil => rfl
  | cons element elements hypothesis => exact hypothesis (heap.push element)

/-- Adding no elements changes nothing. -/
@[simp] theorem pushAll_nil (heap : Heap α ρ) : heap.pushAll [] = heap := rfl

/-- Several elements are added from the first on. -/
@[simp] theorem pushAll_cons (heap : Heap α ρ) (element : α) (elements : List α) :
    heap.pushAll (element :: elements) = (heap.push element).pushAll elements := rfl

/-- Two batches are added one after the other. -/
theorem pushAll_append (heap : Heap α ρ) (firsts seconds : List α) :
    heap.pushAll (firsts ++ seconds) = (heap.pushAll firsts).pushAll seconds := by
  simp [pushAll, List.foldl_append]

/-- Adding several elements adds their number to the size. -/
@[simp] theorem size_pushAll (heap : Heap α ρ) (elements : List α) :
    (heap.pushAll elements).size = heap.size + elements.length := by
  induction elements generalizing heap with
  | nil => rfl
  | cons element elements hypothesis =>
    rw [pushAll_cons, hypothesis, size_push, List.length_cons]
    omega

/-- Adding several elements adds exactly those. -/
theorem toList_pushAll_perm (heap : Heap α ρ) (elements : List α) :
    (heap.pushAll elements).toList.Perm (elements ++ heap.toList) := by
  induction elements generalizing heap with
  | nil => exact .refl _
  | cons element elements hypothesis =>
    refine (hypothesis (heap.push element)).trans ?_
    refine ((toList_push_perm heap element).append_left elements).trans ?_
    exact List.perm_middle

/-- Settling the root rearranges the storage. -/
theorem settleRoot_perm (less : α → α → Bool) (storage : Array α) :
    (settleRoot less storage).Perm storage := by
  unfold settleRoot
  split
  · exact (siftDown_perm less storage.toVector _).toArray
  · exact .refl _

/-- Nothing can be taken out exactly when there is no element. -/
theorem pop?_eq_none_iff {heap : Heap α ρ} : heap.pop? = none ↔ heap.toList = [] := by
  unfold pop? toList
  split
  · simp
    grind
  · simp
    grind

/-- Taking an element out keeps the rule. -/
theorem rule_of_pop? {heap rest : Heap α ρ} {element : α}
    (popped : heap.pop? = some (element, rest)) : rest.rule = heap.rule := by
  unfold pop? at popped
  split at popped
  · obtain ⟨rfl, rfl⟩ := popped
    rfl
  · simp at popped

/-- The element taken out is the one that was to leave next. -/
theorem peek?_of_pop? {heap rest : Heap α ρ} {element : α}
    (popped : heap.pop? = some (element, rest)) : heap.peek? = some element := by
  unfold pop? at popped
  split at popped
  · obtain ⟨rfl, rfl⟩ := popped
    simp [peek?]
  · simp at popped

/-- Dropping the last element after the first was swapped behind it takes out the first. -/
theorem swap_last_pop_perm (storage : Array α) (nonempty : 0 < storage.size) :
    (storage[0] :: (storage.swap 0 (storage.size - 1)).pop.toList).Perm storage.toList := by
  have swapped : (storage.swap 0 (storage.size - 1)).Perm storage := Array.swap_perm _ _
  have length : (storage.swap 0 (storage.size - 1)).size = storage.size := by simp
  have atEnd : (storage.swap 0 (storage.size - 1))[storage.size - 1]? = some storage[0] := by
    rw [Array.getElem?_eq_getElem (by omega)]
    simp
  have nonzero : (storage.swap 0 (storage.size - 1)).size ≠ 0 := by omega
  obtain ⟨start, last, shape⟩ := Array.eq_push_of_size_ne_zero nonzero
  rw [shape] at swapped length atEnd ⊢
  have startSize : storage.size - 1 = start.size := by
    simp at length
    omega
  rw [startSize] at atEnd
  have first : last = storage[0] := by simpa using atEnd
  rw [Array.pop_push, ← first]
  refine List.Perm.trans ?_ swapped.toList
  rw [Array.toList_push]
  exact (List.perm_append_singleton _ _).symm

/-- Taking an element out takes out exactly that element. -/
theorem toList_perm_of_pop? {heap rest : Heap α ρ} {element : α}
    (popped : heap.pop? = some (element, rest)) :
    (element :: rest.toList).Perm heap.toList := by
  unfold pop? at popped
  split at popped
  case isTrue nonempty =>
    obtain ⟨rfl, rfl⟩ := popped
    have settled := (settleRoot_perm (precedes heap.rule)
      (heap.storage.swap 0 (heap.storage.size - 1)).pop).toList
    exact (settled.cons _).trans (swap_last_pop_perm heap.storage nonempty)
  case isFalse => simp at popped

/-- An empty heap gives nothing when emptied in order. -/
theorem popAll_of_none {heap : Heap α ρ} (empty : heap.pop? = none) :
    heap.popAll = ([], heap) := by
  rw [popAll]
  split
  · rfl
  · simp_all

/-- A heap emptied in order gives the element that leaves next and then empties the rest. -/
theorem popAll_of_some {heap rest : Heap α ρ} {element : α}
    (popped : heap.pop? = some (element, rest)) :
    heap.popAll = (element :: rest.popAll.1, rest.popAll.2) := by
  rw [popAll]
  split
  · simp_all
  · simp_all

/-- The sorted elements begin with the one that leaves next, if there is one. -/
theorem toSorted_eq (heap : Heap α ρ) :
    heap.toSorted = match heap.pop? with
      | none => []
      | some (element, rest) => element :: rest.toSorted := by
  unfold toSorted
  cases popped : heap.pop? with
  | none => simp [popAll_of_none popped]
  | some removal => simp [popAll_of_some popped]

end Ruled

end PriorityQueue.Heap
