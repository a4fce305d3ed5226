import PriorityQueue.Heap.Lemmas
import PriorityQueue.Operation

/-!
# What one step comes to

The operations that may fail or find nothing, each with its outcome and the heap it leaves: room is
granted or refused by the limit of storage alone, and taking or showing an element depends on
whether there is one. A row of additions comes to adding all their elements.
-/

namespace PriorityQueue.Heap

universe u v

variable {α : Type u} {ρ : Type v} [Precedence ρ α] [Footprint α] {heap rest : Heap α ρ}
  {element : α}

/-- A batch whose announcement storage can hold is added. -/
theorem step_extend_of_fits {batch : Batch α}
    (fits : heap.size + batch.announced ≤ capacityLimit α) :
    heap.step (.extend batch) =
      (.ok .done, pushAll { heap with spare := max heap.spare batch.announced } batch.elements) := by
  have granted := reserve_eq_ok_iff.2 ⟨fits, rfl⟩
  simp only [step, perform, extend, granted]

/-- A batch that announces more than storage can hold is refused. -/
theorem step_extend_of_exceeds {batch : Batch α}
    (exceeds : capacityLimit α < heap.size + batch.announced) :
    heap.step (.extend batch) = (.error .capacityOverflow, heap) := by
  simp only [step, perform, extend, reserve_of_exceeds exceeds]

/-- Room that storage can have is promised. -/
theorem step_reserve_of_fits {additional : Nat}
    (fits : heap.size + additional ≤ capacityLimit α) :
    heap.step (.reserve additional) =
      (.ok .done, { heap with spare := max heap.spare additional }) := by
  have granted := reserve_eq_ok_iff.2 ⟨fits, rfl⟩
  simp only [step, perform, granted]

/-- More room than storage can have is refused. -/
theorem step_reserve_of_exceeds {additional : Nat}
    (exceeds : capacityLimit α < heap.size + additional) :
    heap.step (.reserve additional) = (.error .capacityOverflow, heap) := by
  simp only [step, perform, reserve_of_exceeds exceeds]

/-- A removal gives the element that is taken out. -/
theorem step_pop_of_some (popped : heap.pop? = some (element, rest)) :
    heap.step .pop = (.ok (.item (some element)), rest) := by
  simp only [step, perform, popped]

/-- A removal that takes nothing out gives nothing and changes nothing. -/
theorem step_pop_of_none (vacant : heap.pop? = none) :
    heap.step .pop = (.ok (.item none), heap) := by
  simp only [step, perform, vacant]

/-- The top of a heap that shows an element is that element. -/
theorem step_top_of_some (shown : heap.peek? = some element) :
    heap.step .top = (.ok (.element element), heap) := by
  simp only [step, perform, top, shown]

/-- A heap that shows nothing has no top. -/
theorem step_top_of_none (hidden : heap.peek? = none) :
    heap.step .top = (.error .emptyTop, heap) := by
  simp only [step, perform, top, hidden]

/-- Elements added one by one are added in a run. -/
theorem run_map_push (heap : Heap α ρ) (elements : List α) :
    (heap.run (elements.map .push)).2 = heap.pushAll elements := by
  induction elements generalizing heap with
  | nil => rfl
  | cons element elements hypothesis => exact hypothesis (heap.push element)

end PriorityQueue.Heap
