import PriorityQueue.Operation.Lemmas
import PriorityQueue.Proofs.NumberOrder
import PriorityQueue.Proofs.Removal

/-!
# Removals under a partial order

A rule that leaves some pairs undecided without ranking the elements, as divisibility does, still
has its heap order repaired by the lowering that follows a removal: the winner is only ever put
above elements that it beats, that lost against it or that what it beats had beaten, and none of
these can precede it. So elements can be taken out of storage in order for as long as there are any.
-/

namespace PriorityQueue

universe u v

variable {α : Type u} {ρ : Type v} [Precedence ρ α]

namespace Heap

variable {heap last : Heap α ρ} {elements : List α}

/-- Removals in a row leave the rule. -/
theorem Pops.rule_eq (row : heap.Pops elements last) : last.rule = heap.rule := by
  induction row with
  | nil heap => rfl
  | cons popped later hypothesis => exact hypothesis.trans (rule_of_pop? popped)

/-- Removals in a row keep storage in order under a strict partial order. -/
theorem Pops.heapOrdered (row : heap.Pops elements last)
    (order : StrictPartialOrder (precedes heap.rule)) (ordered : heap.IsOrdered) :
    last.IsOrdered := by
  induction row with
  | nil heap => exact ordered
  | @cons heap rest last element elements popped later hypothesis =>
    have rule : rest.rule = heap.rule := rule_of_pop? popped
    apply hypothesis
    · rwa [rule]
    · unfold IsOrdered
      rw [rule]
      exact HeapOrdered.pop ordered order.lowers popped

/-- A heap without elements stays as it is however often an element is to be taken out. -/
theorem run_replicate_pop_of_vacant [Footprint α] (vacant : heap.pop? = none) (count : Nat) :
    (heap.run (List.replicate count .pop)).2 = heap := by
  induction count with
  | zero => rfl
  | succ count hypothesis =>
    simp only [List.replicate_succ, run, step_pop_of_none vacant]
    exact hypothesis

/-- What any number of removals leaves is what is left by as many of them as take something out. -/
theorem exists_pops_run_replicate_pop [Footprint α] (heap : Heap α ρ) (count : Nat) :
    ∃ elements, heap.Pops elements (heap.run (List.replicate count .pop)).2 := by
  induction count generalizing heap with
  | zero => exact ⟨[], .nil heap⟩
  | succ count hypothesis =>
    cases popped : heap.pop? with
    | none =>
      rw [run_replicate_pop_of_vacant popped]
      exact ⟨[], .nil heap⟩
    | some removal =>
      obtain ⟨element, rest⟩ := removal
      obtain ⟨elements, row⟩ := hypothesis rest
      refine ⟨element :: elements, ?_⟩
      simp only [List.replicate_succ, run, step_pop_of_some popped]
      exact .cons popped row

end Heap

/-- Under a strict partial order, removals keep storage in which no element precedes its parent so:
after one, and after any number of them. -/
theorem pops_keep_heap_order [Footprint α] {start : Heap α ρ}
    (order : StrictPartialOrder (precedes start.rule))
    (ordered : HeapOrdered (precedes start.rule) start.storage) :
    (∀ element rest, start.pop? = some (element, rest) →
      HeapOrdered (precedes start.rule) rest.storage) ∧
    ∀ count, HeapOrdered (precedes start.rule)
      (start.run (List.replicate count .pop)).2.storage := by
  constructor
  · intro element rest popped
    exact ordered.pop order.lowers popped
  · intro count
    obtain ⟨elements, row⟩ := start.exists_pops_run_replicate_pop count
    have ends := row.heapOrdered order ordered
    rwa [Heap.IsOrdered, row.rule_eq] at ends

/-- Under divisibility, where four and nine each come before thirty-six and are otherwise tied,
three removals leave numbers none of which divides the one at its parent. -/
theorem pops_keep_divisors_in_order :
    let start : Heap Nat (Nat → Nat → Bool) := ⟨#[2, 9, 4, 27, 45, 8, 36], divisorFirst, 0⟩
    StrictPartialOrder (precedes start.rule) ∧ HeapOrdered (precedes start.rule) start.storage ∧
      (start.run (List.replicate 3 .pop)).2.toList = [45, 36, 8, 27] ∧
      HeapOrdered (precedes start.rule) (start.run (List.replicate 3 .pop)).2.storage := by
  intro start
  have order : StrictPartialOrder (precedes start.rule) := strictPartialOrder_divisorFirst
  have ordered : HeapOrdered (precedes start.rule) start.storage := by
    rw [heapOrdered_iff_children]
    decide
  exact ⟨order, ordered, by decide +kernel, (pops_keep_heap_order order ordered).2 3⟩

end PriorityQueue
