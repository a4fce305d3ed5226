import PriorityQueue.Proofs.NumberOrder
import PriorityQueue.Proofs.Removal

/-!
# Answers about tied elements

A rule that ranks the elements may answer about tied pairs as it likes: that one of two precedes the
other, that each does, even that an element precedes itself. The loops then take other paths and
leave ties in other places, but they keep heap order under the ranking, and with it everything that
depends on it. The rule "not greater" is the usual case.
-/

namespace PriorityQueue

universe u v

variable {α : Type u} {ρ : Type v} [Precedence ρ α]

/-- A rule that agrees with a strict weak order up to ties keeps a heap, through any run from an
empty one, in order under that order: no element comes before its parent, none comes before the
top, and the elements leave in non-decreasing order. -/
theorem run_keeps_order_up_to_ties [Footprint α] {start : Heap α ρ} {order : α → α → Bool}
    (weak : StrictWeakOrder order) (agrees : AgreesUpToTies order (precedes start.rule))
    (vacant : start.toList = []) (operations : List (Operation α)) :
    let heap := (start.run operations).2
    (∀ child (inside : child < heap.storage.size), 0 < child →
      order heap.storage[child] heap.storage[(child - 1) / 2] = false) ∧
    (heap.toList ≠ [] → ∃ first, heap.top = .ok first ∧ first ∈ heap.toList ∧
      ∀ element ∈ heap.toList, order element first = false) ∧
    heap.toSorted.Perm heap.toList ∧ NonDecreasing order heap.toSorted := by
  intro heap
  have ranked : heap.RankedBy order :=
    (Heap.invariant_rankedBy order).run (.of_vacant weak agrees vacant) operations
  refine ⟨?_, ranked.exists_top, Heap.toSorted_perm heap, ranked.nonDecreasing_toSorted⟩
  intro child inside below
  have higher : parent child < child := parent_lt below
  exact heapOrdered_iff.1 ranked.ordered child inside (by omega) below

/-- Integers ranked by their tens leave in the order of their tens under a rule that calls each of
two numbers with the same tens the earlier one. -/
theorem run_keeps_order_of_tens :
    let tens : Int → Int → Bool := fun left right => NaturalOrder.lt (left / 10) (right / 10)
    let notAfter : Int → Int → Bool := fun left right => NaturalOrder.le (left / 10) (right / 10)
    let heap := ((Heap.empty notAfter).run [.push 25, .extend ⟨[13, 11, 27], 3⟩, .pop, .push 12]).2
    StrictWeakOrder tens ∧ AgreesUpToTies tens notAfter ∧ notAfter 13 11 = true ∧
      notAfter 11 13 = true ∧ heap.toList = [12, 13, 25, 27] ∧
      heap.toSorted = [12, 13, 27, 25] ∧ NonDecreasing tens heap.toSorted := by
  intro tens notAfter heap
  have weak : StrictWeakOrder tens := strictWeakOrder_int.along (· / 10)
  have agrees : AgreesUpToTies tens notAfter := by
    constructor
    · intro left right before
      exact Bool.or_eq_true_iff.2 (.inl before)
    · intro left right before
      simp only [tens, notAfter, NaturalOrder.le, NaturalOrder.lt, NaturalOrder.same,
        Bool.or_eq_true, decide_eq_true_eq, decide_eq_false_iff_not] at before ⊢
      omega
  have vacant : (Heap.empty notAfter : Heap Int (Int → Int → Bool)).toList = [] := rfl
  refine ⟨weak, agrees, by decide, by decide, by decide +kernel, by decide +kernel, ?_⟩
  exact (run_keeps_order_up_to_ties weak agrees vacant _).2.2.2

end PriorityQueue
