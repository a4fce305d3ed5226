import PriorityQueue.Proofs.Invariant

/-!
# Removals in a row

`Heap.Pops` relates a heap to the elements that leave it one after the other and to the heap that
remains. Emptying a heap in order is the longest such row. For every rule nothing is lost or
invented; under a ranking rule the elements leave in non-decreasing order, and none of them is
preceded by one that stays.
-/

namespace PriorityQueue.Heap

universe u v

variable {α : Type u} {ρ : Type v} [Precedence ρ α]

/-- The elements leave the heap one after the other, and the last heap remains. -/
inductive Pops : Heap α ρ → List α → Heap α ρ → Prop
  | nil (heap : Heap α ρ) : Pops heap [] heap
  | cons {heap rest last : Heap α ρ} {element : α} {elements : List α}
      (popped : heap.pop? = some (element, rest)) (later : Pops rest elements last) :
      Pops heap (element :: elements) last

/-- The heap can be emptied in a row, and the elements that leave are those of `popAll`. -/
theorem pops_popAll (heap : Heap α ρ) : heap.Pops heap.popAll.1 heap.popAll.2 := by
  fun_induction popAll heap with
  | case1 heap vacant => exact .nil heap
  | case2 heap element rest popped elements last emptied hypothesis =>
    rw [emptied] at hypothesis
    exact .cons popped hypothesis

/-- A heap emptied in order has nothing left. -/
theorem toList_popAll (heap : Heap α ρ) : heap.popAll.2.toList = [] := by
  fun_induction popAll heap with
  | case1 heap vacant => exact pop?_eq_none_iff.1 vacant
  | case2 heap element rest popped elements last emptied hypothesis =>
    rwa [emptied] at hypothesis

/-- Any number of elements up to the size can be taken out in a row. -/
theorem exists_pops {heap : Heap α ρ} {count : Nat} (enough : count ≤ heap.size) :
    ∃ elements last, heap.Pops elements last ∧ elements.length = count := by
  induction count generalizing heap with
  | zero => exact ⟨[], heap, .nil heap, rfl⟩
  | succ count hypothesis =>
    cases popped : heap.pop? with
    | none =>
      have vacant : heap.toList = [] := pop?_eq_none_iff.1 popped
      have sized : heap.toList.length = heap.size := length_toList heap
      rw [vacant, List.length_nil] at sized
      omega
    | some removal =>
      obtain ⟨element, rest⟩ := removal
      have fewer : rest.size + 1 = heap.size := size_of_pop? popped
      obtain ⟨elements, last, row, counted⟩ := hypothesis (show count ≤ rest.size by omega)
      refine ⟨element :: elements, last, .cons popped row, ?_⟩
      rw [List.length_cons, counted]

namespace Pops

variable {heap last : Heap α ρ} {elements : List α}

/-- The elements that left and those that stay are those of the heap. -/
theorem perm (row : heap.Pops elements last) : (elements ++ last.toList).Perm heap.toList := by
  induction row with
  | nil heap => exact .refl _
  | cons popped later hypothesis =>
    exact (hypothesis.cons _).trans (toList_perm_of_pop? popped)

/-- The elements in leaving order begin with any row of removals. -/
theorem toSorted (row : heap.Pops elements last) : heap.toSorted = elements ++ last.toSorted := by
  induction row with
  | nil heap => rfl
  | cons popped later hypothesis =>
    rw [toSorted_eq, popped]
    simp only [hypothesis, List.cons_append]

/-- A row of as many removals as there are elements gives all of them in leaving order. -/
theorem toSorted_of_length (row : heap.Pops elements last)
    (complete : elements.length = heap.size) : heap.toSorted = elements := by
  have stored : heap.toList.length = heap.size := length_toList heap
  have lengths := row.perm.length_eq
  rw [List.length_append] at lengths
  have left : last.toList = [] := List.length_eq_zero_iff.1 (by omega)
  have vacant : last.pop? = none := pop?_eq_none_iff.2 left
  rw [row.toSorted, toSorted_eq, vacant, List.append_nil]

/-- Asking for the removals one by one gives the elements of the row. -/
theorem run [Footprint α] (row : heap.Pops elements last) :
    heap.run (List.replicate elements.length .pop) =
      (elements.map fun element => .ok (.item (some element)), last) := by
  induction row with
  | nil heap => rfl
  | cons popped later hypothesis =>
    simp only [List.length_cons, List.replicate_succ, Heap.run, step, perform, popped, hypothesis,
      List.map_cons]

/-- In a heap in order no element that stays comes before one that left. -/
theorem not_less_remaining_of_rankedBy {order : α → α → Bool} (row : heap.Pops elements last)
    (ranked : heap.RankedBy order) :
    ∀ element ∈ elements, ∀ other ∈ last.toList, order other element = false := by
  induction row with
  | nil heap =>
    intro element member
    exact absurd member List.not_mem_nil
  | @cons heap rest last first elements popped later hypothesis =>
    intro element member other stays
    rcases List.mem_cons.1 member with rfl | member
    · have there : other ∈ rest.toList := later.perm.subset (List.mem_append_right _ stays)
      have before : other ∈ heap.toList :=
        (toList_perm_of_pop? popped).subset (List.mem_cons_of_mem _ there)
      exact ranked.not_less_popped popped other before
    · exact hypothesis ((invariant_rankedBy order).pop _ _ _ ranked popped)
        element member other stays

/-- From a heap in order elements leave in non-decreasing order. -/
theorem nonDecreasing_of_rankedBy {order : α → α → Bool} (row : heap.Pops elements last)
    (ranked : heap.RankedBy order) : NonDecreasing order elements := by
  induction row with
  | nil heap => exact .nil
  | @cons heap rest last first elements popped later hypothesis =>
    apply List.Pairwise.cons
    · intro other member
      have there : other ∈ rest.toList := later.perm.subset (List.mem_append_left _ member)
      have before : other ∈ heap.toList :=
        (toList_perm_of_pop? popped).subset (List.mem_cons_of_mem _ there)
      exact ranked.not_less_popped popped other before
    · exact hypothesis ((invariant_rankedBy order).pop _ _ _ ranked popped)

/-- Under a ranking rule no element that stays precedes one that left. -/
theorem not_less_remaining (row : heap.Pops elements last) (ranked : heap.Ranked) :
    ∀ element ∈ elements, ∀ other ∈ last.toList, precedes heap.rule other element = false :=
  row.not_less_remaining_of_rankedBy ranked.rankedBy

/-- Under a ranking rule elements leave in non-decreasing order. -/
theorem nonDecreasing (row : heap.Pops elements last) (ranked : heap.Ranked) :
    NonDecreasing (precedes heap.rule) elements :=
  row.nonDecreasing_of_rankedBy ranked.rankedBy

end Pops

/-- The elements in leaving order are those of the heap. -/
theorem toSorted_perm (heap : Heap α ρ) : heap.toSorted.Perm heap.toList := by
  have row := (pops_popAll heap).perm
  rwa [toList_popAll, List.append_nil] at row

/-- The elements of a heap in order are in non-decreasing order when they have left. -/
theorem RankedBy.nonDecreasing_toSorted {order : α → α → Bool} {heap : Heap α ρ}
    (ranked : heap.RankedBy order) : NonDecreasing order heap.toSorted :=
  (pops_popAll heap).nonDecreasing_of_rankedBy ranked

/-- Under a ranking rule the elements in leaving order are in non-decreasing order. -/
theorem Ranked.nonDecreasing_toSorted {heap : Heap α ρ} (ranked : heap.Ranked) :
    NonDecreasing (precedes heap.rule) heap.toSorted :=
  ranked.rankedBy.nonDecreasing_toSorted

end PriorityQueue.Heap
