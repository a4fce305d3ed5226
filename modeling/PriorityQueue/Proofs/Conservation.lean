import Mathlib.Algebra.Order.Group.Multiset
import PriorityQueue.Cursor.Lemmas
import PriorityQueue.Operation.Lemmas
import PriorityQueue.Proofs.Bag
import PriorityQueue.Proofs.WordHeap
import PriorityQueue.Sift.Rounds

/-!
# Nothing is lost and nothing appears

Whatever the rule answers, a heap only moves its elements: those stored and those that have left are
together those that were there and those that came in. `Operation.inflow` and `Operation.outflow`
read off the outcome of an operation what came in and what left, and one balance for a step gives
the balance of a run. None of this, and nothing of what is said here about removals and about the
loops that sift, requires the rule to be an order. But the loops reckon with words, and where words
do not suffice, an element that is taken out for the last time never is.
-/

namespace PriorityQueue

universe u v

variable {α : Type u} {ρ : Type v}

/-- The elements that an operation with this outcome has brought in. -/
def Operation.inflow : Operation α → Except Failure (Answer α ρ) → Multiset α
  | .push element, .ok _ => {element}
  | .extend batch, .ok _ => batch.elements
  | _, _ => 0

/-- The elements that an operation with this outcome has taken out of a bag: the ones that it gives
in answer, or the whole bag if it lets go of all elements at once. -/
def Operation.outflow (bag : Multiset α) :
    Operation α → Except Failure (Answer α ρ) → Multiset α
  | .pop, .ok (.item element) => element.toList
  | .popAll, .ok (.items elements) => elements
  | .clear, .ok _ => bag
  | .drain _, .ok _ => bag
  | _, _ => 0

namespace Heap

variable [Precedence ρ α]

/-- A heap that has elements gives the one that it shows, and has one fewer then. -/
theorem exists_pop?_of_ne_nil {heap : Heap α ρ} (occupied : heap.toList ≠ []) :
    ∃ element rest, heap.pop? = some (element, rest) ∧ heap.peek? = some element ∧
      rest.size + 1 = heap.size := by
  cases popped : heap.pop? with
  | none => exact absurd (pop?_eq_none_iff.1 popped) occupied
  | some removal =>
    exact ⟨removal.1, removal.2, rfl, peek?_of_pop? popped, size_of_pop? popped⟩

/-- The loop that follows an addition stays inside the longer storage and is done after at most one
round for each element. -/
theorem iterate_lift_push (heap : Heap α ρ) (element : α) :
    Round.iterate (Round.lift (precedes heap.rule)) (heap.size + 1) (heap.storage.push element)
      heap.size = some (heap.push element).storage :=
  Round.iterate_lift (precedes heap.rule) (heap.storage.push element).toVector heap.storage.size
    (by simp) (heap.size + 1) (Nat.lt_succ_self _)

/-- The loop that settles the root stays inside the storage and is done after at most one round for
each element, or after one if there is none. -/
theorem iterate_lower_settleRoot (less : α → α → Bool) (storage : Array α) :
    Round.iterate (Round.lower less) (storage.size + 1) storage 0 =
      some (settleRoot less storage) := by
  unfold settleRoot
  split
  case isTrue nonempty =>
    exact Round.iterate_lower less storage.toVector ⟨0, nonempty⟩ (storage.size + 1) (by omega)
  case isFalse vacant =>
    have none : storage.size = 0 := by omega
    simp [Round.iterate, Round.lower, Round.challenge?, none]

/-- The loop that follows a removal stays inside the storage that is left and is done after at most
one round for each element that was there. -/
theorem iterate_lower_of_pop? {heap rest : Heap α ρ} {element : α}
    (popped : heap.pop? = some (element, rest)) :
    Round.iterate (Round.lower (precedes heap.rule)) heap.size
      (heap.storage.swapIfInBounds 0 (heap.size - 1)).pop 0 = some rest.storage := by
  unfold pop? at popped
  split at popped
  case isTrue nonempty =>
    obtain ⟨rfl, rfl⟩ := popped
    have last : heap.storage.size - 1 < heap.storage.size := by omega
    have shape : heap.storage.swapIfInBounds 0 (heap.storage.size - 1) =
        heap.storage.swap 0 (heap.storage.size - 1) := by
      simp only [Array.swapIfInBounds, dif_pos nonempty, dif_pos last]
    have settled := iterate_lower_settleRoot (precedes heap.rule)
      (heap.storage.swap 0 (heap.storage.size - 1)).pop
    have rounds : (heap.storage.swap 0 (heap.storage.size - 1)).pop.size + 1 = heap.size := by
      simp only [Array.size_pop, Array.size_swap, size]
      omega
    rw [rounds] at settled
    show Round.iterate _ heap.size (heap.storage.swapIfInBounds 0 (heap.storage.size - 1)).pop 0 = _
    rw [shape]
    exact settled
  case isFalse => simp at popped

/-- All elements leave a heap that is emptied in order. -/
theorem length_toSorted (heap : Heap α ρ) : heap.toSorted.length = heap.size := by
  rw [(toSorted_perm heap).length_eq, length_toList]

variable [Footprint α]

/-- The elements in leaving order are those that as many removals give as there are elements, and
nothing stays behind. -/
theorem run_replicate_pop (heap : Heap α ρ) :
    (heap.run (List.replicate heap.size .pop)).1 =
        heap.toSorted.map (fun element => .ok (.item (some element))) ∧
      (heap.run (List.replicate heap.size .pop)).2.toList = [] := by
  have row := (pops_popAll heap).run
  have counted : heap.popAll.1.length = heap.size := length_toSorted heap
  rw [counted] at row
  rw [row]
  exact ⟨rfl, toList_popAll heap⟩

/-- The elements that a run has brought in, operation by operation. -/
def inflow (heap : Heap α ρ) : List (Operation α) → Multiset α
  | [] => 0
  | operation :: operations =>
    operation.inflow (heap.step operation).1 + (heap.step operation).2.inflow operations

/-- The elements that a run has taken out, operation by operation. -/
def outflow (heap : Heap α ρ) : List (Operation α) → Multiset α
  | [] => 0
  | operation :: operations =>
    operation.outflow heap.bag (heap.step operation).1 +
      (heap.step operation).2.outflow operations

/-- What is stored after an operation and what the operation took out are what was stored before
and what it brought in. -/
theorem bag_step_add_outflow (heap : Heap α ρ) (operation : Operation α) :
    (heap.step operation).2.bag + operation.outflow heap.bag (heap.step operation).1 =
      operation.inflow (heap.step operation).1 + heap.bag := by
  cases operation with
  | push element =>
    show (heap.push element).bag + 0 = {element} + heap.bag
    rw [bag_push, add_zero, Multiset.singleton_add]
  | extend batch =>
    by_cases fits : heap.size + batch.announced ≤ capacityLimit α
    · rw [step_extend_of_fits fits]
      show (pushAll _ batch.elements).bag + 0 = batch.elements + heap.bag
      rw [bag_pushAll, add_zero]
      rfl
    · rw [step_extend_of_exceeds (Nat.lt_of_not_le fits)]
      exact add_comm heap.bag 0
  | pop =>
    cases popped : heap.pop? with
    | none =>
      rw [step_pop_of_none popped]
      exact add_comm heap.bag 0
    | some removal =>
      have taken := toList_perm_of_pop? popped
      rw [step_pop_of_some popped]
      show removal.2.bag + {removal.1} = 0 + heap.bag
      rw [zero_add, add_comm, Multiset.singleton_add]
      exact Multiset.coe_eq_coe.2 taken
  | popAll =>
    show heap.popAll.2.bag + heap.toSorted = 0 + heap.bag
    rw [bag_popAll, zero_add, zero_add]
    exact Multiset.coe_eq_coe.2 (toSorted_perm heap)
  | clear | drain => rfl
  | top =>
    cases shown : heap.peek? with
    | none =>
      rw [step_top_of_none shown]
      exact add_comm heap.bag 0
    | some element =>
      rw [step_top_of_some shown]
      exact add_comm heap.bag 0
  | reserve additional =>
    by_cases fits : heap.size + additional ≤ capacityLimit α
    · rw [step_reserve_of_fits fits]
      exact add_comm heap.bag 0
    · rw [step_reserve_of_exceeds (Nat.lt_of_not_le fits)]
      exact add_comm heap.bag 0
  | peek | size | isEmpty | storage | visit | compare | shrinkToFit | holds | describe
  | describeRule => exact add_comm heap.bag 0

/-- What is stored after a run and what the run took out are what was stored before and what it
brought in. -/
theorem bag_run_add_outflow (heap : Heap α ρ) (operations : List (Operation α)) :
    (heap.run operations).2.bag + heap.outflow operations =
      heap.inflow operations + heap.bag := by
  induction operations generalizing heap with
  | nil => exact add_comm heap.bag 0
  | cons operation operations hypothesis =>
    have balance := bag_step_add_outflow heap operation
    have later := hypothesis (heap.step operation).2
    simp only [run, inflow, outflow]
    calc
      ((heap.step operation).2.run operations).2.bag +
            (operation.outflow heap.bag (heap.step operation).1 +
              (heap.step operation).2.outflow operations)
          = operation.outflow heap.bag (heap.step operation).1 +
              (((heap.step operation).2.run operations).2.bag +
                (heap.step operation).2.outflow operations) := add_left_comm _ _ _
      _ = (heap.step operation).2.inflow operations + ((heap.step operation).2.bag +
            operation.outflow heap.bag (heap.step operation).1) := by
          rw [later, add_left_comm, add_comm (operation.outflow _ _)]
      _ = operation.inflow (heap.step operation).1 + (heap.step operation).2.inflow operations +
            heap.bag := by
          rw [balance, add_left_comm, add_assoc]

end Heap

/-- Whatever the rule answers, a run that words suffice for comes with words to what it comes to with
numbers. The elements that the heap holds then and those that have left it are those that were there
and those that came in. A further operation comes with words to what it comes to with numbers, if
words suffice for it. A heap that has elements then gives the one that it shows and has one fewer,
and emptying it in order gives what as many removals give as there are elements. An empty heap gives
nothing and stays as it is, and a cursor that drains a heap gives all elements in level order. The
loops that follow an addition and a removal are done within a known number of rounds, and every
position that they read or swap lies inside the storage. -/
theorem run_conserves_elements [Precedence ρ α] [Footprint α] {start : Heap α ρ}
    {operations : List (Operation α)} (words : Word.SufficeForAll start operations) :
    (∀ rounds ≥ wordLimit, Word.run? rounds start operations = some (start.run operations)) ∧
    (start.run operations).2.bag + start.outflow operations =
      start.inflow operations + start.bag ∧
    (let heap := (start.run operations).2
     (∀ operation, Word.SufficeFor heap operation → ∀ rounds ≥ wordLimit,
        Word.step? rounds heap operation = some (heap.step operation)) ∧
      (∀ element, Word.SufficeFor heap (.push element) →
        Round.iterate (Round.lift (precedes heap.rule)) (heap.size + 1)
          (heap.storage.push element) heap.size = some (heap.step (.push element)).2.storage) ∧
      (Word.SufficeFor heap .pop → heap.toList ≠ [] → ∃ element rest,
        (heap.step .top).1 = .ok (.element element) ∧
        (heap.step .peek).1 = .ok (.item (some element)) ∧
        heap.step .pop = (.ok (.item (some element)), rest) ∧
        rest.size + 1 = heap.size ∧
        Round.iterate (Round.lower (precedes heap.rule)) heap.size
          (heap.storage.swapIfInBounds 0 (heap.size - 1)).pop 0 = some rest.storage) ∧
      (heap.toList = [] → heap.step .pop = (.ok (.item none), heap)) ∧
      (Word.SufficeFor heap .popAll →
        (heap.step .popAll).1 = .ok (.items heap.toSorted) ∧
        heap.toSorted.length = heap.size ∧
        (heap.run (List.replicate heap.size .pop)).1 =
          heap.toSorted.map (fun element => .ok (.item (some element))) ∧
        (heap.run (List.replicate heap.size .pop)).2.toList = [] ∧
        ∀ rounds ≥ wordLimit, Word.run? rounds heap (List.replicate heap.size .pop) =
          some (heap.run (List.replicate heap.size .pop))) ∧
      (heap.step (.drain [.collect])).1 = .ok (.walk .draining [.items heap.toList])) := by
  refine ⟨fun rounds enough => Word.run?_eq words enough,
    start.bag_run_add_outflow operations, ?_⟩
  generalize (start.run operations).2 = heap
  refine ⟨fun operation next rounds enough => Word.step?_eq next enough,
    fun element _ => heap.iterate_lift_push element, ?_, ?_, ?_, ?_⟩
  · intro _ occupied
    obtain ⟨element, rest, popped, shown, fewer⟩ := Heap.exists_pop?_of_ne_nil occupied
    refine ⟨element, rest, ?_, ?_, Heap.step_pop_of_some popped, fewer,
      Heap.iterate_lower_of_pop? popped⟩
    · rw [Heap.step_top_of_some shown]
    · simp only [Heap.step, Heap.perform, shown]
  · intro vacant
    exact Heap.step_pop_of_none (Heap.pop?_eq_none_iff.2 vacant)
  · intro next
    refine ⟨rfl, heap.length_toSorted, heap.run_replicate_pop.1, heap.run_replicate_pop.2, ?_⟩
    intro rounds enough
    exact Word.run?_eq (Word.sufficeForAll_replicate_pop next heap.size) enough
  · simp [Heap.step, Heap.perform, Cursor.walk, Cursor.respond, Heap.toList]

/-- Words suffice for a run of numbers that beat each other in a circle: three come in, and the two
that leave are not the two smallest. -/
theorem run_conserves_circle :
    let start : Heap Int (Int → Int → Bool) := .empty beatsInCircle
    let operations : List (Operation Int) := [.push 4, .extend ⟨[2, 9], 2⟩, .pop, .pop]
    Word.SufficeForAll start operations ∧
      Word.run? wordLimit start operations = some (start.run operations) ∧
      (start.run operations).2.toList = [4] ∧ start.outflow operations = {9, 2} ∧
      {4} + start.outflow operations = start.inflow operations := by
  intro start operations
  have words : Word.SufficeForAll start operations := by
    refine ⟨?_, ?_, .inl ?_, .inl ?_, trivial⟩
    · show start.size < wordLimit
      decide
    · show (start.step (.push 4)).2.size + 2 ≤ wordLimit
      decide +kernel
    · decide +kernel
    · decide +kernel
  have conserved := run_conserves_elements words
  have left : (start.run operations).2.toList = [4] := by decide +kernel
  have balance := conserved.2.1
  have held : (start.run operations).2.bag = {4} := congrArg Multiset.ofList left
  have nothing : start.bag = 0 := rfl
  rw [held, nothing, add_zero] at balance
  exact ⟨words, conserved.1 wordLimit (Nat.le_refl _), left, by decide +kernel, balance⟩

/-- A heap of units under a rule that puts each before each can be filled until a word can count no
more of them, with words as with numbers. It shows an element then, but with words a removal does
not end after any number of rounds. -/
theorem units_never_leave_full_storage :
    let always : Unit → Unit → Bool := fun _ _ => true
    let start : Heap Unit (Unit → Unit → Bool) := .empty always
    let fill : List (Operation Unit) := List.replicate wordLimit (.push ())
    (start.run fill).2.size = wordLimit ∧ (start.run fill).2.peek? = some () ∧
      ∀ rounds ≥ wordLimit, Word.run? rounds start fill = some (start.run fill) ∧
        Word.run? rounds start (fill ++ [.pop]) = none := by
  intro always start fill
  have added : fill = (List.replicate wordLimit ()).map .push := List.map_replicate.symm
  have words : Word.SufficeForAll start fill := by
    rw [added]
    apply Word.sufficeForAll_map_push
    rw [List.length_replicate]
    exact Nat.le_of_eq (Nat.zero_add wordLimit)
  have filled : (start.run fill).2 = start.pushAll (List.replicate wordLimit ()) := by
    rw [added, Heap.run_map_push]
  have size : (start.run fill).2.size = wordLimit := by
    rw [filled, Heap.size_pushAll, List.length_replicate]
    exact Nat.zero_add wordLimit
  have rule : (start.run fill).2.rule = always := by rw [filled, Heap.rule_pushAll]; rfl
  have occupied : (start.run fill).2.toList ≠ [] := by
    rw [← List.length_pos_iff, Heap.length_toList, size]
    decide
  obtain ⟨element, rest, -, shown, -⟩ := Heap.exists_pop?_of_ne_nil occupied
  have never : ∀ rounds, Word.pop? rounds (start.run fill).2 = none := by
    apply Word.pop?_of_full _ size
    rw [rule]
    exact fun _ _ => rfl
  refine ⟨size, shown, ?_⟩
  intro rounds enough
  refine ⟨Word.run?_eq words enough, Word.run?_concat_of_none words enough ?_⟩
  rw [Word.step?, never]
  rfl

end PriorityQueue
