import PriorityQueue.Operation.Lemmas
import PriorityQueue.Proofs.TopContract

/-!
# Elements that leave in order

A queue that serves as a schedule is added to and taken from in turn, and what is added never comes
before what was taken last. `Heap.departures` are the elements that leave in a run. Whatever the
turns are, they leave in non-decreasing order: no element in the queue ever comes before one that
has left, and an addition that does not come before the last of these comes before none of them.
-/

namespace PriorityQueue

universe u v

variable {α : Type u} {ρ : Type v} {order : α → α → Bool}

/-- What does not come before the last element of a list in order comes before none of them. -/
theorem NonDecreasing.not_less_of_getLast? (weak : StrictWeakOrder order) {elements : List α}
    (sorted : NonDecreasing order elements) {element : α}
    (late : ∀ last, elements.getLast? = some last → order element last = false) :
    ∀ earlier ∈ elements, order element earlier = false := by
  intro earlier member
  cases found : elements.getLast? with
  | none =>
    rw [List.getLast?_eq_none_iff.1 found] at member
    exact absurd member List.not_mem_nil
  | some last =>
    obtain ⟨front, rfl⟩ := List.getLast?_eq_some_iff.1 found
    have behind : order element last = false := late last found
    rcases List.mem_append.1 member with member | member
    · have upper := (List.pairwise_append.1 sorted).2.2 earlier member last List.mem_cons_self
      exact weak.not_less_trans behind upper
    · rwa [List.mem_singleton.1 member]

/-- The element that an operation with this outcome has taken out from the top, if it has. -/
def Operation.departing? : Operation α → Except Failure (Answer α ρ) → Option α
  | .pop, .ok (.item element) => element
  | _, _ => none

namespace Heap

variable [Precedence ρ α]

/-- No element of a heap in order comes before one of those that have left, and these are in order
themselves. -/
structure Trails (order : α → α → Bool) (gone : List α) (heap : Heap α ρ) : Prop where
  /-- The heap is in order. -/
  ranked : heap.RankedBy order
  /-- Those that have left did so in order. -/
  sorted : NonDecreasing order gone
  /-- No element comes before one that has left. -/
  behind : ∀ element ∈ heap.toList, ∀ earlier ∈ gone, order element earlier = false

namespace Trails

variable {gone : List α} {heap rest : Heap α ρ}

/-- When nothing has left yet there is nothing to come before. -/
theorem of_rankedBy (ranked : heap.RankedBy order) : heap.Trails order [] where
  ranked := ranked
  sorted := .nil
  behind _ _ _ member := absurd member List.not_mem_nil

/-- An element that does not come before the last one that left may be added. -/
theorem push (trails : heap.Trails order gone) {element : α}
    (late : ∀ last, gone.getLast? = some last → order element last = false) :
    (heap.push element).Trails order gone where
  ranked := (invariant_rankedBy order).push heap element trails.ranked
  sorted := trails.sorted
  behind := by
    intro other member
    rcases List.mem_cons.1 ((toList_push_perm heap element).subset member) with rfl | member
    · exact trails.sorted.not_less_of_getLast? trails.ranked.weak late
    · exact trails.behind other member

/-- The element that is taken out is one more that has left. -/
theorem pop (trails : heap.Trails order gone) {element : α}
    (popped : heap.pop? = some (element, rest)) : rest.Trails order (gone ++ [element]) := by
  have stored := toList_perm_of_pop? popped
  have taken : element ∈ heap.toList := stored.subset List.mem_cons_self
  constructor
  · exact (invariant_rankedBy order).pop heap element rest trails.ranked popped
  · refine List.pairwise_append.2 ⟨trails.sorted, List.pairwise_singleton _ element, ?_⟩
    intro earlier member other single
    rw [List.mem_singleton.1 single]
    exact trails.behind element taken earlier member
  · intro other stays earlier member
    have before : other ∈ heap.toList := stored.subset (List.mem_cons_of_mem element stays)
    rcases List.mem_append.1 member with member | member
    · exact trails.behind other before earlier member
    · rw [List.mem_singleton.1 member]
      exact trails.ranked.not_less_popped popped other before

variable [Footprint α]

/-- Neither an addition that does not come before the last element that left nor a removal lets an
element come before one that has left. -/
theorem step (trails : heap.Trails order gone) {operation : Operation α}
    (kind : operation.PushesOrPops)
    (late : ∀ element last, operation = .push element → gone.getLast? = some last →
      order element last = false) :
    (heap.step operation).2.Trails order
      (gone ++ (operation.departing? (heap.step operation).1).toList) := by
  cases operation with
  | push element =>
    show (heap.push element).Trails order (gone ++ [])
    rw [List.append_nil]
    exact trails.push fun last => late element last rfl
  | pop =>
    cases popped : heap.pop? with
    | none =>
      rw [step_pop_of_none popped]
      show heap.Trails order (gone ++ [])
      rwa [List.append_nil]
    | some removal =>
      rw [step_pop_of_some popped]
      exact trails.pop popped
  | _ => exact kind.elim

end Trails

/-- The elements that removals have taken out in a run, in the order in which they left. -/
def departures [Footprint α] (heap : Heap α ρ) : List (Operation α) → List α
  | [] => []
  | operation :: operations =>
    (operation.departing? (heap.step operation).1).toList ++
      (heap.step operation).2.departures operations

/-- If no addition of a run comes before the last element that has left by then, no element ever
comes before one that has left. -/
theorem Trails.run [Footprint α] {gone : List α} {heap : Heap α ρ}
    (trails : heap.Trails order gone) {operations : List (Operation α)}
    (kinds : ∀ operation ∈ operations, operation.PushesOrPops)
    (late : ∀ (place : Nat) (element last : α), operations[place]? = some (.push element) →
      (gone ++ heap.departures (operations.take place)).getLast? = some last →
        order element last = false) :
    (heap.run operations).2.Trails order (gone ++ heap.departures operations) := by
  induction operations generalizing gone heap with
  | nil =>
    rw [departures, List.append_nil]
    exact trails
  | cons operation operations hypothesis =>
    have next := trails.step (kinds operation List.mem_cons_self) (by
      rintro element last rfl left
      apply late 0 element last rfl
      rwa [List.take_zero, departures, List.append_nil])
    rw [departures, ← List.append_assoc]
    apply hypothesis next
    · intro other member
      exact kinds other (List.mem_cons_of_mem operation member)
    · intro place element last here left
      apply late (place + 1) element last here
      rwa [List.take_succ_cons, departures, ← List.append_assoc]

end Heap

/-- From a heap in order under a strict weak order elements leave in non-decreasing order, and none
of those that stay precedes one that has left, if no element that is added after the first removal
precedes the one that was taken out last before. -/
theorem departures_nonDecreasing [Precedence ρ α] [Footprint α] {start : Heap α ρ}
    {operations : List (Operation α)} (weak : StrictWeakOrder (precedes start.rule))
    (ordered : start.IsOrdered) (kinds : ∀ operation ∈ operations, operation.PushesOrPops)
    (late : ∀ (place : Nat) (element last : α), operations[place]? = some (.push element) →
      (start.departures (operations.take place)).getLast? = some last →
        precedes start.rule element last = false) :
    NonDecreasing (precedes start.rule) (start.departures operations) ∧
      ∀ element ∈ (start.run operations).2.toList, ∀ earlier ∈ start.departures operations,
        precedes start.rule element earlier = false := by
  have ranked : start.Ranked := ⟨weak, ordered⟩
  have trails := (Heap.Trails.of_rankedBy ranked.rankedBy).run kinds (by simpa using late)
  rw [List.nil_append] at trails
  exact ⟨trails.sorted, trails.behind⟩

/-- Three integers and three more leave in order; one of those is added when an equal one has just
left. -/
theorem departures_of_integers_nonDecreasing :
    let start : Heap Int (Natural Int) := ⟨#[2, 7, 3], ⟨⟩, 0⟩
    let operations : List (Operation Int) :=
      [.push 5, .pop, .push 2, .pop, .pop, .push 4, .pop, .pop, .pop, .pop]
    StrictWeakOrder (precedes start.rule) ∧ start.IsOrdered ∧
      (∀ operation ∈ operations, operation.PushesOrPops) ∧
      start.departures operations = [2, 2, 3, 4, 5, 7] ∧
      NonDecreasing (precedes start.rule) (start.departures operations) := by
  intro start operations
  have weak : StrictWeakOrder (precedes start.rule) := strictWeakOrder_int
  have ordered : start.IsOrdered := by decide
  have kinds : ∀ operation ∈ operations, operation.PushesOrPops := by
    simp [operations, Operation.PushesOrPops]
  have late : ∀ (place : Nat) (element last : Int), operations[place]? = some (.push element) →
      (start.departures (operations.take place)).getLast? = some last →
        precedes start.rule element last = false := by
    intro place element last here left
    obtain rfl | rfl | rfl : place = 0 ∨ place = 2 ∨ place = 5 := by
      rcases place with _ | _ | _ | _ | _ | _ | _ | _ | _ | _ | place <;>
        simp [operations] at here ⊢
    · exact absurd left (by simp [Heap.departures])
    · have gone : start.departures (operations.take 2) = [2] := by decide +kernel
      obtain rfl : 2 = element := by simpa [operations] using here
      obtain rfl : 2 = last := by simpa [gone] using left
      decide
    · have gone : start.departures (operations.take 5) = [2, 2, 3] := by decide +kernel
      obtain rfl : 4 = element := by simpa [operations] using here
      obtain rfl : 3 = last := by simpa [gone] using left
      decide
  exact ⟨weak, ordered, kinds, by decide +kernel,
    (departures_nonDecreasing weak ordered kinds late).1⟩

end PriorityQueue
