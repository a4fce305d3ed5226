import Mathlib.Data.List.Sort
import Mathlib.Data.Multiset.AddSub
import PriorityQueue.Proofs.Removal

/-!
# The queue as a bag

Seen from outside a heap is a bag of elements. `Bag.Step` says what an operation may answer over a
bag and which bag it leaves: an element may leave next when no element of the bag precedes it, and
a batch is refused exactly when storage could not hold what it announces. Where elements are shown
in storage order, any arrangement of the bag will do. A heap in order under a ranking rule never
does anything that its bag does not allow.
-/

namespace PriorityQueue

universe u v

variable {α : Type u} {ρ : Type v}

/-- The elements of a heap without their places. -/
def Heap.bag (heap : Heap α ρ) : Multiset α := heap.toList

/-- A bag may give an element and keep the rest when no element of the bag precedes it. -/
structure Bag.Releases (less : α → α → Bool) (bag : Multiset α) (first : α)
    (rest : Multiset α) : Prop where
  split : bag = first ::ₘ rest
  minimal : ∀ other ∈ bag, less other first = false

/-- The size of a heap is that of its bag. -/
theorem Heap.card_bag (heap : Heap α ρ) : heap.bag.card = heap.size := by
  rw [bag, Multiset.coe_card, length_toList]

variable [Precedence ρ α]

/-- Adding an element to a heap adds it to the bag. -/
theorem Heap.bag_push (heap : Heap α ρ) (element : α) :
    (heap.push element).bag = element ::ₘ heap.bag :=
  Multiset.coe_eq_coe.2 (toList_push_perm heap element)

/-- Adding several elements to a heap adds them to the bag. -/
theorem Heap.bag_pushAll (heap : Heap α ρ) (elements : List α) :
    (heap.pushAll elements).bag = elements + heap.bag := by
  rw [bag, bag, Multiset.coe_add]
  exact Multiset.coe_eq_coe.2 (toList_pushAll_perm heap elements)

/-- What a ranked heap takes out is what its bag may give. -/
theorem Heap.Ranked.releases {heap rest : Heap α ρ} {first : α} (ranked : heap.Ranked)
    (popped : heap.pop? = some (first, rest)) :
    Bag.Releases (precedes heap.rule) heap.bag first rest.bag where
  split := (Multiset.coe_eq_coe.2 (toList_perm_of_pop? popped)).symm
  minimal other member := ranked.not_less_popped popped other member

/-- A heap that gives nothing shows nothing. -/
theorem Heap.peek?_of_pop?_eq_none {heap : Heap α ρ} (vacant : heap.pop? = none) :
    heap.peek? = none := by
  rw [peek?_eq_head?, pop?_eq_none_iff.1 vacant]
  rfl

/-- The element that leaves next is the one that is taken out. -/
theorem Heap.peek?_eq_map_pop? (heap : Heap α ρ) : heap.peek? = heap.pop?.map Prod.fst := by
  cases popped : heap.pop? with
  | none => exact peek?_of_pop?_eq_none popped
  | some removal => exact peek?_of_pop? popped

/-- A heap that gives nothing has an empty bag. -/
theorem Heap.bag_of_pop?_eq_none {heap : Heap α ρ} (vacant : heap.pop? = none) : heap.bag = 0 := by
  rw [bag, pop?_eq_none_iff.1 vacant]
  rfl

/-- A heap that was emptied in order has an empty bag. -/
theorem Heap.bag_popAll (heap : Heap α ρ) : heap.popAll.2.bag = 0 := by
  rw [bag, toList_popAll]
  rfl

variable [Footprint α]

/-- What an operation may answer over a bag, and the bag that it leaves. -/
inductive Bag.Step (rule : ρ) :
    Multiset α → Operation α → Except Failure (Answer α ρ) → Multiset α → Prop
  | push (bag : Multiset α) (element : α) :
      Step rule bag (.push element) (.ok .done) (element ::ₘ bag)
  | extend (bag : Multiset α) (batch : Batch α)
      (fits : bag.card + batch.announced ≤ capacityLimit α) :
      Step rule bag (.extend batch) (.ok .done) (batch.elements + bag)
  | extendRefused (bag : Multiset α) (batch : Batch α)
      (exceeds : capacityLimit α < bag.card + batch.announced) :
      Step rule bag (.extend batch) (.error .capacityOverflow) bag
  | pop {bag rest : Multiset α} {first : α}
      (releases : Bag.Releases (precedes rule) bag first rest) :
      Step rule bag .pop (.ok (.item (some first))) rest
  | popEmpty : Step rule 0 .pop (.ok (.item none)) 0
  | popAll {elements : List α} (sorted : NonDecreasing (precedes rule) elements) :
      Step rule elements .popAll (.ok (.items elements)) 0
  | clear (bag : Multiset α) : Step rule bag .clear (.ok .done) 0
  | drain (arrangement : Array α) (steps : List Cursor.Step) :
      Step rule arrangement.toList (.drain steps)
        (.ok (.walk .draining (Cursor.walk (some (.ofArray arrangement)) steps))) 0
  | top {bag rest : Multiset α} {first : α}
      (releases : Bag.Releases (precedes rule) bag first rest) :
      Step rule bag .top (.ok (.element first)) bag
  | topEmpty : Step rule 0 .top (.error .emptyTop) 0
  | peek {bag rest : Multiset α} {first : α}
      (releases : Bag.Releases (precedes rule) bag first rest) :
      Step rule bag .peek (.ok (.item (some first))) bag
  | peekEmpty : Step rule 0 .peek (.ok (.item none)) 0
  | size (bag : Multiset α) : Step rule bag .size (.ok (.count bag.card)) bag
  | isEmpty (bag : Multiset α) :
      Step rule bag .isEmpty (.ok (.verdict (decide (bag.card = 0)))) bag
  | storage (arrangement : List α) :
      Step rule arrangement .storage (.ok (.items arrangement)) arrangement
  | visit (arrangement : Array α) (steps : List Cursor.Step) :
      Step rule arrangement.toList (.visit steps)
        (.ok (.walk .visiting (Cursor.walk (some (.ofArray arrangement)) steps)))
        arrangement.toList
  | compare (bag : Multiset α) (left right : α) :
      Step rule bag (.compare left right) (.ok (.verdict (precedes rule left right))) bag
  | reserve (bag : Multiset α) (additional : Nat)
      (fits : bag.card + additional ≤ capacityLimit α) :
      Step rule bag (.reserve additional) (.ok .done) bag
  | reserveRefused (bag : Multiset α) (additional : Nat)
      (exceeds : capacityLimit α < bag.card + additional) :
      Step rule bag (.reserve additional) (.error .capacityOverflow) bag
  | shrinkToFit (bag : Multiset α) : Step rule bag .shrinkToFit (.ok .done) bag
  | holds (bag : Multiset α) (minimum : Nat) (decision : Bool) :
      Step rule bag (.holds minimum) (.ok (.verdict decision)) bag
  | describe (arrangement : List α) (layout : Layout) :
      Step rule arrangement (.describe layout) (.ok (.contents layout arrangement)) arrangement
  | describeRule (bag : Multiset α) (layout : Layout) :
      Step rule bag (.describeRule layout) (.ok (.rule layout rule)) bag

/-- A run in which every outcome is one that the bag at that point allows. -/
inductive Bag.Run (rule : ρ) :
    Multiset α → List (Operation α) → List (Except Failure (Answer α ρ)) → Multiset α → Prop
  | nil (bag : Multiset α) : Run rule bag [] [] bag
  | cons {bag next last : Multiset α} {operation : Operation α} {operations : List (Operation α)}
      {outcome : Except Failure (Answer α ρ)} {outcomes : List (Except Failure (Answer α ρ))}
      (step : Bag.Step rule bag operation outcome next)
      (later : Run rule next operations outcomes last) :
      Run rule bag (operation :: operations) (outcome :: outcomes) last

/-- Over a ranked heap every operation does what its bag allows. -/
theorem Heap.Ranked.bag_step {heap : Heap α ρ} (ranked : heap.Ranked) (operation : Operation α) :
    Bag.Step heap.rule heap.bag operation (heap.step operation).1 (heap.step operation).2.bag := by
  cases operation with
  | push element =>
    show Bag.Step heap.rule heap.bag (.push element) (.ok .done) (heap.push element).bag
    rw [Heap.bag_push]
    exact .push heap.bag element
  | extend batch =>
    by_cases fits : heap.size + batch.announced ≤ capacityLimit α
    · simp only [step, perform, extend, reserve, if_pos fits]
      rw [bag_pushAll]
      exact .extend heap.bag batch (by rwa [card_bag])
    · simp only [step, perform, extend, reserve, if_neg fits]
      exact .extendRefused heap.bag batch (by rw [card_bag]; omega)
  | pop =>
    cases popped : heap.pop? with
    | none =>
      simp only [step, perform, popped, bag_of_pop?_eq_none popped]
      exact .popEmpty
    | some removal =>
      simp only [step, perform, popped]
      exact .pop (ranked.releases popped)
  | popAll =>
    have same : heap.bag = heap.toSorted := Multiset.coe_eq_coe.2 (toSorted_perm heap).symm
    show Bag.Step heap.rule heap.bag .popAll (.ok (.items heap.toSorted)) heap.popAll.2.bag
    rw [bag_popAll, same]
    exact .popAll ranked.nonDecreasing_toSorted
  | clear => exact .clear heap.bag
  | drain steps => exact .drain heap.storage steps
  | top =>
    cases popped : heap.pop? with
    | none =>
      have hidden : heap.peek? = none := peek?_of_pop?_eq_none popped
      simp only [step, perform, Heap.top, hidden, bag_of_pop?_eq_none popped]
      exact .topEmpty
    | some removal =>
      simp only [step, perform, Heap.top, peek?_of_pop? popped]
      exact .top (ranked.releases popped)
  | peek =>
    cases popped : heap.pop? with
    | none =>
      have hidden : heap.peek? = none := peek?_of_pop?_eq_none popped
      simp only [step, perform, hidden, bag_of_pop?_eq_none popped]
      exact .peekEmpty
    | some removal =>
      simp only [step, perform, peek?_of_pop? popped]
      exact .peek (ranked.releases popped)
  | size =>
    show Bag.Step heap.rule heap.bag .size (.ok (.count heap.size)) heap.bag
    rw [← card_bag]
    exact .size heap.bag
  | isEmpty =>
    have same : heap.isEmpty = decide (heap.bag.card = 0) := by
      rw [card_bag]
      simp [Heap.isEmpty, Heap.size, Array.isEmpty]
    show Bag.Step heap.rule heap.bag .isEmpty (.ok (.verdict heap.isEmpty)) heap.bag
    rw [same]
    exact .isEmpty heap.bag
  | storage => exact .storage heap.toList
  | visit steps => exact .visit heap.storage steps
  | compare left right => exact .compare heap.bag left right
  | reserve additional =>
    by_cases fits : heap.size + additional ≤ capacityLimit α
    · simp only [step, perform, reserve, if_pos fits]
      exact .reserve heap.bag additional (by rwa [card_bag])
    · simp only [step, perform, reserve, if_neg fits]
      exact .reserveRefused heap.bag additional (by rw [card_bag]; omega)
  | shrinkToFit => exact .shrinkToFit heap.bag
  | holds minimum => exact .holds heap.bag minimum _
  | describe layout => exact .describe heap.toList layout
  | describeRule layout => exact .describeRule heap.bag layout

/-- Over a ranked heap every run is one that its bag allows. -/
theorem Heap.Ranked.bag_run {heap : Heap α ρ} (ranked : heap.Ranked)
    (operations : List (Operation α)) :
    Bag.Run heap.rule heap.bag operations (heap.run operations).1 (heap.run operations).2.bag := by
  induction operations generalizing heap with
  | nil => exact .nil heap.bag
  | cons operation operations hypothesis =>
    have rule : (heap.step operation).2.rule = heap.rule :=
      (invariant_rule heap.rule).step rfl operation
    have later := hypothesis (invariant_ranked.step ranked operation)
    rw [rule] at later
    exact .cons (ranked.bag_step operation) later

end PriorityQueue
