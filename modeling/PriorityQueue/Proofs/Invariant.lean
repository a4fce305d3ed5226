import PriorityQueue.Operation
import PriorityQueue.Proofs.HeapOrder

/-!
# Properties that runs keep

Whatever is asked of a heap, its elements and its rule only change by adding an element, by taking
the first one out, by dropping all of them or by counting room anew. A property that these four
keep is therefore kept by every operation and every run, failed operations included. Being in heap
order under a rule that ranks the elements is such a property.
-/

namespace PriorityQueue.Heap

universe u v

variable {α : Type u} {ρ : Type v} [Precedence ρ α]

/-- A property that every elementary change of a heap keeps. -/
structure Invariant (holds : Heap α ρ → Prop) : Prop where
  push : ∀ heap element, holds heap → holds (heap.push element)
  pop : ∀ heap element rest, holds heap → heap.pop? = some (element, rest) → holds rest
  clear : ∀ heap, holds heap → holds heap.clear
  room : ∀ heap spare, holds heap → holds { heap with spare := spare }

namespace Invariant

variable {holds : Heap α ρ → Prop} {heap : Heap α ρ}

/-- Adding several elements keeps an invariant. -/
theorem pushAll (invariant : Invariant holds) (start : holds heap) (elements : List α) :
    holds (heap.pushAll elements) := by
  induction elements generalizing heap with
  | nil => exact start
  | cons element elements hypothesis => exact hypothesis (invariant.push heap element start)

/-- Taking elements out until none is left keeps an invariant. -/
theorem popAll (invariant : Invariant holds) (start : holds heap) : holds heap.popAll.2 := by
  fun_induction Heap.popAll heap with
  | case1 heap vacant => exact start
  | case2 heap element rest popped elements last later hypothesis =>
    rw [later] at hypothesis
    exact hypothesis (invariant.pop heap element rest start popped)

variable [Footprint α]

/-- A promise of room keeps an invariant. -/
theorem reserve (invariant : Invariant holds) (start : holds heap) {additional : Nat}
    {roomy : Heap α ρ} (granted : heap.reserve additional = .ok roomy) : holds roomy := by
  obtain ⟨-, rfl⟩ := reserve_eq_ok_iff.1 granted
  exact invariant.room heap _ start

/-- Adding a batch keeps an invariant. -/
theorem extend (invariant : Invariant holds) (start : holds heap) {batch : Batch α}
    {longer : Heap α ρ} (added : heap.extend batch = .ok longer) : holds longer := by
  unfold Heap.extend at added
  cases granted : heap.reserve batch.announced with
  | error failure => simp [granted] at added
  | ok roomy =>
    simp only [granted, Except.ok.injEq] at added
    rw [← added]
    exact invariant.pushAll (invariant.reserve start granted) batch.elements

/-- An operation that does not fail keeps an invariant. -/
theorem perform (invariant : Invariant holds) (start : holds heap) {operation : Operation α}
    {answer : Answer α ρ} {after : Heap α ρ}
    (performed : heap.perform operation = .ok (answer, after)) : holds after := by
  cases operation with
  | push element =>
    obtain ⟨-, rfl⟩ := performed
    exact invariant.push heap element start
  | extend batch =>
    cases added : heap.extend batch with
    | error failure => simp [Heap.perform, added] at performed
    | ok longer =>
      simp only [Heap.perform, added, Except.ok.injEq, Prod.mk.injEq] at performed
      rw [← performed.2]
      exact invariant.extend start added
  | pop =>
    cases popped : heap.pop? with
    | none =>
      simp only [Heap.perform, popped, Except.ok.injEq, Prod.mk.injEq] at performed
      rwa [← performed.2]
    | some removal =>
      simp only [Heap.perform, popped, Except.ok.injEq, Prod.mk.injEq] at performed
      rw [← performed.2]
      exact invariant.pop heap removal.1 removal.2 start popped
  | popAll =>
    obtain ⟨-, rfl⟩ := performed
    exact invariant.popAll start
  | clear | drain =>
    obtain ⟨-, rfl⟩ := performed
    exact invariant.clear heap start
  | top =>
    cases found : heap.top with
    | error failure => simp [Heap.perform, found] at performed
    | ok element =>
      simp only [Heap.perform, found, Except.ok.injEq, Prod.mk.injEq] at performed
      rwa [← performed.2]
  | reserve additional =>
    cases granted : heap.reserve additional with
    | error failure => simp [Heap.perform, granted] at performed
    | ok roomy =>
      simp only [Heap.perform, granted, Except.ok.injEq, Prod.mk.injEq] at performed
      rw [← performed.2]
      exact invariant.reserve start granted
  | shrinkToFit =>
    obtain ⟨-, rfl⟩ := performed
    exact invariant.room heap 0 start
  | peek | size | isEmpty | storage | visit | compare | holds | describe | describeRule =>
    obtain ⟨-, rfl⟩ := performed
    exact start

/-- An operation keeps an invariant, whether it fails or not. -/
theorem step (invariant : Invariant holds) (start : holds heap) (operation : Operation α) :
    holds (heap.step operation).2 := by
  unfold Heap.step
  cases performed : heap.perform operation with
  | error failure => exact start
  | ok outcome => exact invariant.perform start performed

/-- A run keeps an invariant. -/
theorem run (invariant : Invariant holds) (start : holds heap) (operations : List (Operation α)) :
    holds (heap.run operations).2 := by
  induction operations generalizing heap with
  | nil => exact start
  | cons operation operations hypothesis => exact hypothesis (invariant.step start operation)

end Invariant

/-- Storage is in order under a strict weak order with which the rule agrees up to ties. -/
structure RankedBy (order : α → α → Bool) (heap : Heap α ρ) : Prop where
  weak : StrictWeakOrder order
  agrees : AgreesUpToTies order (precedes heap.rule)
  ordered : HeapOrdered order heap.storage

namespace RankedBy

variable {order : α → α → Bool} {heap rest : Heap α ρ} {first : α}

/-- A heap without elements is in order. -/
theorem of_vacant (weak : StrictWeakOrder order)
    (agrees : AgreesUpToTies order (precedes heap.rule)) (vacant : heap.toList = []) :
    heap.RankedBy order := by
  have bare : heap.storage = #[] := by simpa [toList] using vacant
  refine ⟨weak, agrees, ?_⟩
  rw [bare]
  exact heapOrdered_empty order

/-- No element of a heap in order comes before the one that leaves next. -/
theorem not_less_peek (ranked : heap.RankedBy order) (next : heap.peek? = some first) :
    ∀ element ∈ heap.toList, order element first = false := by
  intro element member
  exact ranked.ordered.not_less_first ranked.weak next element (Array.mem_toList_iff.1 member)

/-- No element of a heap in order comes before the one that is taken out. -/
theorem not_less_popped (ranked : heap.RankedBy order)
    (popped : heap.pop? = some (first, rest)) :
    ∀ element ∈ heap.toList, order element first = false :=
  ranked.not_less_peek (peek?_of_pop? popped)

/-- A heap in order that has elements has a top, and none of its elements comes before it. -/
theorem exists_top (ranked : heap.RankedBy order) (occupied : heap.toList ≠ []) :
    ∃ first, heap.top = .ok first ∧ first ∈ heap.toList ∧
      ∀ element ∈ heap.toList, order element first = false := by
  cases next : heap.peek? with
  | none =>
    rw [peek?_eq_head?, List.head?_eq_none_iff] at next
    exact absurd next occupied
  | some first =>
    refine ⟨first, ?_, ?_, ranked.not_less_peek next⟩
    · simp only [top, next]
    · rw [peek?_eq_head?] at next
      exact List.mem_of_mem_head? next

end RankedBy

/-- A heap in order stays so if the rule agrees with the order up to ties. -/
theorem invariant_rankedBy (order : α → α → Bool) :
    Invariant (RankedBy order : Heap α ρ → Prop) where
  push _ element ranked := ⟨ranked.weak, ranked.agrees,
    ranked.ordered.push (ranked.agrees.lifts ranked.weak) element⟩
  pop heap element rest ranked popped := by
    have rule : rest.rule = heap.rule := rule_of_pop? popped
    refine ⟨ranked.weak, ?_, ranked.ordered.pop (ranked.agrees.lowers ranked.weak) popped⟩
    rw [rule]
    exact ranked.agrees
  clear _ ranked := .of_vacant ranked.weak ranked.agrees rfl
  room _ _ ranked := ⟨ranked.weak, ranked.agrees, ranked.ordered⟩

/-- The rule ranks the elements, and storage is in order under it. -/
structure Ranked (heap : Heap α ρ) : Prop where
  order : StrictWeakOrder (precedes heap.rule)
  ordered : heap.IsOrdered

/-- A heap is ranked if it is in order under the order that its rule is. -/
theorem ranked_iff_rankedBy {heap : Heap α ρ} {rule : ρ} (same : heap.rule = rule) :
    heap.Ranked ↔ heap.RankedBy (precedes rule) := by
  subst same
  constructor
  · intro ranked
    exact ⟨ranked.order, ranked.order.agreesUpToTies, ranked.ordered⟩
  · intro ranked
    exact ⟨ranked.weak, ranked.ordered⟩

/-- A ranked heap is in order under its own rule. -/
theorem Ranked.rankedBy {heap : Heap α ρ} (ranked : heap.Ranked) :
    heap.RankedBy (precedes heap.rule) :=
  (ranked_iff_rankedBy rfl).1 ranked

/-- A heap without elements is in order. -/
theorem Ranked.of_vacant {heap : Heap α ρ} (order : StrictWeakOrder (precedes heap.rule))
    (vacant : heap.toList = []) : heap.Ranked :=
  (ranked_iff_rankedBy rfl).2 (.of_vacant order order.agreesUpToTies vacant)

/-- No element of a heap in order precedes the one that leaves next. -/
theorem Ranked.not_less_peek {heap : Heap α ρ} (ranked : heap.Ranked) {first : α}
    (next : heap.peek? = some first) :
    ∀ element ∈ heap.toList, precedes heap.rule element first = false :=
  ranked.rankedBy.not_less_peek next

/-- No element of a heap in order precedes the one that is taken out. -/
theorem Ranked.not_less_popped {heap rest : Heap α ρ} {first : α} (ranked : heap.Ranked)
    (popped : heap.pop? = some (first, rest)) :
    ∀ element ∈ heap.toList, precedes heap.rule element first = false :=
  ranked.rankedBy.not_less_popped popped

/-- A run never changes the rule. -/
theorem invariant_rule (rule : ρ) : Invariant fun heap : Heap α ρ => heap.rule = rule where
  push _ _ same := same
  pop _ _ _ same popped := (rule_of_pop? popped).trans same
  clear _ same := same
  room _ _ same := same

/-- A heap that is in order under a ranking rule stays so. -/
theorem invariant_ranked : Invariant (Ranked : Heap α ρ → Prop) where
  push heap element ranked :=
    (ranked_iff_rankedBy (rule_push heap element)).2
      ((invariant_rankedBy _).push heap element ranked.rankedBy)
  pop heap element rest ranked popped :=
    (ranked_iff_rankedBy (rule_of_pop? popped)).2
      ((invariant_rankedBy _).pop heap element rest ranked.rankedBy popped)
  clear _ ranked := .of_vacant ranked.order rfl
  room _ _ ranked := ⟨ranked.order, ranked.ordered⟩

end PriorityQueue.Heap
