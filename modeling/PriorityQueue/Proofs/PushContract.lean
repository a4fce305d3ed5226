import PriorityQueue.Proofs.HeapOrder
import PriorityQueue.Proofs.NumberOrder

/-!
# What additions require of the rule

Adding an element keeps storage in heap order exactly if the rule is a strict partial order with one
law more: a lift order. When an added element passes two others, the upper one comes to stand above
the former child of the lower one, and the loop never compares these two. Storage of at most four
elements finds out every rule that is no lift order. A removal puts no such pair together, and any
strict partial order will do for it.
-/

namespace PriorityQueue

universe u v

variable {α : Type u} {ρ : Type v} {less : α → α → Bool}

/-- An asymmetric and transitive relation in which what may stand below an element may stand below
the next higher one as well, provided that some element precedes both of these. -/
structure LiftOrder (less : α → α → Bool) : Prop where
  /-- A predecessor is never preceded by what it precedes. -/
  asymmetric : ∀ first second, less first second = true → less second first = false
  /-- What precedes a predecessor precedes. -/
  transitive : ∀ first second third,
    less first second = true → less second third = true → less first third = true
  /-- What stands below two passed elements in turn may stand below the upper one directly. -/
  cousin : ∀ element above higher other, less element above = true →
    less element higher = true → less other above = false → less above higher = false →
      less other higher = false

namespace LiftOrder

/-- No element precedes itself. -/
theorem irreflexive (order : LiftOrder less) (element : α) : less element element = false := by
  cases before : less element element with
  | false => rfl
  | true =>
    have back := order.asymmetric element element before
    rw [before] at back
    exact back

/-- A lift order is a strict partial order. -/
theorem strictPartialOrder (order : LiftOrder less) : StrictPartialOrder less where
  irreflexive := order.irreflexive
  transitive := order.transitive

end LiftOrder

/-- Lifting repairs the heap order of the relation that it asks exactly if that is a lift order. -/
theorem lifts_self_iff : Lifts less less ↔ LiftOrder less := by
  constructor
  · intro lifts
    refine ⟨lifts.passes, ?_, lifts.cousin⟩
    intro first second third before after
    cases outer : less first third with
    | true => rfl
    | false =>
      have never := lifts.sibling second third first after outer
      rw [before] at never
      exact absurd never (by decide)
  · intro order
    refine ⟨fun _ _ same => same, order.asymmetric, ?_, order.cousin⟩
    intro element above other climbs stood
    cases before : less other element with
    | false => rfl
    | true =>
      have through := order.transitive other element above before climbs
      rw [stood] at through
      exact absurd through (by decide)

/-- A strict weak order is a lift order. -/
theorem StrictWeakOrder.liftOrder (order : StrictWeakOrder less) : LiftOrder less :=
  lifts_self_iff.1 (order.agreesUpToTies.lifts order)

variable [Precedence ρ α]

/-- Under the rule any element can be added to any heap in order, which stays in order. -/
def PushContract (rule : ρ) : Prop :=
  ∀ (heap : Heap α ρ) (element : α), heap.rule = rule → heap.IsOrdered →
    (heap.push element).IsOrdered

/-- Under the rule any heap in order stays in order when an element is taken out. -/
def PopContract (rule : ρ) : Prop :=
  ∀ (heap rest : Heap α ρ) (element : α), heap.rule = rule → heap.IsOrdered →
    heap.pop? = some (element, rest) → rest.IsOrdered

/-- A lift order keeps the contract of additions. -/
theorem LiftOrder.pushContract {rule : ρ} (order : LiftOrder (precedes rule)) :
    PushContract rule := by
  rintro heap element rfl ordered
  exact HeapOrdered.push ordered (lifts_self_iff.2 order) element

/-- A strict partial order keeps the contract of removals. -/
theorem StrictPartialOrder.popContract {rule : ρ} (order : StrictPartialOrder (precedes rule)) :
    PopContract rule := by
  rintro heap rest element rfl ordered popped
  unfold Heap.IsOrdered
  rw [Heap.rule_of_pop? popped]
  exact HeapOrdered.pop ordered order.lowers popped

namespace PushContract

variable {rule : ρ}

/-- Under the contract precedence is one way: an element that precedes the only other one comes to
stand above it. -/
theorem asymmetric (contract : PushContract rule) {first second : α}
    (before : precedes rule first second = true) : precedes rule second first = false := by
  let heap : Heap α ρ := ⟨#[second], rule, 0⟩
  have ordered : heap.IsOrdered := by
    intro place below child above here there
    have inside : place < 1 := (Array.getElem?_eq_some_iff.1 here).1
    omega
  have after : (heap.push first).storage = #[first, second] := by
    simp [heap, Heap.push, siftUp, parent, before]
  have kept := contract heap first rfl ordered 1 (by decide) second first
  rw [after] at kept
  exact kept rfl rfl

/-- Under the contract precedence is carried along chains: an element that passes another comes to
stand above the other child of that one. -/
theorem transitive (contract : PushContract rule) {first second third : α}
    (before : precedes rule first second = true) (after : precedes rule second third = true) :
    precedes rule first third = true := by
  cases outer : precedes rule first third with
  | true => rfl
  | false =>
    let heap : Heap α ρ := ⟨#[third, first], rule, 0⟩
    have ordered : heap.IsOrdered := by
      unfold Heap.IsOrdered
      rw [heapOrdered_iff_children]
      intro child inside below
      obtain rfl : child = 1 := by
        have bound : child < 2 := inside
        omega
      exact outer
    have pushed : (heap.push second).storage = #[second, first, third] := by
      simp [heap, Heap.push, siftUp, parent, after]
    have kept := contract heap second rfl ordered 1 (by decide) first second
    rw [pushed] at kept
    have never : precedes rule first second = false := kept rfl rfl
    rw [before] at never
    exact absurd never (by decide)

/-- Under the contract an element that passes two places lets the upper one down above the former
child of the lower one only where it may stand. -/
theorem cousin (contract : PushContract rule) {element above higher other : α}
    (climbs : precedes rule element above = true) (passes : precedes rule element higher = true)
    (stood : precedes rule other above = false) (edge : precedes rule above higher = false) :
    precedes rule other higher = false := by
  let heap : Heap α ρ := ⟨#[higher, above, above, other], rule, 0⟩
  have ordered : heap.IsOrdered := by
    unfold Heap.IsOrdered
    rw [heapOrdered_iff_children]
    intro child inside below
    have bound : child < 4 := inside
    obtain rfl | rfl | rfl : child = 1 ∨ child = 2 ∨ child = 3 := by omega
    · exact edge
    · exact edge
    · exact stood
  have pushed : (heap.push element).storage = #[element, higher, above, other, above] := by
    simp [heap, Heap.push, siftUp, parent, climbs, passes]
  have kept := contract heap element rfl ordered 3 (by decide) other higher
  rw [pushed] at kept
  exact kept rfl rfl

/-- A rule that keeps the contract is a lift order. -/
theorem liftOrder (contract : PushContract rule) : LiftOrder (precedes rule) where
  asymmetric _ _ before := contract.asymmetric before
  transitive _ _ _ before after := contract.transitive before after
  cousin _ _ _ _ climbs passes stood edge := contract.cousin climbs passes stood edge

end PushContract

/-- One divides both thirty-five and six, two does not divide thirty-five, nor thirty-five six; but
two divides six. -/
theorem not_liftOrder_divisorFirst : ¬ LiftOrder divisorFirst := by
  intro order
  have never := order.cousin 1 35 6 2 (by decide) (by decide) (by decide) (by decide)
  exact absurd never (by decide)

/-- Exactly the lift orders keep the contract of additions. Every strict weak order is a lift order
and every lift order a strict partial order, which is enough for the contract of removals. But a
strict partial order need not keep the contract of additions: under divisibility one passes
thirty-five and six, and then two stands below six. -/
theorem pushContract_iff_liftOrder (rule : ρ) :
    (PushContract rule ↔ LiftOrder (precedes rule)) ∧
    (StrictWeakOrder (precedes rule) → LiftOrder (precedes rule)) ∧
    (LiftOrder (precedes rule) → StrictPartialOrder (precedes rule)) ∧
    (StrictPartialOrder (precedes rule) → PopContract rule) ∧
    (let heap : Heap Nat (Nat → Nat → Bool) := ⟨#[6, 35, 11, 2], divisorFirst, 0⟩
     StrictPartialOrder divisorFirst ∧ ¬ LiftOrder divisorFirst ∧ PopContract divisorFirst ∧
      heap.IsOrdered ∧ (heap.push 1).toList = [1, 6, 11, 2, 35] ∧
      ¬ (heap.push 1).IsOrdered) := by
  have divisors : StrictPartialOrder divisorFirst := strictPartialOrder_divisorFirst
  refine ⟨⟨PushContract.liftOrder, LiftOrder.pushContract⟩, StrictWeakOrder.liftOrder,
    LiftOrder.strictPartialOrder, StrictPartialOrder.popContract, divisors,
    not_liftOrder_divisorFirst, divisors.popContract, ?_, ?_, ?_⟩
  · decide
  · decide +kernel
  · -- Two at the third place stands below six at the first.
    decide +kernel

end PriorityQueue
