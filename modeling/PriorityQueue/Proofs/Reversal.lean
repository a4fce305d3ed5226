import PriorityQueue.Proofs.Sorting

/-!
# A rule turned around

A rule that ranks the elements ranks them the other way when it is turned around, so that a heap
shows an element that comes last under the rule. The heap under the rule and the heap under the
reversed rule ask about different pairs and store the same elements in unrelated places. What they
give when they are emptied in order is still the same sequence read from opposite ends, as far as
the rule tells elements apart: turned around, either sequence is one in order under the other rule.
-/

namespace PriorityQueue

universe u v

variable {α : Type u} {ρ : Type v} {less : α → α → Bool} {elements : List α}

/-- A sequence is in order under a relation exactly if it is so from the other end under the
relation read backwards. -/
theorem nonDecreasing_reverse_iff :
    NonDecreasing less elements.reverse ↔
      NonDecreasing (fun left right => less right left) elements := by
  unfold NonDecreasing
  rw [List.pairwise_reverse]

/-- Elements are tied under a relation exactly if they are so under the relation read backwards. -/
theorem tied_backwards_iff {left right : α} :
    Tied (fun first second => less second first) left right ↔ Tied less left right :=
  And.comm

variable [Precedence ρ α]

/-- A reversed rule ranks the elements if the rule does. -/
theorem StrictWeakOrder.reversed {rule : ρ} (order : StrictWeakOrder (precedes rule)) :
    StrictWeakOrder (precedes (Reversed.mk rule)) :=
  order.backwards

namespace Heap.Grows

variable [Footprint α] {start heap : Heap α ρ} {added : List α}

/-- A heap grown from an empty one gives the elements that were added when it is emptied. -/
theorem toSorted_perm_of_vacant (grown : start.Grows added heap) (vacant : start.toList = []) :
    heap.toSorted.Perm added :=
  (Heap.toSorted_perm heap).trans (grown.toList_perm_of_vacant vacant)

/-- Elements may be added one by one to a heap that has grown already. -/
theorem pushAll (grown : start.Grows added heap) (elements : List α) :
    start.Grows (added ++ elements) (heap.pushAll elements) := by
  induction elements generalizing added heap with
  | nil =>
    rw [List.append_nil]
    exact grown
  | cons element elements hypothesis =>
    have longer := hypothesis (.push grown element)
    rwa [List.append_assoc] at longer

end Heap.Grows

/-- A strict weak order turned around is one. In every state of a heap that starts empty under the
reversed rule, the top precedes no stored element under the rule itself. However the same elements
are added, in any order, to an empty heap under the rule and to one under the reversed rule, the
second gives, when both are emptied in order, as many elements as the first, and place by place
elements tied under the rule with those of the first read from the end, or the very same ones if
distinct elements are never tied. -/
theorem reversed_rule_mirrors_sorting [Footprint α] {rule : ρ}
    (order : StrictWeakOrder (precedes rule)) :
    StrictWeakOrder (precedes (Reversed.mk rule)) ∧
    (∀ operations : List (Operation α),
      let mirror := ((Heap.empty (Reversed.mk rule)).run operations).2
      mirror.toList ≠ [] → ∃ first, mirror.top = .ok first ∧ first ∈ mirror.toList ∧
        ∀ element ∈ mirror.toList, precedes rule first element = false) ∧
    ∀ (added mirrored : List α) (heap : Heap α ρ) (mirror : Heap α (Reversed ρ)),
      (Heap.empty rule).Grows added heap → (Heap.empty (Reversed.mk rule)).Grows mirrored mirror →
      mirrored.Perm added →
      mirror.toSorted.length = heap.toSorted.length ∧
      (∀ (place : Nat) first second, mirror.toSorted[place]? = some first →
        heap.toSorted.reverse[place]? = some second → Tied (precedes rule) first second) ∧
      (Decisive (precedes rule) → mirror.toSorted = heap.toSorted.reverse) := by
  refine ⟨order.reversed, ?_, ?_⟩
  · intro operations mirror occupied
    have start : (Heap.empty (Reversed.mk rule)).RankedBy (precedes (Reversed.mk rule)) :=
      .of_vacant order.reversed order.reversed.agreesUpToTies rfl
    exact ((Heap.invariant_rankedBy _).run start operations).exists_top occupied
  · intro added mirrored heap mirror grown mirrorGrown same
    have leaving : mirror.toSorted.Perm heap.toSorted.reverse := by
      have given := (mirrorGrown.toSorted_perm_of_vacant rfl).trans same
      refine given.trans ((grown.toSorted_perm_of_vacant rfl).symm.trans ?_)
      exact (List.reverse_perm _).symm
    have sorted := (grown.ranked order rfl).nonDecreasing_toSorted
    have mirrorSorted := (mirrorGrown.ranked order.reversed rfl).nonDecreasing_toSorted
    rw [grown.storage_eq.1] at sorted
    rw [mirrorGrown.storage_eq.1] at mirrorSorted
    -- Read from the end, what the heap under the rule gives is in order under the reversed rule.
    have turned : NonDecreasing (precedes (Reversed.mk rule)) heap.toSorted.reverse :=
      nonDecreasing_reverse_iff.2 sorted
    refine ⟨?_, ?_, ?_⟩
    · rw [leaving.length_eq, List.length_reverse]
    · intro place first second here there
      apply tied_backwards_iff.1
      exact mirrorSorted.tied_of_perm order.reversed turned leaving here there
    · intro decisive
      refine mirrorSorted.eq_of_perm ?_ turned leaving
      intro left right tied
      exact decisive left right (tied_backwards_iff.1 tied)

/-- Five integers, two of them equal: the heap under the reversed order has other storage than that
of the heap under the order read from the end, shows the greatest integer, and gives the integers
from the greatest on. -/
theorem reversed_order_mirrors_integers :
    let rule : Natural Int := ⟨⟩
    let heap := (Heap.empty rule).pushAll [3, 1, 4, 1, 5]
    let mirror := (Heap.empty (Reversed.mk rule)).pushAll [3, 1, 4, 1, 5]
    StrictWeakOrder (precedes rule) ∧ mirror.toList = [5, 4, 3, 1, 1] ∧
      heap.toList = [1, 1, 4, 3, 5] ∧ mirror.toSorted = [5, 4, 3, 1, 1] ∧
      mirror.toSorted = heap.toSorted.reverse := by
  intro rule heap mirror
  have order : StrictWeakOrder (precedes rule) := strictWeakOrder_int
  have vacant : (Heap.empty rule).Grows [] (Heap.empty rule) := .start
  have mirrorVacant : (Heap.empty (Reversed.mk rule)).Grows [] (Heap.empty (Reversed.mk rule)) :=
    .start
  have mirrors := (reversed_rule_mirrors_sorting order).2.2 _ _ heap mirror
    (vacant.pushAll [3, 1, 4, 1, 5]) (mirrorVacant.pushAll [3, 1, 4, 1, 5]) (.refl _)
  exact ⟨order, by decide +kernel, by decide +kernel, by decide +kernel,
    mirrors.2.2 decisive_int⟩

end PriorityQueue
