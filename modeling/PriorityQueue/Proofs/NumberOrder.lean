import PriorityQueue.Element.Scalar
import PriorityQueue.Order

/-!
# Which rules on numbers rank them

The natural order of the integers is a strict weak order that never ties distinct numbers. Proper
divisibility of natural numbers is a strict partial order that ranks nothing, and beating in a
circle of three is irreflexive and no more.
-/

namespace PriorityQueue

universe u

/-- A strict weak order read backwards is one. -/
theorem StrictWeakOrder.backwards {α : Type u} {less : α → α → Bool}
    (order : StrictWeakOrder less) : StrictWeakOrder fun left right => less right left where
  irreflexive element := order.irreflexive element
  transitive first second third before after := order.transitive third second first after before
  tiesTransitive first second third upper lower :=
    (order.tiesTransitive first second third upper.symm lower.symm).symm

/-- Elements are ranked by a measure of them that is ranked. -/
theorem StrictWeakOrder.along {α β : Type u} {less : β → β → Bool} (order : StrictWeakOrder less)
    (measure : α → β) : StrictWeakOrder fun left right => less (measure left) (measure right) where
  irreflexive element := order.irreflexive (measure element)
  transitive first second third before after :=
    order.transitive (measure first) (measure second) (measure third) before after
  tiesTransitive first second third upper lower :=
    order.tiesTransitive (measure first) (measure second) (measure third) upper lower

/-- The natural order ranks the integers. -/
theorem strictWeakOrder_int : StrictWeakOrder (NaturalOrder.lt : Int → Int → Bool) where
  irreflexive number := decide_eq_false (Int.lt_irrefl number)
  transitive first second third before after := by
    simp only [NaturalOrder.lt, decide_eq_true_eq] at before after ⊢
    omega
  tiesTransitive first second third upper lower := by
    simp only [Tied, NaturalOrder.lt, decide_eq_false_iff_not] at upper lower ⊢
    omega

/-- Distinct integers are never tied. -/
theorem decisive_int : Decisive (NaturalOrder.lt : Int → Int → Bool) := by
  intro left right tied
  simp only [Tied, NaturalOrder.lt, decide_eq_false_iff_not] at tied
  omega

/-- Proper divisibility of natural numbers. Among the integers a number and its negative divide
each other, so there it is no order. -/
def divisorFirst (divisor number : Nat) : Bool := properlyDivides divisor number

/-- A natural number comes first exactly as a divisor other than zero and the number itself. -/
theorem divisorFirst_eq_true_iff {divisor number : Nat} :
    divisorFirst divisor number = true ↔ divisor ≠ 0 ∧ divisor ≠ number ∧ divisor ∣ number := by
  simp only [divisorFirst, properlyDivides, Bool.and_eq_true, decide_eq_true_eq, ne_eq,
    Int.natCast_eq_zero, Int.natCast_inj, and_assoc, ← Int.dvd_iff_emod_eq_zero,
    Int.natCast_dvd_natCast]

/-- Proper divisibility is a strict partial order. -/
theorem strictPartialOrder_divisorFirst : StrictPartialOrder divisorFirst where
  irreflexive number := by
    rw [← Bool.not_eq_true, divisorFirst_eq_true_iff]
    exact fun divides => divides.2.1 rfl
  transitive first second third before after := by
    rw [divisorFirst_eq_true_iff] at before after ⊢
    obtain ⟨nonzero, apart, divides⟩ := before
    obtain ⟨-, -, divides'⟩ := after
    refine ⟨nonzero, ?_, Nat.dvd_trans divides divides'⟩
    rintro rfl
    exact apart (Nat.dvd_antisymm divides divides')

/-- Four and two are each tied with three, but not with each other. -/
theorem not_strictWeakOrder_divisorFirst : ¬ StrictWeakOrder divisorFirst := by
  intro order
  have tied := order.tiesTransitive 4 3 2 (by unfold Tied; decide) (by unfold Tied; decide)
  exact absurd tied.2 (by decide)

/-- No number beats itself in the circle. -/
theorem beatsInCircle_irreflexive (number : Int) : beatsInCircle number number = false := by
  simp [beatsInCircle]

/-- Two beats one and one beats zero, which beats two. -/
theorem not_strictWeakOrder_beatsInCircle : ¬ StrictWeakOrder beatsInCircle := by
  intro order
  have around := order.transitive 2 1 0 (by decide) (by decide)
  exact absurd around (by decide)

end PriorityQueue
