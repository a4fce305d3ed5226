import Mathlib.Logic.Function.Iterate
import PriorityQueue.Proofs.HeapOrder
import PriorityQueue.Proofs.NumberOrder
import PriorityQueue.Proofs.Rotation

/-!
# Repairing one position

Sifting may start anywhere in storage, not only at the end or at the root. Lowering puts storage in
order that was so but for the children of one position, if these may stand below the position's own
parent; it needs no more than a strict partial order, and what is not at or below the position it
leaves alone. Lifting puts storage in order that was so but for the element at one position, under
the same condition on the children, and leaves alone what is not at or above the position. For this
a partial order is not enough: each element that is let down comes to stand above a former child of
the one let down before it, and the loop never compares these two. `AtOrAbove` says what is above
what: going from a position to its parent, again and again, one comes to all that is above it.
-/

namespace PriorityQueue

universe u

variable {α : Type u} {n : Nat} {less : α → α → Bool}

/-- The upper position is the lower one, or its parent, or the parent of that, and so on. -/
def AtOrAbove (upper lower : Nat) : Prop := ∃ steps, parent^[steps] lower = upper

namespace AtOrAbove

variable {top upper lower : Nat}

/-- Every position is at itself. -/
theorem refl (position : Nat) : AtOrAbove position position := ⟨0, rfl⟩

/-- The parent of a position is above it. -/
theorem of_parent (position : Nat) : AtOrAbove (parent position) position := ⟨1, rfl⟩

/-- What is above a position is above all that is below it. -/
theorem trans (high : AtOrAbove top upper) (low : AtOrAbove upper lower) : AtOrAbove top lower := by
  obtain ⟨more, rfl⟩ := high
  obtain ⟨steps, rfl⟩ := low
  exact ⟨more + steps, Function.iterate_add_apply parent more steps lower⟩

end AtOrAbove

/-- The winner among a position and its children is at or below the position. -/
theorem atOrAbove_winner (less : α → α → Bool) (storage : Vector α n) (position : Fin n) :
    AtOrAbove position (winner less storage position) := by
  rcases winner_cases less storage position with stays | left | right
  · rw [stays]
    exact .refl _
  · rw [left]
    simpa using AtOrAbove.of_parent (leftChild position)
  · rw [right]
    simpa using AtOrAbove.of_parent (rightChild position)

/-- Lowering an element leaves alone what is not at or below its position. -/
theorem getElem?_siftDown_of_not_atOrAbove (less : α → α → Bool) (storage : Vector α n)
    (position : Fin n) {place : Nat} (outside : ¬ AtOrAbove position place) :
    (siftDown less storage position)[place]? = storage[place]? := by
  fun_induction siftDown less storage position with
  | case1 => rfl
  | case2 storage position best moved hypothesis =>
    have below : AtOrAbove position best := atOrAbove_winner less storage position
    have offPosition : place ≠ position := by
      rintro rfl
      exact outside (.refl _)
    have offBest : place ≠ best := by
      rintro rfl
      exact outside below
    rw [hypothesis fun within => outside (below.trans within)]
    rw [Vector.getElem?_swap, if_neg (Ne.symm offBest), if_neg (Ne.symm offPosition)]

/-- Lowering repairs one position. If storage is in order under a strict partial order but for the
children of a position, and no child of the position precedes the position's parent, then lowering
the element at the position puts the whole storage in order. It rearranges the elements, and only
those at or below the position. -/
theorem siftDown_repairs_position {storage : Vector α n} {position : Fin n}
    (order : StrictPartialOrder less) (ready : LowerReady less storage position) :
    HeapOrdered less (siftDown less storage position).toArray ∧
    (siftDown less storage position).Perm storage ∧
    ∀ place, ¬ AtOrAbove position place →
      (siftDown less storage position)[place]? = storage[place]? :=
  ⟨siftDown_heapOrdered order.lowers ready, siftDown_perm less storage position,
    fun _ outside => getElem?_siftDown_of_not_atOrAbove less storage position outside⟩

/-- A number in the midst of ten is at fault under proper divisibility, which ranks nothing. It goes
down two levels, and nothing moves outside the branch. -/
theorem siftDown_repairs_divisors :
    let storage : Vector Nat 10 := #v[2, 24, 3, 4, 6, 9, 5, 8, 12, 18]
    StrictPartialOrder divisorFirst ∧ LowerReady divisorFirst storage 1 ∧
      ¬ HeapOrdered divisorFirst storage.toArray ∧
      siftDown divisorFirst storage 1 = #v[2, 4, 3, 8, 6, 9, 5, 24, 12, 18] ∧
      HeapOrdered divisorFirst (siftDown divisorFirst storage 1).toArray := by
  intro storage
  have ready : LowerReady divisorFirst storage 1 := ⟨by decide, by decide⟩
  have repaired := siftDown_repairs_position strictPartialOrder_divisorFirst ready
  exact ⟨strictPartialOrder_divisorFirst, ready, by decide, by decide +kernel, repaired.1⟩

/-- Lifting an element leaves alone what is not at or above its position. -/
theorem getElem?_siftUp_of_not_atOrAbove (less : α → α → Bool) (storage : Vector α n)
    (position : Nat) (inside : position < n) {place : Nat} (outside : ¬ AtOrAbove place position) :
    (siftUp less storage position inside)[place]? = storage[place]? := by
  obtain ⟨steps, -, rotated⟩ := siftUp_rotated less storage position inside
  have off : place ∉ List.iterate parent position (steps + 1) := by
    rw [List.mem_iterate]
    rintro ⟨count, -, reached⟩
    exact outside ⟨count, reached.symm⟩
  simpa using rotated.stays place off

/-- Lifting repairs one position. If storage is in order under a strict weak order but for the
element at a position, and no child of the position precedes the position's parent (or the element
is not going to be lifted past that at all), then lifting the element puts the whole storage in
order. It rearranges the elements, and only those at or above the position. -/
theorem siftUp_repairs_position {storage : Vector α n} {position : Nat} {inside : position < n}
    (order : StrictWeakOrder less) (ready : LiftReady less less storage position inside) :
    HeapOrdered less (siftUp less storage position inside).toArray ∧
    (siftUp less storage position inside).Perm storage ∧
    ∀ place, ¬ AtOrAbove place position →
      (siftUp less storage position inside)[place]? = storage[place]? := by
  have lifts : Lifts less less := order.agreesUpToTies.lifts order
  refine ⟨siftUp_heapOrdered lifts ready, siftUp_perm less storage position inside, ?_⟩
  intro place outside
  exact getElem?_siftUp_of_not_atOrAbove less storage position inside outside

/-- A number in the midst of eleven is at fault under the order of tens. It goes up two levels to the
root, one of the two numbers that it passes is let down above a number with the same tens, and
nothing moves off the chain of parents. -/
theorem siftUp_repairs_tens :
    let tens : Int → Int → Bool := fun left right => NaturalOrder.lt (left / 10) (right / 10)
    let storage : Vector Int 11 := #v[20, 31, 25, 38, 12, 40, 29, 55, 39, 33, 47]
    StrictWeakOrder tens ∧ LiftReady tens tens storage 4 (by decide) ∧
      ¬ HeapOrdered tens storage.toArray ∧
      siftUp tens storage 4 (by decide) = #v[12, 20, 25, 38, 31, 40, 29, 55, 39, 33, 47] ∧
      HeapOrdered tens (siftUp tens storage 4 (by decide)).toArray := by
  intro tens storage
  have weak : StrictWeakOrder tens := strictWeakOrder_int.along (· / 10)
  have ready : LiftReady tens tens storage 4 (by decide) := ⟨by decide, by decide⟩
  have repaired := siftUp_repairs_position weak ready
  exact ⟨weak, ready, by decide, by decide +kernel, repaired.1⟩

end PriorityQueue
