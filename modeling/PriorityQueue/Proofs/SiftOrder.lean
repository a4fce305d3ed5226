import PriorityQueue.Heap.Ordered
import PriorityQueue.Sift.Lemmas

/-!
# Sifting repairs heap order

Each loop starts from storage that is in order but for one position, and its swaps move the
trouble along a branch until it is gone. The rule that the loop asks and the order that it repairs
are kept apart: `Lifts` and `Lowers` list the few facts that connect the answers of the one to the
other. A rule that is itself a strict weak order connects to itself, and `Lowers` asks no more
than a strict partial order.
-/

namespace PriorityQueue

universe u

variable {α : Type u} {n : Nat} {order less : α → α → Bool}

/-- The facts by which lifting, when it asks `less`, repairs heap order under `order`. -/
structure Lifts (order less : α → α → Bool) : Prop where
  /-- An element that is not lifted past its parent does not precede it. -/
  stays : ∀ element above, less element above = false → order element above = false
  /-- An element that is passed does not precede the one that passes it. -/
  passes : ∀ element above, less element above = true → order above element = false
  /-- What stands below an element may stand below one that passes it. -/
  sibling : ∀ element above other, less element above = true →
    order other above = false → order other element = false
  /-- What stands below two passed elements in turn may stand below the upper one directly. -/
  cousin : ∀ element above higher other, less element above = true →
    less element higher = true → order other above = false → order above higher = false →
      order other higher = false

/-- Storage in order but for the place of one element, whose children may take the place that it
leaves if it is lifted. -/
structure LiftReady (order less : α → α → Bool) (storage : Vector α n) (position : Nat)
    (inside : position < n) : Prop where
  /-- No other element precedes its parent. -/
  others : ∀ place (within : place < n) (above : parent place < n), 0 < place →
    place ≠ position → order storage[place] storage[parent place] = false
  /-- If the element is going to be lifted, its children do not precede its parent. -/
  grand : ∀ child (within : child < n) (above : parent position < n), 0 < position →
    parent child = position → less storage[position] storage[parent position] = true →
      order storage[child] storage[parent position] = false

/-- Lifting an element past its parent leaves storage in order but for its new place. -/
theorem LiftReady.climb {storage : Vector α n} {position : Nat} {inside : position < n}
    (lifts : Lifts order less) (ready : LiftReady order less storage position inside)
    (above : parent position < n) (below : 0 < position)
    (climbs : less storage[position] storage[parent position] = true) :
    LiftReady order less (storage.swap position (parent position)) (parent position) above := by
  have higher : parent position < position := parent_lt below
  constructor
  · intro place within upper nonroot elsewhere
    have lower : parent place < place := parent_lt nonroot
    by_cases here : place = position
    · subst here
      rw [Vector.getElem_swap_left, Vector.getElem_swap_right]
      exact lifts.passes _ _ climbs
    have unmoved : (storage.swap position (parent position))[place] = storage[place] :=
      Vector.getElem_swap_of_ne here elsewhere
    rw [unmoved]
    by_cases child : parent place = position
    · simp only [child, Vector.getElem_swap_left]
      exact ready.grand place within above below child climbs
    by_cases sibling : parent place = parent position
    · have stood := ready.others place within upper nonroot here
      simp only [sibling, Vector.getElem_swap_right] at stood ⊢
      exact lifts.sibling _ _ _ climbs stood
    · rw [Vector.getElem_swap_of_ne child sibling]
      exact ready.others place within upper nonroot here
  · intro child within top nonroot isChild passes
    have highest : parent (parent position) < parent position := parent_lt nonroot
    have lower : parent child ≤ child := parent_le child
    have edge := ready.others (parent position) above top nonroot (by omega)
    rw [Vector.getElem_swap_right, Vector.getElem_swap_of_ne (by omega) (by omega)] at passes
    rw [Vector.getElem_swap_of_ne (k := parent (parent position)) (by omega) (by omega)]
    by_cases here : child = position
    · simp only [here, Vector.getElem_swap_left]
      exact edge
    · have apart : child ≠ parent position := by
        intro same
        rw [same] at isChild
        omega
      have stood := ready.others child within (by omega) (by omega) here
      rw [Vector.getElem_swap_of_ne here apart]
      simp only [isChild] at stood
      exact lifts.cousin _ _ _ _ climbs passes stood edge

/-- Lifting the element at fault puts storage in order. -/
theorem siftUp_heapOrdered {storage : Vector α n} {position : Nat} {inside : position < n}
    (lifts : Lifts order less) (ready : LiftReady order less storage position inside) :
    HeapOrdered order (siftUp less storage position inside).toArray := by
  fun_induction siftUp less storage position inside with
  | case1 storage position inside below above climbs hypothesis =>
    exact hypothesis (ready.climb lifts above below climbs)
  | case2 storage position inside below above stays =>
    rw [heapOrdered_iff]
    intro place within upper nonroot
    by_cases here : place = position
    · subst here
      exact lifts.stays _ _ (by simpa using stays)
    · exact ready.others place (by simpa using within) (by simpa using upper) nonroot here
  | case3 storage position inside root =>
    rw [heapOrdered_iff]
    intro place within upper nonroot
    exact ready.others place (by simpa using within) (by simpa using upper) nonroot (by omega)

/-- The ways in which one among a position and its children wins, with the answers that decide. -/
inductive Wins (less : α → α → Bool) (storage : Vector α n) (position : Nat)
    (within : position < n) : Nat → Prop
  /-- No child precedes the position. -/
  | stays
      (noLeft : ∀ inside : leftChild position < n,
        less storage[leftChild position] storage[position] = false)
      (noRight : ∀ inside : rightChild position < n,
        less storage[rightChild position] storage[position] = false) :
      Wins less storage position within position
  /-- The left child precedes the position, and the right child does not precede the left. -/
  | left (inside : leftChild position < n)
      (beats : less storage[leftChild position] storage[position] = true)
      (noRight : ∀ inside : rightChild position < n,
        less storage[rightChild position] storage[leftChild position] = false) :
      Wins less storage position within (leftChild position)
  /-- The left child precedes the position, and the right child precedes the left. -/
  | second (leftInside : leftChild position < n) (inside : rightChild position < n)
      (leftBeats : less storage[leftChild position] storage[position] = true)
      (beats : less storage[rightChild position] storage[leftChild position] = true) :
      Wins less storage position within (rightChild position)
  /-- Only the right child precedes the position. -/
  | right (inside : rightChild position < n)
      (noLeft : ∀ inside : leftChild position < n,
        less storage[leftChild position] storage[position] = false)
      (beats : less storage[rightChild position] storage[position] = true) :
      Wins less storage position within (rightChild position)

/-- The winner wins in one of these ways. -/
theorem wins_winner (less : α → α → Bool) (storage : Vector α n) (position : Fin n) :
    Wins less storage position position.isLt (winner less storage position) := by
  unfold winner
  by_cases leftWins : ∃ inside : leftChild position < n,
      less storage[leftChild position] storage[position] = true
  · obtain ⟨leftInside, leftBeats⟩ := leftWins
    have first : leftWinner less storage position = ⟨leftChild position, leftInside⟩ := by
      simp only [leftWinner, leftInside, leftBeats, dite_true, if_true]
    simp only [first, Fin.getElem_fin]
    split
    case isTrue inside =>
      split
      case isTrue beats => exact .second leftInside inside leftBeats beats
      case isFalse loses => exact .left leftInside leftBeats fun _ => by simpa using loses
    case isFalse outside => exact .left leftInside leftBeats fun inside => absurd inside outside
  · have noLeft : ∀ inside : leftChild position < n,
        less storage[leftChild position] storage[position] = false := by
      simpa using leftWins
    have first : leftWinner less storage position = position := by
      unfold leftWinner
      split
      case isTrue inside => rw [if_neg (by rw [noLeft inside]; decide)]
      case isFalse => rfl
    simp only [first]
    split
    case isTrue inside =>
      split
      case isTrue beats => exact .right inside noLeft beats
      case isFalse loses => exact .stays noLeft fun _ => by simpa using loses
    case isFalse outside => exact .stays noLeft fun inside => absurd inside outside

/-- A winner other than the position is one of its children. -/
theorem Wins.child {storage : Vector α n} {position best : Nat} {within : position < n}
    (wins : Wins less storage position within best) (moved : best ≠ position) :
    best = leftChild position ∨ best = rightChild position := by
  cases wins with
  | stays => exact absurd rfl moved
  | left => exact .inl rfl
  | second => exact .inr rfl
  | right => exact .inr rfl

/-- The facts by which lowering, when it asks `less`, repairs heap order under `order`. -/
structure Lowers (order less : α → α → Bool) : Prop where
  /-- A child that does not win does not precede the winner. -/
  stays : ∀ child above, less child above = false → order child above = false
  /-- An element that is passed does not precede the one that passes it. -/
  passes : ∀ child above, less child above = true → order above child = false
  /-- The right child may stand above what the left child, which it beats, has beaten. -/
  second : ∀ left right sinking, less right left = true → less left sinking = true →
    order sinking right = false
  /-- The right child may stand above a left child that did not win. -/
  skipped : ∀ left right sinking, less left sinking = false → less right sinking = true →
    order left right = false

/-- Neither a position nor a child of it precedes the winner among them. -/
theorem Wins.not_preceded {storage : Vector α n} {position best place : Nat}
    {within : position < n} (wins : Wins less storage position within best)
    (lowers : Lowers order less) (there : best < n) (here : place < n)
    (near : place = position ∨ place = leftChild position ∨ place = rightChild position)
    (beaten : place ≠ best) : order storage[place] storage[best] = false := by
  cases wins with
  | stays noLeft noRight =>
    rcases near with same | rfl | rfl
    · exact absurd same beaten
    · exact lowers.stays _ _ (noLeft here)
    · exact lowers.stays _ _ (noRight here)
  | left inside beats noRight =>
    rcases near with rfl | rfl | rfl
    · exact lowers.passes _ _ beats
    · exact absurd rfl beaten
    · exact lowers.stays _ _ (noRight here)
  | second leftInside inside leftBeats beats =>
    rcases near with rfl | rfl | rfl
    · exact lowers.second _ _ _ beats leftBeats
    · exact lowers.passes _ _ beats
    · exact absurd rfl beaten
  | right inside noLeft beats =>
    rcases near with rfl | rfl | rfl
    · exact lowers.passes _ _ beats
    · exact lowers.skipped _ _ _ (noLeft here) beats
    · exact absurd rfl beaten

/-- Storage in order but for the children of one position, which may stand below its parent. -/
structure LowerReady (order : α → α → Bool) (storage : Vector α n) (position : Fin n) :
    Prop where
  /-- No element but the children of the position precedes its parent. -/
  others : ∀ place (within : place < n) (above : parent place < n), 0 < place →
    parent place ≠ position → order storage[place] storage[parent place] = false
  /-- No child of the position precedes the parent of the position. -/
  grand : ∀ child (within : child < n) (above : parent position < n), 0 < position.val →
    parent child = position → order storage[child] storage[parent position] = false

/-- Lowering an element past the winner leaves storage in order but for the children of its new
place. -/
theorem LowerReady.sink {storage : Vector α n} {position best : Fin n}
    (lowers : Lowers order less) (ready : LowerReady order storage position)
    (wins : Wins less storage position position.isLt best) (moved : best.val ≠ position) :
    LowerReady order (storage.swap position best position.isLt best.isLt) best := by
  have later : position.val < best.val := by
    rcases wins.child moved with left | right
    · rw [left]
      exact lt_leftChild position
    · rw [right]
      exact lt_rightChild position
  have isChild : parent best = position := by
    rcases wins.child moved with left | right
    · rw [left, parent_leftChild]
    · rw [right, parent_rightChild]
  constructor
  · intro place within above nonroot elsewhere
    by_cases here : place = position
    · have higher : parent position < position := parent_lt (by omega)
      subst here
      rw [Vector.getElem_swap_left, Vector.getElem_swap_of_ne (by omega) (by omega)]
      exact ready.grand best best.isLt above nonroot isChild
    by_cases child : parent place = position
    · simp only [child, Vector.getElem_swap_left]
      have near := child_of_parent nonroot
      rw [child] at near
      by_cases won : place = best
      · simp only [won, Vector.getElem_swap_right]
        exact wins.not_preceded lowers best.isLt position.isLt (.inl rfl) (Ne.symm moved)
      · rw [Vector.getElem_swap_of_ne here won]
        exact wins.not_preceded lowers best.isLt within (.inr near) won
    · have lost : place ≠ best := fun same => child (by rw [same, isChild])
      rw [Vector.getElem_swap_of_ne here lost, Vector.getElem_swap_of_ne child elsewhere]
      exact ready.others place within above nonroot child
  · intro child within above nonroot below
    have lower : parent child ≤ child := parent_le child
    have stood := ready.others child within (by omega) (by omega) (by omega)
    simp only [isChild, Vector.getElem_swap_left]
    rw [Vector.getElem_swap_of_ne (by omega) (by intro same; subst same; omega)]
    simpa only [below] using stood

/-- Lowering the element at fault puts storage in order. -/
theorem siftDown_heapOrdered {storage : Vector α n} {position : Fin n}
    (lowers : Lowers order less) (ready : LowerReady order storage position) :
    HeapOrdered order (siftDown less storage position).toArray := by
  fun_induction siftDown less storage position with
  | case1 storage position best settled =>
    have wins := wins_winner less storage position
    rw [show winner less storage position = position from settled] at wins
    rw [heapOrdered_iff]
    intro place within above nonroot
    simp only [Vector.size_toArray, Vector.getElem_toArray] at within above ⊢
    have lower : parent place < place := parent_lt nonroot
    by_cases child : parent place = position
    · have near := child_of_parent nonroot
      rw [child] at near
      simp only [child]
      exact wins.not_preceded lowers position.isLt within (.inr near) (by omega)
    · exact ready.others place within above nonroot child
  | case2 storage position best moved hypothesis =>
    have apart : best.val ≠ position := fun same => moved (Fin.ext same)
    exact hypothesis (ready.sink lowers (wins_winner less storage position) apart)

end PriorityQueue
