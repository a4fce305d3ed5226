import PriorityQueue.Heap.Lemmas
import PriorityQueue.Proofs.SiftOrder

/-!
# The operations keep heap order

Adding an element disturbs the order only at the last position, and taking one out only below the
root; in both cases the sifting that follows repairs it. In storage that is in order under a
strict weak order the root is minimal over the whole tree.
-/

namespace PriorityQueue

universe u v

variable {α : Type u} {ρ : Type v}

/-- Lifting repairs heap order under a strict weak order if the rule agrees with it up to ties. -/
theorem AgreesUpToTies.lifts {order less : α → α → Bool} (agrees : AgreesUpToTies order less)
    (weak : StrictWeakOrder order) : Lifts order less where
  stays _ _ same := agrees.not_before same
  passes element above climbs := agrees.notAfter element above climbs
  sibling element above _ climbs stood :=
    weak.not_less_trans stood (agrees.notAfter element above climbs)
  cousin _ _ _ _ _ _ stood edge := weak.not_less_trans stood edge

/-- Lowering repairs heap order under a strict weak order if the rule agrees with it up to ties. -/
theorem AgreesUpToTies.lowers {order less : α → α → Bool} (agrees : AgreesUpToTies order less)
    (weak : StrictWeakOrder order) : Lowers order less where
  stays _ _ same := agrees.not_before same
  passes child above climbs := agrees.notAfter child above climbs
  second left right sinking beats leftBeats :=
    weak.not_less_trans (agrees.notAfter left sinking leftBeats) (agrees.notAfter right left beats)
  skipped _ right sinking loses beats :=
    weak.not_less_trans (agrees.not_before loses) (agrees.notAfter right sinking beats)

/-- A strict partial order repairs its own heap order by lowering. -/
theorem StrictPartialOrder.lowers {less : α → α → Bool} (order : StrictPartialOrder less) :
    Lowers less less where
  stays _ _ same := same
  passes _ _ climbs := order.asymmetric climbs
  second left right sinking beats leftBeats := by
    have before := order.transitive right left sinking beats leftBeats
    exact order.asymmetric before
  skipped left right sinking loses beats := by
    cases before : less left right with
    | false => rfl
    | true =>
      have through := order.transitive left right sinking before beats
      rw [loses] at through
      exact absurd through (by decide)

/-- In storage in order under a strict weak order no element precedes the first. -/
theorem HeapOrdered.not_less_first {less : α → α → Bool} {storage : Array α}
    (ordered : HeapOrdered less storage) (order : StrictWeakOrder less) {first : α}
    (top : storage[0]? = some first) : ∀ element ∈ storage, less element first = false := by
  obtain ⟨nonempty, rfl⟩ := Array.getElem?_eq_some_iff.1 top
  -- Every position is reached from the root along its chain of parents.
  have reached : ∀ position (inside : position < storage.size),
      less storage[position] storage[0] = false := by
    intro position
    induction position using Nat.strongRecOn with
    | ind position hypothesis =>
      intro inside
      by_cases root : position = 0
      · subst root
        exact order.irreflexive _
      · have below : 0 < position := Nat.pos_of_ne_zero root
        have higher : parent position < position := parent_lt below
        have edge := heapOrdered_iff.1 ordered position inside (by omega) below
        exact order.not_less_trans edge (hypothesis (parent position) higher (by omega))
  intro element member
  obtain ⟨position, inside, rfl⟩ := Array.mem_iff_getElem.1 member
  exact reached position inside

section Ruled

variable [Precedence ρ α] {heap rest : Heap α ρ} {order : α → α → Bool}

/-- An element appended to storage in order is ready to be lifted. -/
theorem HeapOrdered.liftReady {storage : Array α} (ordered : HeapOrdered order storage)
    (less : α → α → Bool) (element : α) (inside : storage.size < (storage.push element).size) :
    LiftReady order less (storage.push element).toVector storage.size inside := by
  constructor
  · intro place within above nonroot elsewhere
    have lower : parent place < place := parent_lt nonroot
    have bound : place < storage.size + 1 := by simpa using within
    have edge := heapOrdered_iff.1 ordered place (by omega) (by omega) nonroot
    simp only [Vector.getElem_mk]
    rw [Array.getElem_push_lt (by omega), Array.getElem_push_lt (by omega)]
    exact edge
  · intro child within above nonroot below
    have bound : child < storage.size + 1 := by simpa using within
    have nonzero : 0 < child := by
      rcases Nat.eq_zero_or_pos child with rfl | positive
      · simp only [parent, Nat.zero_sub, Nat.zero_div] at below
        omega
      · exact positive
    have lower : parent child < child := parent_lt nonzero
    omega

/-- Adding an element keeps storage in order. -/
theorem HeapOrdered.push (ordered : HeapOrdered order heap.storage)
    (lifts : Lifts order (precedes heap.rule)) (element : α) :
    HeapOrdered order (heap.push element).storage :=
  siftUp_heapOrdered lifts (ordered.liftReady (precedes heap.rule) element (by simp))

/-- Storage in order whose root was replaced by its last element is ready to be lowered. -/
theorem HeapOrdered.lowerReady {storage : Array α} (ordered : HeapOrdered order storage)
    (nonempty : 0 < storage.size) (last : storage.size - 1 < storage.size)
    (inside : 0 < (storage.swap 0 (storage.size - 1)).pop.size) :
    LowerReady order (storage.swap 0 (storage.size - 1)).pop.toVector ⟨0, inside⟩ := by
  constructor
  · intro place within above nonroot elsewhere
    have bound : place < storage.size - 1 := by simpa using within
    have lower : parent place < place := parent_lt nonroot
    have edge := heapOrdered_iff.1 ordered place (by omega) (by omega) nonroot
    simp only [Vector.getElem_mk, Array.getElem_pop]
    rw [Array.getElem_swap_of_ne (by omega) (by omega),
      Array.getElem_swap_of_ne elsewhere (by omega)]
    exact edge
  · intro child within above nonroot
    exact absurd nonroot (Nat.lt_irrefl 0)

/-- Taking an element out keeps storage in order. -/
theorem HeapOrdered.pop (ordered : HeapOrdered order heap.storage)
    (lowers : Lowers order (precedes heap.rule)) {element : α}
    (popped : heap.pop? = some (element, rest)) : HeapOrdered order rest.storage := by
  unfold Heap.pop? at popped
  split at popped
  case isTrue nonempty =>
    obtain ⟨rfl, rfl⟩ := popped
    dsimp only
    unfold Heap.settleRoot
    split
    case isTrue inside =>
      have last : heap.storage.size - 1 < heap.storage.size := by omega
      exact siftDown_heapOrdered lowers (ordered.lowerReady nonempty last inside)
    case isFalse outside =>
      -- Nothing is left to settle.
      have vacant : (heap.storage.swap 0 (heap.storage.size - 1)).pop = #[] := by
        apply Array.eq_empty_of_size_eq_zero
        omega
      rw [vacant]
      exact heapOrdered_empty order
  case isFalse => simp at popped

end Ruled

end PriorityQueue
