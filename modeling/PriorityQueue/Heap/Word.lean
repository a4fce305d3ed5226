import PriorityQueue.Operation
import PriorityQueue.Sift.Word

/-!
# Heaps whose positions are words

The operations of a heap once more, with the two sifting loops on machine words. Additions and
removals give nothing if a loop reads outside the storage or is not done within the given number of
rounds; the other operations do not sift and stay as they are. `SufficeForAll` says of a run that
storage can count the elements in every step, and that none is taken out where words do not suffice
on the way down.
-/

namespace PriorityQueue.Word

universe u v

variable {α : Type u} {ρ : Type v}

section Ruled

variable [Precedence ρ α]

/-- Adds an element at the end and lifts it to its place. -/
def push? (rounds : Nat) (heap : Heap α ρ) (element : α) : Option (Heap α ρ) :=
  let longer := heap.storage.push element
  (siftUp (precedes heap.rule) rounds longer (.ofNat longer.size - 1)).map fun storage =>
    { heap with storage, spare := heap.spare - 1 }

/-- Adds elements one after the other. -/
def pushAll? (rounds : Nat) (heap : Heap α ρ) : List α → Option (Heap α ρ)
  | [] => some heap
  | element :: elements =>
    (push? rounds heap element).bind fun longer => pushAll? rounds longer elements

/-- Lowers the first element of an array, if there is one, to its place. -/
def settleRoot? (less : α → α → Bool) (rounds : Nat) (storage : Array α) : Option (Array α) :=
  if storage.isEmpty then some storage else siftDown less rounds storage 0

/-- Takes out the first element, which the last one replaces; inside, nothing is given if there is
none. -/
def pop? (rounds : Nat) (heap : Heap α ρ) : Option (Option (α × Heap α ρ)) :=
  match heap.storage[0]? with
  | none => some none
  | some first =>
    let shorter := (exchange heap.storage 0 (.ofNat heap.storage.size - 1)).pop
    (settleRoot? (precedes heap.rule) rounds shorter).map fun storage =>
      some (first, { heap with storage, spare := heap.spare + 1 })

/-- Takes out elements, as many as are asked for or are there; gives them in the order they leave,
and what remains. -/
def popMany? (rounds : Nat) : Nat → Heap α ρ → Option (List α × Heap α ρ)
  | 0, heap => some ([], heap)
  | count + 1, heap =>
    (pop? rounds heap).bind fun
      | none => some ([], heap)
      | some (element, rest) =>
        (popMany? rounds count rest).map fun (elements, last) => (element :: elements, last)

variable [Footprint α]

/-- The outcome of an operation and the heap afterwards. -/
def step? (rounds : Nat) (heap : Heap α ρ) :
    Operation α → Option (Except Failure (Answer α ρ) × Heap α ρ)
  | .push element => (push? rounds heap element).map fun longer => (.ok .done, longer)
  | .extend batch =>
    match heap.reserve batch.announced with
    | .ok roomy => (pushAll? rounds roomy batch.elements).map fun longer => (.ok .done, longer)
    | .error failure => some (.error failure, heap)
  | .pop =>
    (pop? rounds heap).map fun
      | some (element, rest) => (.ok (.item (some element)), rest)
      | none => (.ok (.item none), heap)
  | .popAll =>
    (popMany? rounds heap.size heap).map fun (elements, rest) => (.ok (.items elements), rest)
  | operation => some (heap.step operation)

/-- The outcomes of operations made one after the other, and the heap after the last. -/
def run? (rounds : Nat) (heap : Heap α ρ) :
    List (Operation α) → Option (List (Except Failure (Answer α ρ)) × Heap α ρ)
  | [] => some ([], heap)
  | operation :: operations =>
    (step? rounds heap operation).bind fun (outcome, after) =>
      (run? rounds after operations).map fun (outcomes, last) => (outcome :: outcomes, last)

end Ruled

/-- Words suffice to take one of so many elements out. Elements that take up space are at most as
many as a block has bytes. Others are all the same; they can fill the whole range of words, and then
the rule must not put an element before itself. -/
def Suffice (less : α → α → Bool) (count : Nat) : Prop :=
  count ≤ blockLimit ∨ Subsingleton α ∧
    (count < wordLimit ∨ count = wordLimit ∧ ∀ element, less element element = false)

variable [Precedence ρ α]

/-- Words suffice for an operation: they count the elements that are added, or suffice to take
elements out. -/
def SufficeFor (heap : Heap α ρ) : Operation α → Prop
  | .push _ => heap.size < wordLimit
  | .extend batch => heap.size + batch.elements.length ≤ wordLimit
  | .pop => Suffice (precedes heap.rule) heap.size
  | .popAll => Suffice (precedes heap.rule) heap.size
  | _ => True

/-- Words suffice for each of the operations of a run. -/
def SufficeForAll [Footprint α] (heap : Heap α ρ) : List (Operation α) → Prop
  | [] => True
  | operation :: operations =>
    SufficeFor heap operation ∧ SufficeForAll (heap.step operation).2 operations

end PriorityQueue.Word
