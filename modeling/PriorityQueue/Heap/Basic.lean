import PriorityQueue.Failure
import PriorityQueue.Precedence
import PriorityQueue.Sift

/-!
# Binary heaps

A heap is storage laid out level by level, together with the rule it is kept in order by. `push`
appends an element and sifts it up; `pop?` moves the last element into the place of the first
and sifts it down. The other operations are built from these two. A heap also counts the spare
places that its storage surely has: those promised ahead of insertions and those that removed
elements left behind. They bound the capacity from below, and only a transfer to other storage
or a request to give them back takes them away. They never change where elements stand or what
is answered about the elements.

Room is promised in elements, and how many there is room for depends on how many bytes each takes
up: a block of storage is addressed by signed offsets, so that its bytes number at most half of the
64-bit words. Elements that take up no bytes are limited by the counter alone and never need room
to be made. Only promises are refused; that a machine may have no room for one more element is left
out.
-/

namespace PriorityQueue

universe u v

/-- Elements to be given one after the other, behind an announced count: a promise to whoever makes
room that there are at least so many. Nothing checks it against the elements that follow. -/
structure Batch (α : Type u) where
  /-- The elements in the order they are given. -/
  elements : List α
  /-- The announced least number of elements. -/
  announced : Nat := 0
deriving DecidableEq

/-- A batch that announces exactly the number of elements it gives. -/
def Batch.ofList {α : Type u} (elements : List α) : Batch α := ⟨elements, elements.length⟩

/-- How much space the elements of a type take up in storage. -/
class Footprint (α : Type u) where
  /-- The number of bytes of one element. -/
  width : Nat

/-- Whether elements take up no space at all. -/
def Footprint.zeroSized (α : Type u) [Footprint α] : Bool := Footprint.width α == 0

/-- The greatest count that a machine word holds. -/
def wordLimit : Nat := UInt64.size - 1

/-- The greatest number of bytes in a block of storage. -/
def blockLimit : Nat := UInt64.size / 2 - 1

/-- The greatest number of elements of a type that storage can be asked to hold. -/
def capacityLimit (α : Type u) [Footprint α] : Nat :=
  if Footprint.zeroSized α then wordLimit else blockLimit / Footprint.width α

/-- A priority queue: storage in level order under a rule of precedence. -/
structure Heap (α : Type u) (ρ : Type v) where
  /-- The elements, level by level. -/
  storage : Array α
  /-- The rule that decides which element leaves first. -/
  rule : ρ
  /-- The number of further elements that storage surely holds without growing. -/
  spare : Nat := 0

namespace Heap

variable {α : Type u} {ρ : Type v}

/-- The empty heap under a rule, with nothing promised. -/
def empty (rule : ρ) : Heap α ρ := ⟨#[], rule, 0⟩

/-- The number of elements. -/
def size (heap : Heap α ρ) : Nat := heap.storage.size

/-- Whether there is no element. -/
def isEmpty (heap : Heap α ρ) : Bool := heap.storage.isEmpty

/-- The elements in level order. -/
def toList (heap : Heap α ρ) : List α := heap.storage.toList

/-- The element that would leave next, if there is one. -/
def peek? (heap : Heap α ρ) : Option α := heap.storage[0]?

/-- The element that would leave next; asking an empty heap is a failure. -/
def top (heap : Heap α ρ) : Except Failure α :=
  match heap.peek? with
  | some element => .ok element
  | none => .error .emptyTop

/-- The same heap without its elements, whose places become spare. -/
def clear (heap : Heap α ρ) : Heap α ρ :=
  { heap with storage := #[], spare := heap.spare + heap.size }

section Ruled

variable [Precedence ρ α]

/-- Adds an element at the end, in a spare place if there is one, and lifts it to its place. -/
def push (heap : Heap α ρ) (element : α) : Heap α ρ :=
  let longer := (heap.storage.push element).toVector
  have inside : heap.storage.size < (heap.storage.push element).size := by simp
  { heap with
    storage := (siftUp (precedes heap.rule) longer heap.storage.size inside).toArray
    spare := heap.spare - 1 }

/-- Lowers the first element of an array to its place. -/
def settleRoot (less : α → α → Bool) (storage : Array α) : Array α :=
  if nonempty : 0 < storage.size then
    (siftDown less storage.toVector ⟨0, nonempty⟩).toArray
  else storage

/-- Takes out the first element: the last one replaces it and is lowered to its place. The place
at the end becomes spare. -/
def pop? (heap : Heap α ρ) : Option (α × Heap α ρ) :=
  if nonempty : 0 < heap.storage.size then
    let first := heap.storage[0]
    let shorter := (heap.storage.swap 0 (heap.storage.size - 1)).pop
    some (first, { heap with
      storage := settleRoot (precedes heap.rule) shorter
      spare := heap.spare + 1 })
  else none

/-- Settling the root moves elements without changing their number. -/
@[simp] theorem size_settleRoot (less : α → α → Bool) (storage : Array α) :
    (settleRoot less storage).size = storage.size := by
  unfold settleRoot
  split <;> simp

/-- A successful removal leaves one element fewer. -/
theorem size_of_pop? {heap rest : Heap α ρ} {element : α}
    (popped : heap.pop? = some (element, rest)) : rest.size + 1 = heap.size := by
  unfold pop? at popped
  split at popped
  · obtain ⟨rfl, rfl⟩ := popped
    simp [size]
    omega
  · simp at popped

/-- Removes elements until none is left; gives them in the order they leave, and what remains. -/
def popAll (heap : Heap α ρ) : List α × Heap α ρ :=
  match _removal : heap.pop? with
  | none => ([], heap)
  | some (element, rest) =>
    let (elements, last) := rest.popAll
    (element :: elements, last)
termination_by heap.size
decreasing_by
  have fewer := size_of_pop? _removal
  omega

/-- The elements in the order they leave. -/
def toSorted (heap : Heap α ρ) : List α := heap.popAll.1

/-- Adds elements one after the other. -/
def pushAll (heap : Heap α ρ) (elements : List α) : Heap α ρ := elements.foldl push heap

end Ruled

section Room

variable [Footprint α]

/-- The number of elements that the heap surely holds without asking for more storage. -/
def capacity (heap : Heap α ρ) : Nat :=
  if Footprint.zeroSized α then wordLimit else heap.size + heap.spare

/-- Promises room for more elements, unless storage can never have that much. -/
def reserve (heap : Heap α ρ) (additional : Nat) : Except Failure (Heap α ρ) :=
  if heap.size + additional ≤ capacityLimit α then
    .ok { heap with spare := max heap.spare additional }
  else .error .capacityOverflow

/-- Gives back all room that the elements do not take up. -/
def shrinkToFit (heap : Heap α ρ) : Heap α ρ := { heap with spare := 0 }

/-- An empty heap under a rule that must be given, with room promised. A missing rule is refused
before the room is looked at. -/
def create (rule : Option ρ) (room : Nat) : Except Failure (Heap α ρ) :=
  match rule with
  | none => .error (.invalidArgument .missingRule)
  | some rule => (empty rule).reserve room

/-- Makes room for the announced number of elements, then adds those that come. -/
def extend [Precedence ρ α] (heap : Heap α ρ) (batch : Batch α) : Except Failure (Heap α ρ) :=
  match heap.reserve batch.announced with
  | .ok roomy => .ok (roomy.pushAll batch.elements)
  | .error failure => .error failure

/-- A heap of the elements of a batch. -/
def gather [Precedence ρ α] (rule : ρ) (batch : Batch α) : Except Failure (Heap α ρ) :=
  (empty rule).extend batch

end Room

/-- A copy holds the same elements under the same rule and has no spare places. -/
def copy (heap : Heap α ρ) : Heap α ρ := { heap with spare := 0 }

/-- Elements and rule are taken from the source together; storage that the heap had is kept, and
what the new elements leave of it is spare. -/
def assign (heap source : Heap α ρ) : Heap α ρ :=
  { source with spare := heap.size + heap.spare - source.size }

end Heap

instance instDescribeHeap {α : Type u} {ρ : Type v} [Describe α] : Describe (Heap α ρ) where
  outline heap := outline heap.toList

end PriorityQueue
