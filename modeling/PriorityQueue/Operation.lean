import PriorityQueue.Cursor
import PriorityQueue.Heap.Basic

/-!
# Operations on one heap

`Operation` lists what may be asked of a heap that stays in place, and `Answer` what is given
back. `Heap.perform` carries an operation out or fails. An operation only ever looks at its
elements through the rule of the heap: where a description is asked for, the answer carries the
elements to be described, not a text. `Heap.step` keeps the heap as it was when an operation fails.
-/

namespace PriorityQueue

universe u v

/-- What may be asked of a heap that stays in place. -/
inductive Operation (α : Type u) where
  /-- Add an element. -/
  | push (element : α)
  /-- Add the elements of a batch. -/
  | extend (batch : Batch α)
  /-- Take out the element that leaves next. -/
  | pop
  /-- Take out all elements in the order they leave. -/
  | popAll
  /-- Take out all elements at once. -/
  | clear
  /-- Take out all elements under a cursor. -/
  | drain (steps : List Cursor.Step)
  /-- Look at the element that leaves next, which must exist. -/
  | top
  /-- Look at the element that leaves next, if there is one. -/
  | peek
  /-- Count the elements. -/
  | size
  /-- Ask whether there are no elements. -/
  | isEmpty
  /-- Look at all elements in level order. -/
  | storage
  /-- Look at the elements under a cursor. -/
  | visit (steps : List Cursor.Step)
  /-- Ask the rule about two elements. -/
  | compare (left right : α)
  /-- Promise room for more elements. -/
  | reserve (additional : Nat)
  /-- Give back room that is not taken up. -/
  | shrinkToFit
  /-- Ask whether the capacity covers the elements and a given number. -/
  | holds (minimum : Nat)
  /-- Describe the elements in level order. -/
  | describe (layout : Layout)
  /-- Describe the rule. -/
  | describeRule (layout : Layout)
deriving DecidableEq

/-- What an operation gives back. -/
inductive Answer (α : Type u) (ρ : Type v) where
  /-- There is nothing to give back. -/
  | done
  /-- An element that certainly exists. -/
  | element (element : α)
  /-- An element, if there is one. -/
  | item (element : Option α)
  /-- Several elements. -/
  | items (elements : List α)
  /-- A number of elements. -/
  | count (number : Nat)
  /-- A decision. -/
  | verdict (decision : Bool)
  /-- What the steps of a walk were answered. -/
  | walk (purpose : Cursor.Purpose) (reports : List (Cursor.Report α))
  /-- Elements to be described. -/
  | contents (layout : Layout) (elements : List α)
  /-- A rule to be described. -/
  | rule (layout : Layout) (rule : ρ)

namespace Heap

variable {α : Type u} {ρ : Type v} [Precedence ρ α] [Footprint α]

/-- Carries an operation out: the answer and the heap afterwards, or why it failed. -/
def perform (heap : Heap α ρ) : Operation α → Except Failure (Answer α ρ × Heap α ρ)
  | .push element => .ok (.done, heap.push element)
  | .extend batch =>
    match heap.extend batch with
    | .ok longer => .ok (.done, longer)
    | .error failure => .error failure
  | .pop =>
    match heap.pop? with
    | some (element, rest) => .ok (.item (some element), rest)
    | none => .ok (.item none, heap)
  | .popAll =>
    let (elements, rest) := heap.popAll
    .ok (.items elements, rest)
  | .clear => .ok (.done, heap.clear)
  | .drain steps =>
    .ok (.walk .draining (Cursor.walk (some (.ofArray heap.storage)) steps), heap.clear)
  | .top =>
    match heap.top with
    | .ok element => .ok (.element element, heap)
    | .error failure => .error failure
  | .peek => .ok (.item heap.peek?, heap)
  | .size => .ok (.count heap.size, heap)
  | .isEmpty => .ok (.verdict heap.isEmpty, heap)
  | .storage => .ok (.items heap.toList, heap)
  | .visit steps =>
    .ok (.walk .visiting (Cursor.walk (some (.ofArray heap.storage)) steps), heap)
  | .compare left right => .ok (.verdict (precedes heap.rule left right), heap)
  | .reserve additional =>
    match heap.reserve additional with
    | .ok roomy => .ok (.done, roomy)
    | .error failure => .error failure
  | .shrinkToFit => .ok (.done, heap.shrinkToFit)
  | .holds minimum => .ok (.verdict (decide (max heap.size minimum ≤ heap.capacity)), heap)
  | .describe layout => .ok (.contents layout heap.toList, heap)
  | .describeRule layout => .ok (.rule layout heap.rule, heap)

/-- The outcome of an operation and the heap afterwards, which is the same heap if it failed. -/
def step (heap : Heap α ρ) (operation : Operation α) :
    Except Failure (Answer α ρ) × Heap α ρ :=
  match heap.perform operation with
  | .ok (answer, after) => (.ok answer, after)
  | .error failure => (.error failure, heap)

/-- The outcomes of operations made one after the other, and the heap after the last. -/
def run (heap : Heap α ρ) : List (Operation α) → List (Except Failure (Answer α ρ)) × Heap α ρ
  | [] => ([], heap)
  | operation :: operations =>
    let (outcome, after) := heap.step operation
    let (outcomes, last) := after.run operations
    (outcome :: outcomes, last)

end Heap

end PriorityQueue
