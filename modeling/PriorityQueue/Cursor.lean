import PriorityQueue.Outline

/-!
# Cursors

A cursor is a window on fixed elements that shrinks from both ends. A step takes an element off
one end, possibly after skipping some, or looks at the window without changing it. Steps that
use up the window end the walk: every later step is answered by `consumed`. The elements before
the window, in the window and after it are always the elements that the cursor began with.
-/

namespace PriorityQueue

universe u

/-- A window on fixed elements, from `front` up to but not including `back`. -/
structure Cursor (α : Type u) where
  /-- The elements that the cursor began with. -/
  items : Array α
  /-- The first place of the window. -/
  front : Nat
  /-- The place behind the window. -/
  back : Nat
  /-- The window does not end before it begins. -/
  front_le_back : front ≤ back
  /-- The window ends inside the elements. -/
  back_le_size : back ≤ items.size

namespace Cursor

variable {α : Type u}

/-- A cursor whose window holds all the elements. -/
def ofArray (items : Array α) : Cursor α := ⟨items, 0, items.size, Nat.zero_le _, Nat.le_refl _⟩

/-- The number of elements in the window. -/
def size (cursor : Cursor α) : Nat := cursor.back - cursor.front

/-- The elements in the window, from the front. -/
def remaining (cursor : Cursor α) : List α := (cursor.items.extract cursor.front cursor.back).toList

/-- Drops up to the given number of elements from the front. -/
def skip (cursor : Cursor α) (number : Nat) : Cursor α :=
  { cursor with
    front := min (cursor.front + number) cursor.back
    front_le_back := Nat.min_le_right _ _ }

/-- Drops up to the given number of elements from the back. -/
def skipBack (cursor : Cursor α) (number : Nat) : Cursor α :=
  { cursor with
    back := max cursor.front (cursor.back - number)
    front_le_back := Nat.le_max_left _ _
    back_le_size := Nat.max_le.2
      ⟨Nat.le_trans cursor.front_le_back cursor.back_le_size,
        Nat.le_trans (Nat.sub_le _ _) cursor.back_le_size⟩ }

/-- The element at the front, if the window has one. -/
def first? (cursor : Cursor α) : Option α :=
  if cursor.front < cursor.back then cursor.items[cursor.front]? else none

/-- The element at the back, if the window has one. -/
def last? (cursor : Cursor α) : Option α :=
  if cursor.front < cursor.back then cursor.items[cursor.back - 1]? else none

/-- Takes the element at the front. -/
def next (cursor : Cursor α) : Option α × Cursor α := (cursor.first?, cursor.skip 1)

/-- Takes the element at the back. -/
def nextBack (cursor : Cursor α) : Option α × Cursor α := (cursor.last?, cursor.skipBack 1)

/-- Drops the given number of elements from the front and takes the one after them. -/
def nth (cursor : Cursor α) (number : Nat) : Option α × Cursor α := (cursor.skip number).next

/-- Drops the given number of elements from the back and takes the one before them. -/
def nthBack (cursor : Cursor α) (number : Nat) : Option α × Cursor α :=
  (cursor.skipBack number).nextBack

/-- Takes up to the given number of elements from the front. -/
def take (cursor : Cursor α) (number : Nat) : List α × Cursor α :=
  (cursor.remaining.take number, cursor.skip number)

/-- What may be asked of a cursor. -/
inductive Step where
  /-- Take the element at the front. -/
  | next
  /-- Take the element at the back. -/
  | nextBack
  /-- Skip elements at the front and take the one after them. -/
  | nth (number : Nat)
  /-- Skip elements at the back and take the one before them. -/
  | nthBack (number : Nat)
  /-- Take up to so many elements from the front. -/
  | take (number : Nat)
  /-- Count the window. -/
  | size
  /-- Give bounds for the number of elements still to come. -/
  | bounds
  /-- Describe the window. -/
  | describe (layout : Layout)
  /-- Use up a second cursor on the same window and keep this one. -/
  | fork
  /-- End with the element at the back. -/
  | last
  /-- End with the number of elements. -/
  | count
  /-- End with the elements from the front. -/
  | collect
  /-- End with the elements from the back. -/
  | reverse
deriving DecidableEq

/-- What a step answers. -/
inductive Report (α : Type u) where
  /-- One element, if there was one. -/
  | item (element : Option α)
  /-- Several elements in the order they were taken. -/
  | items (elements : List α)
  /-- A number of elements. -/
  | count (number : Nat)
  /-- A lower and an upper bound for the number of elements still to come. -/
  | bounds (lower upper : Nat)
  /-- The window, to be described in a layout. -/
  | window (layout : Layout) (elements : List α)
  /-- What a second cursor gave: its next element and then the rest. -/
  | fork (element : Option α) (rest : List α)
  /-- The walk had already ended. -/
  | consumed
deriving DecidableEq

/-- The answer to a step, and the cursor after it unless the step ended the walk. -/
def respond (cursor : Cursor α) : Step → Report α × Option (Cursor α)
  | .next => (.item cursor.next.1, some cursor.next.2)
  | .nextBack => (.item cursor.nextBack.1, some cursor.nextBack.2)
  | .nth number => (.item (cursor.nth number).1, some (cursor.nth number).2)
  | .nthBack number => (.item (cursor.nthBack number).1, some (cursor.nthBack number).2)
  | .take number => (.items (cursor.take number).1, some (cursor.take number).2)
  | .size => (.count cursor.size, some cursor)
  | .bounds => (.bounds cursor.size cursor.size, some cursor)
  | .describe layout => (.window layout cursor.remaining, some cursor)
  | .fork => (.fork cursor.next.1 cursor.next.2.remaining, some cursor)
  | .last => (.item cursor.last?, none)
  | .count => (.count cursor.size, none)
  | .collect => (.items cursor.remaining, none)
  | .reverse => (.items cursor.remaining.reverse, none)

/-- The answers to steps made one after the other. -/
def walk : Option (Cursor α) → List Step → List (Report α)
  | _, [] => []
  | none, _ :: steps => .consumed :: walk none steps
  | some cursor, step :: steps =>
    (cursor.respond step).1 :: walk (cursor.respond step).2 steps

/-- What becomes of the elements under a cursor. -/
inductive Purpose where
  /-- They are only looked at. -/
  | visiting
  /-- They belong to the cursor. -/
  | owning
  /-- They are taken out of a heap that stays. -/
  | draining
deriving DecidableEq

/-- The outline of a window. -/
def Purpose.outline [Describe α] (purpose : Purpose) (elements : List α) : Outline :=
  match purpose with
  | .visiting => .labelled "Iter" [PriorityQueue.outline elements]
  | .owning => .labelled "IntoIter" [PriorityQueue.outline elements]
  | .draining => .record "Drain" [("iter", .labelled "Drain" [PriorityQueue.outline elements])]

end Cursor

end PriorityQueue
