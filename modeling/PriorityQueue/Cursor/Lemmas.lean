import PriorityQueue.Cursor

/-!
# What cursor steps do to the window

The view of a cursor is the list of elements in its window. Skipping drops from one end of that
list, the ends of the window are the ends of the list, and the elements before, in and behind the
window always make up what the cursor began with.
-/

namespace PriorityQueue.Cursor

universe u

variable {α : Type u}

/-- The window of a new cursor holds everything. -/
@[simp] theorem remaining_ofArray (items : Array α) : (ofArray items).remaining = items.toList := by
  simp [remaining, ofArray]

/-- The window is a stretch of the list of elements. -/
theorem remaining_eq (cursor : Cursor α) :
    cursor.remaining = (cursor.items.toList.take cursor.back).drop cursor.front := by
  simp [remaining, List.extract_eq_take_drop, List.drop_take]

/-- The size of the window is the number of elements in it. -/
theorem length_remaining (cursor : Cursor α) : cursor.remaining.length = cursor.size := by
  have inside := cursor.back_le_size
  simp only [remaining_eq, List.length_drop, List.length_take, Array.length_toList, size]
  omega

/-- Skipping at the front drops the first elements of the window. -/
@[simp] theorem remaining_skip (cursor : Cursor α) (number : Nat) :
    (cursor.skip number).remaining = cursor.remaining.drop number := by
  have ordered := cursor.front_le_back
  have inside := cursor.back_le_size
  simp only [remaining_eq, skip, List.drop_drop]
  by_cases short : cursor.front + number ≤ cursor.back
  · rw [Nat.min_eq_left short]
  · rw [Nat.min_eq_right (by omega), List.drop_eq_nil_of_le, List.drop_eq_nil_of_le]
    all_goals simp only [List.length_take, Array.length_toList]; omega

/-- Skipping at the back keeps the first elements of the window. -/
@[simp] theorem remaining_skipBack (cursor : Cursor α) (number : Nat) :
    (cursor.skipBack number).remaining =
      cursor.remaining.take (cursor.remaining.length - number) := by
  have ordered := cursor.front_le_back
  have inside := cursor.back_le_size
  rw [length_remaining]
  simp only [remaining_eq, skipBack, size, List.take_drop, List.take_take]
  congr 2
  omega

/-- The element at the front is the first of the window. -/
theorem first?_eq_head? (cursor : Cursor α) : cursor.first? = cursor.remaining.head? := by
  have inside := cursor.back_le_size
  rw [remaining_eq, List.head?_drop]
  unfold first?
  split
  case isTrue occupied => simp [occupied]
  case isFalse vacant =>
    rw [List.getElem?_take, if_neg vacant]

/-- The element at the back is the last of the window. -/
theorem last?_eq_getLast? (cursor : Cursor α) : cursor.last? = cursor.remaining.getLast? := by
  have inside := cursor.back_le_size
  rw [List.getLast?_eq_getElem?, length_remaining, remaining_eq, List.getElem?_drop]
  unfold last? size
  split
  case isTrue occupied =>
    have place : cursor.front + (cursor.back - cursor.front - 1) = cursor.back - 1 := by omega
    rw [place, List.getElem?_take, if_pos (by omega)]
    simp
  case isFalse vacant =>
    rw [List.getElem?_take, if_neg (by omega)]

/-- The elements before, in and behind the window are those the cursor began with. -/
theorem take_append_remaining_append_drop (cursor : Cursor α) :
    cursor.items.toList.take cursor.front ++ cursor.remaining ++
      cursor.items.toList.drop cursor.back = cursor.items.toList := by
  have ordered := cursor.front_le_back
  have beginning : cursor.items.toList.take cursor.front =
      (cursor.items.toList.take cursor.back).take cursor.front := by
    rw [List.take_take, Nat.min_eq_left ordered]
  rw [remaining_eq, beginning, List.take_append_drop, List.take_append_drop]

end PriorityQueue.Cursor
