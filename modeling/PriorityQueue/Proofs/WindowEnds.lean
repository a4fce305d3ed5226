import PriorityQueue.Cursor.Lemmas

/-!
# The two ends of a window

Elements are taken off a window at its front or at its back. `Peels` lists what the two ends have in
common: the window is a list when it is read from there, the element that stands there is the head
of that list, and skipping drops from it. At either end, skipping several elements or taking several
comes to taking single elements until enough are taken or one is missing.
-/

namespace PriorityQueue.Cursor

universe u

variable {α : Type u}

/-- An end of the window: the list that the window is when it is read from there, the element that
stands there, and the cursor without so many elements there. -/
structure Peels (view : Cursor α → List α) (item? : Cursor α → Option α)
    (skip : Cursor α → Nat → Cursor α) : Prop where
  /-- The element at the end is the first that is read. -/
  item : ∀ cursor, item? cursor = (view cursor).head?
  /-- Elements are skipped in the order in which they are read. -/
  drops : ∀ cursor number, view (skip cursor number) = (view cursor).drop number
  /-- Nothing is skipped when no element is to be. -/
  zero : ∀ cursor, skip cursor 0 = cursor
  /-- Elements may be skipped in several goes. -/
  again : ∀ cursor first second, skip (skip cursor first) second = skip cursor (first + second)
  /-- Where nothing remains, nothing is skipped. -/
  stays : ∀ cursor number, view cursor = [] → skip cursor number = cursor

/-- The element after so many others at an end, which are taken off one at a time. If one is missing,
none is given. -/
def nthBy (next : Cursor α → Option α × Cursor α) : Nat → Cursor α → Option α × Cursor α
  | 0, cursor => next cursor
  | number + 1, cursor =>
    match next cursor with
    | (none, after) => (none, after)
    | (some _, after) => nthBy next number after

/-- So many elements at an end, taken off one at a time, or those until one is missing. -/
def takeBy (next : Cursor α → Option α × Cursor α) : Nat → Cursor α → List α × Cursor α
  | 0, cursor => ([], cursor)
  | number + 1, cursor =>
    match next cursor with
    | (none, after) => ([], after)
    | (some element, after) =>
      (element :: (takeBy next number after).1, (takeBy next number after).2)

namespace Peels

variable {view : Cursor α → List α} {item? : Cursor α → Option α}
  {skip : Cursor α → Nat → Cursor α}

/-- The element at the end after so many are skipped is the one that is read after those. -/
theorem item_skip (peels : Peels view item? skip) (cursor : Cursor α) (number : Nat) :
    item? (skip cursor number) = (view cursor)[number]? := by
  rw [peels.item, peels.drops, List.head?_drop]

/-- At an end there is nothing, and nothing can be skipped, or there is an element, and the others
follow when it is skipped. -/
theorem vacant_or_occupied (peels : Peels view item? skip) (cursor : Cursor α) :
    (view cursor = [] ∧ item? cursor = none ∧ ∀ number, skip cursor number = cursor) ∨
      ∃ element rest, view cursor = element :: rest ∧ item? cursor = some element ∧
        view (skip cursor 1) = rest := by
  have item := peels.item cursor
  cases read : view cursor with
  | nil =>
    rw [read, List.head?_nil] at item
    exact .inl ⟨rfl, item, fun number => peels.stays cursor number read⟩
  | cons element rest =>
    rw [read, List.head?_cons] at item
    refine .inr ⟨element, rest, rfl, item, ?_⟩
    rw [peels.drops, read, List.drop_one, List.tail_cons]

/-- Skipping one at a time comes to skipping all at once. -/
theorem nthBy_eq (peels : Peels view item? skip) (cursor : Cursor α) (number : Nat) :
    nthBy (fun cursor => (item? cursor, skip cursor 1)) number cursor =
      ((view cursor)[number]?, skip cursor (number + 1)) := by
  induction number generalizing cursor with
  | zero => rw [nthBy, ← peels.item_skip, peels.zero]
  | succ number hypothesis =>
    unfold nthBy
    obtain ⟨vacant, missing, same⟩ | ⟨element, rest, read, found, left⟩ :=
      peels.vacant_or_occupied cursor
    · simp only [missing, same, vacant, List.getElem?_nil]
    · simp only [found, hypothesis, left, read, peels.again, List.getElem?_cons_succ]
      rw [Nat.add_comm 1]

/-- Taking one at a time comes to taking all at once. -/
theorem takeBy_eq (peels : Peels view item? skip) (cursor : Cursor α) (number : Nat) :
    takeBy (fun cursor => (item? cursor, skip cursor 1)) number cursor =
      ((view cursor).take number, skip cursor number) := by
  induction number generalizing cursor with
  | zero => rw [takeBy, peels.zero, List.take_zero]
  | succ number hypothesis =>
    unfold takeBy
    obtain ⟨vacant, missing, same⟩ | ⟨element, rest, read, found, left⟩ :=
      peels.vacant_or_occupied cursor
    · simp only [missing, same, vacant, List.take_nil]
    · simp only [found, hypothesis, left, read, peels.again, List.take_succ_cons]
      rw [Nat.add_comm 1]

end Peels

/-- A window without elements ends where it begins. -/
theorem back_eq_front_of_remaining {cursor : Cursor α} (vacant : cursor.remaining = []) :
    cursor.back = cursor.front := by
  have closed : cursor.size = 0 := by rw [← length_remaining, vacant, List.length_nil]
  exact Nat.le_antisymm (Nat.le_of_sub_eq_zero closed) cursor.front_le_back

/-- The front is an end of the window. -/
theorem peels_front : Peels (α := α) remaining first? skip where
  item := first?_eq_head?
  drops := remaining_skip
  zero cursor := by
    have ordered := cursor.front_le_back
    simp only [skip, Nat.add_zero, Nat.min_eq_left ordered]
  again cursor first second := by
    simp only [skip, mk.injEq, true_and, and_true]
    omega
  stays cursor number vacant := by
    have closed := back_eq_front_of_remaining vacant
    have same : min (cursor.front + number) cursor.back = cursor.front := by omega
    simp only [skip, same]

/-- The back is an end of the window. -/
theorem peels_back : Peels (α := α) (fun cursor => cursor.remaining.reverse) last? skipBack where
  item cursor := by rw [last?_eq_getLast?, List.head?_reverse]
  drops cursor number := by rw [remaining_skipBack, List.drop_reverse]
  zero cursor := by
    have ordered := cursor.front_le_back
    simp only [skipBack, Nat.sub_zero, Nat.max_eq_right ordered]
  again cursor first second := by
    simp only [skipBack, mk.injEq, true_and]
    omega
  stays cursor number vacant := by
    have closed := back_eq_front_of_remaining (List.reverse_eq_nil_iff.1 vacant)
    have same : max cursor.front (cursor.back - number) = cursor.back := by omega
    simp only [skipBack, same]

/-- Skipping at the front and taking one element is taking elements there one at a time. -/
theorem nth_eq_nthBy (cursor : Cursor α) (number : Nat) :
    cursor.nth number = nthBy next number cursor := by
  have single := peels_front.nthBy_eq cursor number
  rw [← peels_front.item_skip, ← peels_front.again] at single
  exact single.symm

/-- Skipping at the back and taking one element is taking elements there one at a time. -/
theorem nthBack_eq_nthBy (cursor : Cursor α) (number : Nat) :
    cursor.nthBack number = nthBy nextBack number cursor := by
  have single := peels_back.nthBy_eq cursor number
  rw [← peels_back.item_skip, ← peels_back.again] at single
  exact single.symm

end PriorityQueue.Cursor
