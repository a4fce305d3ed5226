import PriorityQueue.Sift.Lemmas

/-!
# Sifting round by round

The two sifting loops once more, on bare storage of which nothing is known. A round checks each
position that it reads or swaps against the storage, and the loop is given up when a position lies
outside or when the rounds run out. Neither ever happens to a loop that starts inside the storage:
for every rule it finishes within a number of rounds that its position gives, with the storage that
sifting gives. As in the loops themselves, positions are numbers without bound.
-/

namespace PriorityQueue

universe u

/-- What one round of a sifting loop comes to. -/
inductive Round (α : Type u) where
  /-- A position that was to be read or swapped lies outside the storage. -/
  | outside
  /-- The element stays, and the loop is done. -/
  | settled
  /-- Two elements have changed places, and the loop goes on at the position. -/
  | moved (storage : Array α) (position : Nat)

namespace Round

variable {α : Type u} {n : Nat}

/-- Whether the element at one position precedes that at another; nothing if either position
lies outside the storage. -/
def less? (less : α → α → Bool) (storage : Array α) (left right : Nat) : Option Bool :=
  match storage[left]?, storage[right]? with
  | some element, some other => some (less element other)
  | _, _ => none

/-- The elements at two positions change places, and the loop goes on at the second. -/
def exchange (storage : Array α) (position next : Nat) : Round α :=
  if inside : position < storage.size ∧ next < storage.size then
    .moved (storage.swap position next inside.1 inside.2) next
  else .outside

/-- One round of lifting an element while it precedes its parent. -/
def lift (less : α → α → Bool) (storage : Array α) (position : Nat) : Round α :=
  if position = 0 then .settled
  else
    match less? less storage position (parent position) with
    | none => .outside
    | some true => exchange storage position (parent position)
    | some false => .settled

/-- The challenger if its position is below the length and its element precedes that of the
winner so far, and otherwise the winner so far; nothing if an access falls outside. -/
def challenge? (less : α → α → Bool) (storage : Array α) (challenger best : Nat) : Option Nat :=
  if challenger < storage.size then
    match less? less storage challenger best with
    | none => none
    | some true => some challenger
    | some false => some best
  else some best

/-- One round of lowering an element while a child wins against it. -/
def lower (less : α → α → Bool) (storage : Array α) (position : Nat) : Round α :=
  match challenge? less storage (leftChild position) position with
  | none => .outside
  | some best =>
    match challenge? less storage (rightChild position) best with
    | none => .outside
    | some best => if best = position then .settled else exchange storage position best

/-- The storage after a loop that is done in at most the given number of rounds. -/
def iterate (round : Array α → Nat → Round α) : Nat → Array α → Nat → Option (Array α)
  | 0, _, _ => none
  | rounds + 1, storage, position =>
    match round storage position with
    | .outside => none
    | .settled => some storage
    | .moved after next => iterate round rounds after next

/-- Two positions inside the storage can be compared. -/
theorem less?_of_lt (less : α → α → Bool) (storage : Vector α n) {left right : Nat}
    (here : left < n) (there : right < n) :
    less? less storage.toArray left right = some (less storage[left] storage[right]) := by
  unfold less?
  rw [Array.getElem?_eq_getElem (by simpa using here),
    Array.getElem?_eq_getElem (by simpa using there)]
  rfl

/-- Two positions inside the storage can be swapped. -/
theorem exchange_of_lt (storage : Vector α n) {position next : Nat} (here : position < n)
    (there : next < n) : exchange storage.toArray position next =
      .moved (storage.swap position next here there).toArray next := by
  unfold exchange
  rw [dif_pos (by simpa using And.intro here there), Vector.toArray_swap]

/-- The challenge of the left child can be decided. -/
theorem challenge?_leftChild (less : α → α → Bool) (storage : Vector α n) (position : Fin n) :
    challenge? less storage.toArray (leftChild position) position =
      some (leftWinner less storage position).val := by
  unfold challenge? leftWinner
  rw [Vector.size_toArray]
  split
  case isTrue inside =>
    rw [less?_of_lt less storage inside position.isLt]
    cases beats : less storage[leftChild position] storage[position.val] <;> rfl
  case isFalse => rfl

/-- The challenge of the right child to the winner so far can be decided. -/
theorem challenge?_rightChild (less : α → α → Bool) (storage : Vector α n) (position : Fin n) :
    challenge? less storage.toArray (rightChild position) (leftWinner less storage position).val =
      some (winner less storage position).val := by
  unfold challenge? winner
  rw [Vector.size_toArray]
  dsimp only
  split
  case isTrue inside =>
    have best := (leftWinner less storage position).isLt
    rw [less?_of_lt less storage inside best]
    cases beats : less storage[rightChild position]
      storage[(leftWinner less storage position).val] <;> rfl
  case isFalse => rfl

/-- A round that lifts an element from a position other than the root, by the answer of the rule. -/
theorem lift_of_pos (less : α → α → Bool) (storage : Vector α n) {position : Nat}
    (inside : position < n) (above : parent position < n) (below : 0 < position) :
    lift less storage.toArray position =
      if less storage[position] storage[parent position] then
        .moved (storage.swap position (parent position)).toArray (parent position)
      else .settled := by
  unfold lift
  rw [if_neg (Nat.ne_of_gt below), less?_of_lt less storage inside above,
    exchange_of_lt storage inside above]
  cases less storage[position] storage[parent position] <;> rfl

/-- A round that lowers an element, by the winner. -/
theorem lower_eq (less : α → α → Bool) (storage : Vector α n) (position : Fin n) :
    lower less storage.toArray position =
      if winner less storage position = position then .settled
      else .moved (storage.swap position (winner less storage position) position.isLt
        (winner less storage position).isLt).toArray (winner less storage position) := by
  unfold lower
  simp only [challenge?_leftChild, challenge?_rightChild, Fin.ext_iff,
    exchange_of_lt storage position.isLt (winner less storage position).isLt]

/-- From a position inside the storage the loop that lifts an element is done after at most one
round more than the position counts. -/
theorem iterate_lift (less : α → α → Bool) (storage : Vector α n) (position : Nat)
    (inside : position < n) :
    ∀ rounds, position < rounds → iterate (lift less) rounds storage.toArray position =
      some (siftUp less storage position inside).toArray := by
  fun_induction siftUp less storage position inside with
  | case1 storage position inside below above climbs hypothesis =>
    intro rounds enough
    obtain ⟨rounds, rfl⟩ := Nat.exists_eq_add_one_of_ne_zero (Nat.ne_zero_of_lt enough)
    have higher : parent position < position := parent_lt below
    simp only [iterate, lift_of_pos less storage inside above below, climbs, if_true]
    exact hypothesis rounds (by omega)
  | case2 storage position inside below above stays =>
    intro rounds enough
    obtain ⟨rounds, rfl⟩ := Nat.exists_eq_add_one_of_ne_zero (Nat.ne_zero_of_lt enough)
    simp only [iterate, lift_of_pos less storage inside above below, if_neg stays]
  | case3 storage position inside root =>
    intro rounds enough
    obtain ⟨rounds, rfl⟩ := Nat.exists_eq_add_one_of_ne_zero (Nat.ne_zero_of_lt enough)
    simp only [iterate, lift, if_pos (Nat.eq_zero_of_not_pos root)]

/-- From a position inside the storage the loop that lowers an element is done after at most as
many rounds as there are positions from there on. -/
theorem iterate_lower (less : α → α → Bool) (storage : Vector α n) (position : Fin n) :
    ∀ rounds, n - position ≤ rounds → iterate (lower less) rounds storage.toArray position =
      some (siftDown less storage position).toArray := by
  fun_induction siftDown less storage position with
  | case1 storage position best settled =>
    intro rounds enough
    have nonzero : rounds ≠ 0 := by omega
    obtain ⟨rounds, rfl⟩ := Nat.exists_eq_add_one_of_ne_zero nonzero
    have stays : winner less storage position = position := settled
    simp only [iterate, lower_eq, if_pos stays]
  | case2 storage position best moved hypothesis =>
    intro rounds enough
    have nonzero : rounds ≠ 0 := by omega
    obtain ⟨rounds, rfl⟩ := Nat.exists_eq_add_one_of_ne_zero nonzero
    have later : position.val < (winner less storage position).val := lt_winner moved
    have apart : winner less storage position ≠ position := moved
    simp only [iterate, lower_eq, if_neg apart]
    apply hypothesis
    show n - (winner less storage position).val ≤ rounds
    omega

end Round

end PriorityQueue
