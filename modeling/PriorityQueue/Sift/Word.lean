/-!
# Sifting with machine words

The two sifting loops once more, with positions that are 64-bit words whose arithmetic wraps
around. Nothing is assumed about the positions: every access is checked, and a loop gives nothing
if an access falls outside the storage or if it is not done after the given number of rounds.
-/

namespace PriorityQueue.Word

universe u

variable {α : Type u}

/-- The word of the position above, for a position that is not zero. -/
def parent (position : UInt64) : UInt64 := (position - 1) / 2

/-- The word of the first position below. -/
def leftChild (position : UInt64) : UInt64 := 2 * position + 1

/-- The word of the second position below. -/
def rightChild (position : UInt64) : UInt64 := leftChild position + 1

/-- The element at a word position, if that lies inside the storage. -/
def at? (storage : Array α) (position : UInt64) : Option α := storage[position.toNat]?

/-- The storage after two elements change places. -/
def exchange (storage : Array α) (left right : UInt64) : Array α :=
  storage.swapIfInBounds left.toNat right.toNat

/-- Whether the element at one position precedes that at another; nothing if either position
lies outside the storage. -/
def less? (less : α → α → Bool) (storage : Array α) (left right : UInt64) : Option Bool :=
  match at? storage left, at? storage right with
  | some element, some other => some (less element other)
  | _, _ => none

/-- Lifts an element while it precedes its parent, in at most the given number of rounds. -/
def siftUp (less : α → α → Bool) : Nat → Array α → UInt64 → Option (Array α)
  | 0, _, _ => none
  | rounds + 1, storage, position =>
    if position = 0 then some storage
    else
      match less? less storage position (parent position) with
      | none => none
      | some true =>
        siftUp less rounds (exchange storage position (parent position)) (parent position)
      | some false => some storage

/-- The challenger if its position is below the length and its element precedes that of the
winner so far, and otherwise the winner so far; nothing if an access falls outside. -/
def challenge? (less : α → α → Bool) (storage : Array α) (challenger best : UInt64) :
    Option UInt64 :=
  if challenger < UInt64.ofNat storage.size then
    match less? less storage challenger best with
    | none => none
    | some true => some challenger
    | some false => some best
  else some best

/-- The winner among a position and the two below it. -/
def winner? (less : α → α → Bool) (storage : Array α) (position : UInt64) : Option UInt64 :=
  match challenge? less storage (leftChild position) position with
  | none => none
  | some best => challenge? less storage (rightChild position) best

/-- Lowers an element while a child wins against it, in at most the given number of rounds. -/
def siftDown (less : α → α → Bool) : Nat → Array α → UInt64 → Option (Array α)
  | 0, _, _ => none
  | rounds + 1, storage, position =>
    match winner? less storage position with
    | none => none
    | some best =>
      if best = position then some storage
      else siftDown less rounds (exchange storage position best) best

end PriorityQueue.Word
