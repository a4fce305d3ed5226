import Mathlib.Data.List.Iterate
import Mathlib.Order.Bounds.Defs
import Mathlib.Order.Iterate
import PriorityQueue.Proofs.SiftOrder

/-!
# Where sifting leaves the elements

Either loop carries one element along a path and moves every element that it passes one place back.
`Rotated` says so of the storage before and after. Which path it is can be told from the storage
before, although the loop reads storage that it has changed already: on the way up it only asks
about places further up, and on the way down about places further down, and there nothing has moved
yet. Nothing is required of the rule.
-/

namespace PriorityQueue

universe u

variable {α : Type u} {n : Nat} {less : α → α → Bool}

/-- Elements off both places are not touched when two elements change places. -/
theorem getElem?_swap_of_ne {storage : Array α} {left right place : Nat}
    (here : left < storage.size) (there : right < storage.size)
    (offLeft : place ≠ left) (offRight : place ≠ right) :
    (storage.swap left right here there)[place]? = storage[place]? := by
  rw [Array.getElem?_swap, if_neg (Ne.symm offRight), if_neg (Ne.symm offLeft)]

/-- An element was carried along a path: each place on it but the last took over the element of the
next place, the last place took the element, and nothing moved off the path. -/
structure Rotated (before after : Array α) (element : α) (path : List Nat) : Prop where
  /-- The path comes to no place twice. -/
  distinct : path.Nodup
  /-- A place on the path takes over the element of the next one. -/
  shifts : ∀ (index here next : Nat), path[index]? = some here → path[index + 1]? = some next →
    after[here]? = before[next]?
  /-- The element ends at the last place of the path. -/
  lands : ∀ last, path.getLast? = some last → after[last]? = some element
  /-- A place off the path keeps its element. -/
  stays : ∀ place, place ∉ path → after[place]? = before[place]?

namespace Rotated

variable {before other after : Array α} {element : α} {position next : Nat} {path : List Nat}

/-- An element that is not carried anywhere ends where it was. -/
theorem single (here : before[position]? = some element) :
    Rotated before before element [position] where
  distinct := by simp
  shifts index here next _ there := by simp at there
  lands last found := by
    simp only [List.getLast?_singleton, Option.some.injEq] at found
    rwa [← found]
  stays _ _ := rfl

/-- An element may change places with that of a place ahead before it is carried on from there. -/
theorem cons (inside : position < before.size) (within : next < before.size)
    (new : position ∉ next :: path)
    (rotated : Rotated (before.swap position next inside within) after element (next :: path)) :
    Rotated before after element (position :: next :: path) := by
  have apart : next ∉ path := (List.nodup_cons.1 rotated.distinct).1
  have untouched : ∀ place, place ≠ position → place ≠ next →
      (before.swap position next inside within)[place]? = before[place]? :=
    fun place => getElem?_swap_of_ne inside within
  constructor
  · exact List.nodup_cons.2 ⟨new, rotated.distinct⟩
  · intro index here there found follows
    cases index with
    | zero =>
      obtain rfl : position = here := by simpa using found
      obtain rfl : next = there := by simpa using follows
      have differs : next ≠ position := fun same => new (by rw [same]; exact List.mem_cons_self)
      rw [rotated.stays position new, Array.getElem?_swap, if_neg differs, if_pos rfl,
        Array.getElem?_eq_getElem within]
    | succ index =>
      have ahead : there ∈ path := List.mem_of_getElem? (by simpa using follows)
      have offNext : there ≠ next := fun same => apart (same ▸ ahead)
      have offHere : there ≠ position :=
        fun same => new (List.mem_cons_of_mem next (same ▸ ahead))
      rw [rotated.shifts index here there (by simpa using found) (by simpa using follows)]
      exact untouched there offHere offNext
  · intro last found
    exact rotated.lands last (by simpa using found)
  · intro place off
    simp only [List.mem_cons, not_or] at off
    rw [rotated.stays place (by simp [off.2])]
    exact untouched place off.1 off.2.1

/-- What storage held at the first place of the path is of no account. -/
theorem of_agree (rotated : Rotated before after element path)
    (agree : ∀ place, path.head? ≠ some place → before[place]? = other[place]?) :
    Rotated other after element path := by
  refine ⟨rotated.distinct, ?_, rotated.lands, ?_⟩
  · intro index here next found follows
    rw [rotated.shifts index here next found follows]
    apply agree
    intro first
    -- The first place does not come again later on.
    rw [List.head?_eq_getElem?] at first
    have inside : index + 1 < path.length := (List.getElem?_eq_some_iff.1 follows).1
    have again := (List.getElem?_inj inside rotated.distinct).1 (follows.trans first.symm)
    omega
  · intro place off
    rw [rotated.stays place off]
    apply agree
    intro first
    exact off (List.mem_of_mem_head? first)

end Rotated

section Upwards

/-- An element that has come to a position on its way up goes no further: the position is the root,
or the element does not precede the one above. -/
def RestsAt (less : α → α → Bool) (storage : Array α) (element : α) (position : Nat) : Prop :=
  position = 0 ∨ ∀ above, storage[parent position]? = some above → less element above = false

/-- Whether an element goes further up depends on the places above only. -/
theorem restsAt_congr {storage other : Array α} {element : α} {position : Nat}
    (agree : ∀ place < position, storage[place]? = other[place]?) :
    RestsAt less storage element position ↔ RestsAt less other element position := by
  unfold RestsAt
  by_cases root : position = 0
  · simp [root]
  · rw [agree (parent position) (parent_lt (Nat.pos_of_ne_zero root))]

/-- Going further up does not lead to later positions. -/
theorem antitone_iterate_parent (position : Nat) : Antitone fun count => parent^[count] position :=
  fun _ _ further => Function.antitone_iterate_of_le_id parent_le further position

/-- Going up does not lead to later positions. -/
theorem iterate_parent_le (position count : Nat) : parent^[count] position ≤ position :=
  antitone_iterate_parent position (Nat.zero_le count)

/-- At which steps on its way up an element would rest depends on the places before its position
only. -/
theorem setOf_restsAt_congr {storage other : Array α} {element : α} {position : Nat}
    (agree : ∀ place < position, storage[place]? = other[place]?) :
    {count | RestsAt less storage element (parent^[count] position)} =
      {count | RestsAt less other element (parent^[count] position)} := by
  ext count
  have bound : parent^[count] position ≤ position := iterate_parent_le position count
  apply restsAt_congr
  intro place earlier
  exact agree place (by omega)

/-- An element that goes further up rests one step later than it would from the position above. -/
theorem isLeast_restsAt_succ {storage : Array α} {element : α} {position steps : Nat}
    (moves : ¬ RestsAt less storage element position)
    (least : IsLeast {count | RestsAt less storage element (parent^[count] (parent position))}
      steps) :
    IsLeast {count | RestsAt less storage element (parent^[count] position)} (steps + 1) := by
  constructor
  · exact least.1
  · intro count rests
    cases count with
    | zero => exact absurd rests moves
    | succ count => exact Nat.succ_le_succ (least.2 rests)

/-- On the way to the first position where it rests, an element precedes whatever it passes. -/
theorem exists_passed {storage : Array α} {element : α} {position steps count : Nat}
    (least : IsLeast {count | RestsAt less storage element (parent^[count] position)} steps)
    (early : count < steps) :
    ∃ passed, storage[parent^[count + 1] position]? = some passed ∧
      less element passed = true := by
  have climbs : ¬ RestsAt less storage element (parent^[count] position) := by
    intro rests
    exact absurd (least.2 rests) (Nat.not_le_of_lt early)
  simp only [RestsAt, not_or, not_forall, Bool.not_eq_false,
    ← Function.iterate_succ_apply'] at climbs
  obtain ⟨-, passed, above, precedes⟩ := climbs
  exact ⟨passed, above, precedes⟩

/-- Lifting carries an element up the chain of parents to the first position where it rests. -/
theorem siftUp_rotated (less : α → α → Bool) (storage : Vector α n) (position : Nat)
    (inside : position < n) :
    ∃ steps,
      IsLeast {count | RestsAt less storage.toArray storage[position] (parent^[count] position)}
        steps ∧
      Rotated storage.toArray (siftUp less storage position inside).toArray storage[position]
        (List.iterate parent position (steps + 1)) := by
  fun_induction siftUp less storage position inside with
  | case1 storage position inside below above climbs hypothesis =>
    obtain ⟨steps, least, rotated⟩ := hypothesis
    have higher : parent position < position := parent_lt below
    rw [Vector.getElem_swap_right] at least rotated
    rw [Vector.toArray_swap] at rotated
    have moves : ¬ RestsAt less storage.toArray storage[position] position := by
      rintro (root | stays)
      · omega
      · rw [stays _ (by simp [above])] at climbs
        exact absurd climbs (by decide)
    -- Above the parent the storage is still as it was.
    have agree : ∀ place < parent position,
        (storage.swap position (parent position)).toArray[place]? = storage.toArray[place]? := by
      intro place earlier
      rw [Vector.toArray_swap]
      exact getElem?_swap_of_ne _ _ (by omega) (by omega)
    rw [setOf_restsAt_congr agree] at least
    refine ⟨steps + 1, isLeast_restsAt_succ moves least, ?_⟩
    apply Rotated.cons _ _ _ rotated
    rw [← List.iterate, List.mem_iterate]
    rintro ⟨count, -, reached⟩
    have bound := iterate_parent_le (parent position) count
    omega
  | case2 storage position inside below above stays =>
    refine ⟨0, ⟨.inr ?_, fun _ _ => Nat.zero_le _⟩, .single (by simp [inside])⟩
    intro element there
    obtain ⟨_, rfl⟩ := Array.getElem?_eq_some_iff.1 there
    simpa using stays
  | case3 storage position inside root =>
    have top : position = 0 := Nat.eq_zero_of_not_pos root
    exact ⟨0, ⟨.inl top, fun _ _ => Nat.zero_le _⟩, .single (by simp [inside])⟩

end Upwards

section Downwards

/-- The child that a sinking element changes places with: the left one if that precedes the element
and is not preceded by the right one; and the right one if that precedes a left one that precedes
the element, or precedes the element when the left one does not. -/
inductive YieldsTo (less : α → α → Bool) (storage : Array α) (element : α) (position : Nat) :
    Nat → Prop
  | left {left : α} (child : storage[leftChild position]? = some left)
      (beats : less left element = true)
      (noRight : ∀ right, storage[rightChild position]? = some right → less right left = false) :
      YieldsTo less storage element position (leftChild position)
  | right {left right : α} (first : storage[leftChild position]? = some left)
      (child : storage[rightChild position]? = some right)
      (beats : less left element = true ∧ less right left = true ∨
        less left element = false ∧ less right element = true) :
      YieldsTo less storage element position (rightChild position)

/-- The path on which an element sinks from a position: it goes on to the child that the element
yields to, and it ends where no child precedes the element. -/
inductive Descends (less : α → α → Bool) (storage : Array α) (element : α) : Nat → List Nat → Prop
  | rests {position : Nat}
      (noLeft : ∀ left, storage[leftChild position]? = some left → less left element = false)
      (noRight : ∀ right, storage[rightChild position]? = some right → less right element = false) :
      Descends less storage element position [position]
  | sinks {position child : Nat} {path : List Nat}
      (yields : YieldsTo less storage element position child)
      (onward : Descends less storage element child path) :
      Descends less storage element position (position :: path)

namespace YieldsTo

variable {storage other : Array α} {element : α} {position child child' : Nat}

/-- A child lies after its parent. -/
theorem lt (yields : YieldsTo less storage element position child) : position < child := by
  cases yields with
  | left => exact lt_leftChild position
  | right => exact lt_rightChild position

/-- A child lies inside the storage. -/
theorem lt_size (yields : YieldsTo less storage element position child) :
    child < storage.size := by
  cases yields with
  | left child => exact (Array.getElem?_eq_some_iff.1 child).1
  | right first child => exact (Array.getElem?_eq_some_iff.1 child).1

/-- Which child it is depends on the places after the position only. -/
theorem congr (yields : YieldsTo less storage element position child)
    (agree : ∀ place, position < place → storage[place]? = other[place]?) :
    YieldsTo less other element position child := by
  have atLeft := agree _ (lt_leftChild position)
  have atRight := agree _ (lt_rightChild position)
  cases yields with
  | left child beats noRight =>
    rw [atLeft] at child
    rw [atRight] at noRight
    exact .left child beats noRight
  | right first child beats =>
    rw [atLeft] at first
    rw [atRight] at child
    exact .right first child beats

/-- An element yields to one child at most. -/
theorem unique (yields : YieldsTo less storage element position child)
    (yields' : YieldsTo less storage element position child') : child = child' := by
  cases yields with
  | left child beats noRight =>
    cases yields' with
    | left => rfl
    | right first' child' beats' => grind
  | right first child beats =>
    cases yields' with
    | left child' beats' noRight' => grind
    | right => rfl

/-- An element does not yield if no child precedes it. -/
theorem false_of_rests (yields : YieldsTo less storage element position child)
    (noLeft : ∀ left, storage[leftChild position]? = some left → less left element = false)
    (noRight : ∀ right, storage[rightChild position]? = some right →
      less right element = false) : False := by
  cases yields with
  | left child beats =>
    rw [noLeft _ child] at beats
    exact absurd beats (by decide)
  | right first child beats =>
    rw [noLeft _ first, noRight _ child] at beats
    simp at beats

end YieldsTo

namespace Descends

variable {storage other : Array α} {element : α} {position : Nat} {path path' : List Nat}

/-- A path begins at its position. -/
theorem exists_eq_cons (descends : Descends less storage element position path) :
    ∃ rest, path = position :: rest := by
  cases descends with
  | rests => exact ⟨[], rfl⟩
  | sinks => exact ⟨_, rfl⟩

/-- A path does not lead to earlier positions. -/
theorem le_of_mem (descends : Descends less storage element position path) :
    ∀ place ∈ path, position ≤ place := by
  induction descends with
  | rests => simp
  | sinks yields onward hypothesis =>
    intro place member
    rcases List.mem_cons.1 member with rfl | later
    · exact Nat.le_refl place
    · exact Nat.le_trans (Nat.le_of_lt yields.lt) (hypothesis place later)

/-- A path stays inside the storage. -/
theorem lt_size_of_mem (descends : Descends less storage element position path)
    (inside : position < storage.size) : ∀ place ∈ path, place < storage.size := by
  induction descends with
  | rests => simpa using inside
  | sinks yields onward hypothesis =>
    intro place member
    rcases List.mem_cons.1 member with rfl | later
    · exact inside
    · exact hypothesis yields.lt_size place later

/-- Which path it is depends on the places after its position only. -/
theorem congr (descends : Descends less storage element position path)
    (agree : ∀ place, position < place → storage[place]? = other[place]?) :
    Descends less other element position path := by
  induction descends with
  | @rests position noLeft noRight =>
    rw [agree _ (lt_leftChild position)] at noLeft
    rw [agree _ (lt_rightChild position)] at noRight
    exact .rests noLeft noRight
  | sinks yields onward hypothesis =>
    have later := yields.lt
    exact .sinks (yields.congr agree) (hypothesis fun place after => agree place (by omega))

/-- There is at most one path. -/
theorem unique (descends : Descends less storage element position path)
    (descends' : Descends less storage element position path') : path = path' := by
  induction descends generalizing path' with
  | rests noLeft noRight =>
    cases descends' with
    | rests => rfl
    | sinks yields' => exact (yields'.false_of_rests noLeft noRight).elim
  | sinks yields onward hypothesis =>
    cases descends' with
    | rests noLeft' noRight' => exact (yields.false_of_rests noLeft' noRight').elim
    | sinks yields' onward' =>
      obtain rfl := yields.unique yields'
      rw [hypothesis onward']

end Descends

namespace Wins

variable {storage : Vector α n} {position best : Nat} {within : position < n}

/-- If the position itself wins, the path ends there. -/
theorem descends_single (wins : Wins less storage position within best)
    (settled : best = position) :
    Descends less storage.toArray storage[position] position [position] := by
  cases wins with
  | stays noLeft noRight =>
    apply Descends.rests
    · intro left child
      obtain ⟨inside, rfl⟩ := Array.getElem?_eq_some_iff.1 child
      exact noLeft (by simpa using inside)
    · intro right child
      obtain ⟨inside, rfl⟩ := Array.getElem?_eq_some_iff.1 child
      exact noRight (by simpa using inside)
  | left => exact absurd settled (Nat.ne_of_gt (lt_leftChild position))
  | second => exact absurd settled (Nat.ne_of_gt (lt_rightChild position))
  | right => exact absurd settled (Nat.ne_of_gt (lt_rightChild position))

/-- If a child wins, the element at the position yields to it. -/
theorem yieldsTo (wins : Wins less storage position within best) (moved : best ≠ position) :
    YieldsTo less storage.toArray storage[position] position best := by
  cases wins with
  | stays => exact absurd rfl moved
  | left inside beats noRight =>
    refine .left (by simp [inside]) beats ?_
    intro right child
    obtain ⟨within, rfl⟩ := Array.getElem?_eq_some_iff.1 child
    exact noRight (by simpa using within)
  | second leftInside inside leftBeats beats =>
    exact .right (by simp [leftInside]) (by simp [inside]) (.inl ⟨leftBeats, beats⟩)
  | right inside noLeft beats =>
    have leftInside : leftChild position < n := Nat.lt_trans (Nat.lt_succ_self _) inside
    exact .right (by simp [leftInside]) (by simp [inside]) (.inr ⟨noLeft leftInside, beats⟩)

end Wins

/-- Lowering carries the element at a position down its path. -/
theorem siftDown_rotated (less : α → α → Bool) (storage : Vector α n) (position : Fin n)
    {element : α} (here : storage.toArray[position.val]? = some element) :
    ∃ path, Descends less storage.toArray element position path ∧
      Rotated storage.toArray (siftDown less storage position).toArray element path := by
  fun_induction siftDown less storage position with
  | case1 storage position best settled =>
    obtain ⟨_, rfl⟩ := Array.getElem?_eq_some_iff.1 here
    have wins := wins_winner less storage position
    have stays : (winner less storage position).val = position.val := congrArg Fin.val settled
    exact ⟨[position.val], wins.descends_single stays, .single here⟩
  | case2 storage position best moved hypothesis =>
    have wins := wins_winner less storage position
    have later : position.val < best.val := lt_winner moved
    have carried : (storage.swap position best).toArray[best.val]? = some element := by
      rw [Vector.toArray_swap, Array.getElem?_swap, if_pos rfl, ← here]
      exact (Array.getElem?_eq_getElem _).symm
    obtain ⟨path, descends, rotated⟩ := hypothesis carried
    rw [Vector.toArray_swap] at descends rotated
    -- Below the winner the storage is still as it was.
    have onward := descends.congr fun place after =>
      getElem?_swap_of_ne _ _ (Nat.ne_of_gt (Nat.lt_trans later after)) (Nat.ne_of_gt after)
    obtain ⟨_, rfl⟩ := Array.getElem?_eq_some_iff.1 here
    refine ⟨position.val :: path, .sinks (wins.yieldsTo (Nat.ne_of_gt later)) onward, ?_⟩
    have new : position.val ∉ path := by
      intro member
      have bound := onward.le_of_mem position.val member
      omega
    obtain ⟨rest, rfl⟩ := onward.exists_eq_cons
    exact rotated.cons _ _ new

end Downwards

end PriorityQueue
