import Mathlib.Data.List.Induction
import PriorityQueue.Proofs.Invariant
import PriorityQueue.Proofs.Placement

/-!
# When the top is displaced

On its way up an added element meets the root last, and is compared with it only if it precedes
everything below. In storage in order under a ranking rule an element that precedes the top does so,
and so the comparison with the top alone tells whether it comes to the root. An element tied with
the top never does. After a row of additions the top is therefore the first, in order of arrival, of
the elements that no other precedes.
-/

namespace PriorityQueue

universe u v

variable {α : Type u} {ρ : Type v}

section Foremost

variable {less : α → α → Bool} {elements : List α} {first : α}

/-- The first element of a list that no element of the list precedes. -/
def foremost? (less : α → α → Bool) (elements : List α) : Option α :=
  elements.find? fun element => elements.all fun other => !less other element

/-- The foremost element is preceded by none, and each one in front of it is preceded by some. -/
theorem foremost?_eq_some_iff :
    foremost? less elements = some first ↔
      (∀ other ∈ elements, less other first = false) ∧
      ∃ front back, elements = front ++ first :: back ∧
        ∀ earlier ∈ front, ∃ other ∈ elements, less other earlier = true := by
  simp [foremost?, List.find?_eq_some_iff_append]

/-- One more element at the end is the foremost one if it precedes the one that was, and otherwise
that one still is. -/
theorem foremost?_concat (order : StrictWeakOrder less)
    (found : foremost? less elements = some first) (element : α) :
    foremost? less (elements ++ [element]) =
      some (if less element first = true then element else first) := by
  obtain ⟨minimal, front, back, shape, beaten⟩ := foremost?_eq_some_iff.1 found
  cases before : less element first with
  | true =>
    have all : ∀ other ∈ elements, less element other = true :=
      fun other member => order.less_of_not_less before (minimal other member)
    rw [if_pos rfl, foremost?_eq_some_iff]
    refine ⟨?_, elements, [], rfl, ?_⟩
    · intro other member
      rcases List.mem_append.1 member with member | member
      · exact order.asymmetric (all other member)
      · rw [List.mem_singleton.1 member]
        exact order.irreflexive element
    · intro earlier member
      exact ⟨element, List.mem_append_right _ List.mem_cons_self, all earlier member⟩
  | false =>
    rw [if_neg (by decide), foremost?_eq_some_iff]
    refine ⟨?_, front, back ++ [element], by simp [shape], ?_⟩
    · intro other member
      rcases List.mem_append.1 member with member | member
      · exact minimal other member
      · rw [List.mem_singleton.1 member]
        exact before
    · intro earlier member
      obtain ⟨other, inside, ahead⟩ := beaten earlier member
      exact ⟨other, List.mem_append_left _ inside, ahead⟩

end Foremost

section Root

variable {less : α → α → Bool} {storage : Array α} {element : α} {position steps : Nat}

/-- The chain of parents of a position ends with the last parent counted. -/
theorem getLast?_iterate_parent (position steps : Nat) :
    (List.iterate parent position (steps + 1)).getLast? = some (parent^[steps] position) := by
  rw [List.getLast?_eq_getElem?, List.length_iterate]
  exact List.getElem?_iterate _ _ _ _ (Nat.lt_succ_self steps)

/-- An element that precedes all others comes to rest at the root. -/
theorem iterate_parent_eq_zero_of_forall (inside : position ≤ storage.size)
    (least : IsLeast {count | RestsAt less storage element (parent^[count] position)} steps)
    (all : ∀ other ∈ storage, less element other = true) : parent^[steps] position = 0 := by
  rcases least.1 with root | stays
  · exact root
  · by_contra below
    have higher : parent (parent^[steps] position) < parent^[steps] position :=
      parent_lt (Nat.pos_of_ne_zero below)
    have bound : parent^[steps] position ≤ position := iterate_parent_le position steps
    have found := Array.getElem?_eq_getElem
      (show parent (parent^[steps] position) < storage.size by omega)
    have never := stays _ found
    rw [all _ (Array.getElem_mem _)] at never
    exact absurd never (by decide)

/-- An element that comes to rest at the root precedes the one that was there. -/
theorem less_first_of_iterate_parent_eq_zero (below : 0 < position) {first : α}
    (top : storage[0]? = some first)
    (least : IsLeast {count | RestsAt less storage element (parent^[count] position)} steps)
    (root : parent^[steps] position = 0) : less element first = true := by
  obtain ⟨count, rfl⟩ : ∃ count, steps = count + 1 := by
    apply Nat.exists_eq_add_one_of_ne_zero
    rintro rfl
    exact absurd root (Nat.ne_of_gt below)
  obtain ⟨passed, there, before⟩ := exists_passed least (Nat.lt_succ_self count)
  rw [root, top, Option.some.injEq] at there
  rwa [there]

/-- The chain up to the first place of rest comes to the root only at its end. -/
theorem zero_mem_iterate_parent_iff
    (least : IsLeast {count | RestsAt less storage element (parent^[count] position)} steps) :
    0 ∈ List.iterate parent position (steps + 1) ↔ parent^[steps] position = 0 := by
  rw [List.mem_iterate]
  constructor
  · rintro ⟨count, early, root⟩
    have enough : steps ≤ count := least.2 (.inl root.symm)
    obtain rfl : count = steps := by omega
    exact root.symm
  · intro root
    exact ⟨steps, Nat.lt_succ_self steps, root.symm⟩

end Root

namespace Heap

variable [Precedence ρ α] {heap : Heap α ρ} {first : α}

/-- An added element that is carried to the root is on top. -/
theorem peek?_push_of_rotated {element : α} {steps : Nat}
    (root : parent^[steps] heap.storage.size = 0)
    (rotated : Rotated heap.storage (heap.push element).storage element
      (List.iterate parent heap.storage.size (steps + 1))) :
    (heap.push element).peek? = some element := by
  apply rotated.lands
  rw [getLast?_iterate_parent, root]

/-- What precedes the top of a ranked heap precedes all of its elements. -/
theorem Ranked.less_of_less_top (ranked : heap.Ranked) (top : heap.peek? = some first) {element : α}
    (before : precedes heap.rule element first = true) :
    ∀ other ∈ heap.storage, precedes heap.rule element other = true := by
  intro other member
  have behind := ranked.not_less_peek top other (Array.mem_toList_iff.2 member)
  exact ranked.order.less_of_not_less before behind

/-- An element that is added to a ranked heap comes to rest at the root exactly if it precedes the
top. -/
theorem Ranked.reaches_root_iff (ranked : heap.Ranked) (top : heap.peek? = some first)
    {element : α} {steps : Nat}
    (least : IsLeast {count | RestsAt (precedes heap.rule) heap.storage element
      (parent^[count] heap.size)} steps) :
    parent^[steps] heap.size = 0 ↔ precedes heap.rule element first = true := by
  have below : 0 < heap.size := (Array.getElem?_eq_some_iff.1 top).1
  constructor
  · exact less_first_of_iterate_parent_eq_zero below top least
  · intro before
    exact iterate_parent_eq_zero_of_forall (Nat.le_refl _) least
      (ranked.less_of_less_top top before)

/-- The top of a ranked heap is displaced exactly by an element that precedes it. -/
theorem Ranked.peek?_push (ranked : heap.Ranked) (top : heap.peek? = some first) (element : α) :
    (heap.push element).peek? =
      some (if precedes heap.rule element first = true then element else first) := by
  obtain ⟨steps, least, rotated⟩ := heap.push_rotated element
  have root := ranked.reaches_root_iff top least
  by_cases before : precedes heap.rule element first = true
  · rw [if_pos before]
    exact peek?_push_of_rotated (root.2 before) rotated
  · rw [if_neg before, ← top]
    apply rotated.stays
    rw [zero_mem_iterate_parent_iff least]
    exact fun reached => before (root.1 reached)

/-- After a row of additions the top is the foremost of the old top and the added elements. -/
theorem Ranked.exists_peek?_pushAll (ranked : heap.Ranked) (top : heap.peek? = some first)
    (elements : List α) :
    ∃ next, (heap.pushAll elements).peek? = some next ∧
      foremost? (precedes heap.rule) (first :: elements) = some next := by
  induction elements using List.reverseRecOn with
  | nil =>
    refine ⟨first, top, foremost?_eq_some_iff.2 ⟨?_, [], [], rfl, by simp⟩⟩
    intro other member
    rw [List.mem_singleton.1 member]
    exact ranked.order.irreflexive first
  | append_singleton elements element hypothesis =>
    obtain ⟨next, shown, found⟩ := hypothesis
    have later : (heap.pushAll elements).Ranked := invariant_ranked.pushAll ranked elements
    refine ⟨_, ?_, foremost?_concat ranked.order found element⟩
    rw [pushAll_append]
    have displaced := later.peek?_push shown element
    rwa [rule_pushAll] at displaced

end Heap

/-- In storage in order under a strict weak order, an added element comes to the top if it precedes
the one that is there; otherwise that one stays where it is, and the added one comes to rest below.
A batch that storage has room for leaves at the top the first, of the old top and the added elements
in turn, that none of them precedes. -/
theorem additions_bring_foremost_to_top [Precedence ρ α] [Footprint α] {start : Heap α ρ}
    {first : α} (order : StrictWeakOrder (precedes start.rule)) (ordered : start.IsOrdered)
    (top : start.peek? = some first) :
    (∀ element,
      (start.push element).peek? =
        some (if precedes start.rule element first = true then element else first) ∧
      ∃ steps, IsLeast {count | RestsAt (precedes start.rule) start.storage element
          (parent^[count] start.size)} steps ∧
        (parent^[steps] start.size = 0 ↔ precedes start.rule element first = true)) ∧
    ∀ batch : Batch α, start.size + batch.announced ≤ capacityLimit α →
      ∃ longer next, start.extend batch = .ok longer ∧ longer.peek? = some next ∧
        foremost? (precedes start.rule) (first :: batch.elements) = some next := by
  have ranked : start.Ranked := ⟨order, ordered⟩
  constructor
  · intro element
    obtain ⟨steps, least, -⟩ := start.push_rotated element
    exact ⟨ranked.peek?_push top element, steps, least, ranked.reaches_root_iff top least⟩
  · intro batch fits
    have granted := Heap.reserve_eq_ok_iff.2 ⟨fits, rfl⟩
    have roomy : Heap.Ranked { start with spare := max start.spare batch.announced } :=
      Heap.invariant_ranked.reserve ranked granted
    obtain ⟨next, shown, found⟩ := roomy.exists_peek?_pushAll top batch.elements
    refine ⟨_, next, ?_, shown, found⟩
    simp only [Heap.extend, granted]

/-- Integers ranked by their tens: twenty-one does not displace twenty-five, with which it is tied,
and fourteen does. Of four more the first in the tens is seventeen. -/
theorem tens_bring_foremost_to_top :
    let tens : Int → Int → Bool := fun left right => NaturalOrder.lt (left / 10) (right / 10)
    let start : Heap Int (Int → Int → Bool) := ⟨#[25, 31, 27], tens, 0⟩
    StrictWeakOrder (precedes start.rule) ∧ start.IsOrdered ∧ start.peek? = some 25 ∧
      (start.push 21).peek? = some 25 ∧ (start.push 14).peek? = some 14 ∧
      ∃ longer, start.extend (.ofList [28, 17, 12, 19]) = .ok longer ∧
        longer.peek? = some 17 := by
  intro tens start
  have order : StrictWeakOrder (precedes start.rule) := strictWeakOrder_int.along (· / 10)
  have ordered : start.IsOrdered := by decide
  have top : start.peek? = some 25 := rfl
  obtain ⟨single, several⟩ := additions_bring_foremost_to_top order ordered top
  obtain ⟨longer, next, added, shown, found⟩ := several (.ofList [28, 17, 12, 19]) (by decide)
  have chosen : foremost? (precedes start.rule) [25, 28, 17, 12, 19] = some 17 := by decide
  obtain rfl : next = 17 := Option.some.inj (found.symm.trans chosen)
  exact ⟨order, ordered, top, (single 21).1, (single 14).1, longer, added, shown⟩

end PriorityQueue
