import PriorityQueue.Proofs.Conservation
import PriorityQueue.Proofs.Displacement

/-!
# A removal that undoes an addition

An element that precedes all others is carried to the root along the whole chain of parents. When it
is taken out again, the element that it has put out of the chain at the bottom sinks from the root,
and its way is the same chain: at each place the child on the chain holds what stood above both
children before, so if no two elements are tied it wins against the other child. Carried there and
back, every element stands where it stood.
-/

namespace PriorityQueue

universe u v

variable {α : Type u} {ρ : Type v} {less : α → α → Bool}

/-- If an element was carried along a path, and what it put out of the first place is carried from
the last place back to the second, then all elements but those at the first place are where they
were. -/
theorem Rotated.undo {before after other again : Array α} {element carried : α} {first : Nat}
    {path : List Nat} (forth : Rotated before after element (first :: path))
    (put : after[first]? = some carried)
    (agree : ∀ place, place ≠ first → other[place]? = after[place]?)
    (back : Rotated other again carried path.reverse) :
    ∀ place, place ≠ first → again[place]? = before[place]? := by
  intro place elsewhere
  by_cases on : place ∈ path
  · obtain ⟨index, here⟩ := List.mem_iff_getElem?.1 on
    have inside : index < path.length := (List.getElem?_eq_some_iff.1 here).1
    cases index with
    | zero =>
      rw [back.lands place (by rw [List.getLast?_reverse, List.head?_eq_getElem?, here]), ← put]
      exact forth.shifts 0 first place rfl here
    | succ index =>
      have earlier := List.getElem?_eq_getElem (show index < path.length by omega)
      have apart : path[index] ≠ first := by
        intro same
        exact (List.nodup_cons.1 forth.distinct).1 (same ▸ List.getElem_mem _)
      rw [back.shifts (path.length - 1 - (index + 1)) place path[index] ?_ ?_, agree _ apart]
      · exact forth.shifts (index + 1) path[index] place earlier here
      · rw [List.getElem?_reverse (by omega), ← here]
        congr 1
        omega
      · rw [List.getElem?_reverse (by omega), ← earlier]
        congr 1
        omega
  · rw [back.stays place (by rwa [List.mem_reverse]), agree place elsewhere]
    exact forth.stays place (by simp [elsewhere, on])

section Chain

variable {position sibling count steps : Nat}

/-- Later places on the chain of parents do not lie after the parent of an earlier one. -/
theorem iterate_parent_le_parent (position : Nat) (early : count < steps) :
    parent^[steps] position ≤ parent (parent^[count] position) := by
  rw [← Function.iterate_succ_apply' parent]
  exact antitone_iterate_parent position early

/-- The chain of parents does not come to the other child of a parent on it. -/
theorem sibling_ne_iterate_parent (below : 0 < sibling) (inside : 0 < parent^[count] position)
    (same : parent sibling = parent (parent^[count] position))
    (other : sibling ≠ parent^[count] position) : sibling ≠ parent^[steps] position := by
  rintro rfl
  rcases Nat.lt_trichotomy steps count with earlier | rfl | later
  · have bound := iterate_parent_le_parent position earlier
    have higher := parent_lt inside
    omega
  · exact other rfl
  · have bound := iterate_parent_le_parent position later
    have higher := parent_lt below
    omega

end Chain

/-- Every element is preceded by its parent. -/
def StrictlyOrdered (less : α → α → Bool) (storage : Array α) : Prop :=
  ∀ position element above, 0 < position → storage[position]? = some element →
    storage[parent position]? = some above → less above element = true

/-- Storage in order is strictly so if no two elements are tied. -/
theorem HeapOrdered.strictlyOrdered {storage : Array α} (ordered : HeapOrdered less storage)
    (untied : storage.toList.Pairwise fun left right => ¬ Tied less left right) :
    StrictlyOrdered less storage := by
  intro position element above below here there
  have edge : less element above = false := ordered position below element above here there
  cases before : less above element with
  | true => rfl
  | false =>
    obtain ⟨inside, rfl⟩ := Array.getElem?_eq_some_iff.1 here
    obtain ⟨upper, rfl⟩ := Array.getElem?_eq_some_iff.1 there
    have apart : ¬ Tied less storage[parent position] storage[position] :=
      List.pairwise_iff_getElem.1 untied (parent position) position upper inside (parent_lt below)
    exact absurd ⟨before, edge⟩ apart

namespace StrictlyOrdered

variable {storage : Array α}

/-- Every element is preceded by all that are above it. -/
theorem less_of_above (strict : StrictlyOrdered less storage) (order : StrictPartialOrder less)
    {position count : Nat} {element above : α} (here : storage[position]? = some element)
    (below : 0 < parent^[count] position)
    (there : storage[parent (parent^[count] position)]? = some above) :
    less above element = true := by
  induction count generalizing above with
  | zero => exact strict position element above below here there
  | succ count hypothesis =>
    have bound : parent^[count + 1] position ≤ position := iterate_parent_le position _
    have inside : position < storage.size := (Array.getElem?_eq_some_iff.1 here).1
    obtain ⟨between, found⟩ : ∃ between, storage[parent^[count + 1] position]? = some between :=
      ⟨_, Array.getElem?_eq_getElem (by omega)⟩
    have upper := strict _ between above below found there
    rw [Function.iterate_succ_apply'] at below found
    have lower : 0 < parent^[count] position := Nat.lt_of_lt_of_le below (parent_le _)
    exact order.transitive above between element upper (hypothesis lower found)

end StrictlyOrdered

/-- A sinking element yields to a child that precedes both it and the other child. -/
theorem yieldsTo_of_beats {storage : Array α} {sinking above : α} {position child : Nat}
    (order : StrictPartialOrder less)
    (isChild : child = leftChild position ∨ child = rightChild position)
    (here : storage[child]? = some above) (beats : less above sinking = true)
    (loses : ∀ sibling element, 0 < sibling → parent sibling = position → sibling ≠ child →
      storage[sibling]? = some element → less above element = true) :
    YieldsTo less storage sinking position child := by
  have apart : rightChild position ≠ leftChild position := Nat.succ_ne_self _
  rcases isChild with rfl | rfl
  · refine .left here beats ?_
    intro right there
    apply order.asymmetric
    exact loses _ right (Nat.zero_lt_of_lt (lt_rightChild _)) (parent_rightChild _) apart there
  · have inside : rightChild position < storage.size := (Array.getElem?_eq_some_iff.1 here).1
    obtain ⟨left, there⟩ : ∃ left, storage[leftChild position]? = some left :=
      ⟨_, Array.getElem?_eq_getElem (Nat.lt_trans (Nat.lt_succ_self _) inside)⟩
    have behind : less above left = true :=
      loses _ left (Nat.zero_lt_of_lt (lt_leftChild _)) (parent_leftChild _) (Ne.symm apart) there
    refine .right there here ?_
    cases less left sinking with
    | true => exact .inl ⟨rfl, behind⟩
    | false => exact .inr ⟨rfl, beats⟩

/-- Every element on the chain of parents from the end of the storage has come one place down, but
for the lowest, which is gone, and all others are where they were. -/
structure Lowered (storage lowered : Array α) : Prop where
  /-- There is one element for each place there was. -/
  size : lowered.size = storage.size
  /-- A place on the chain holds what stood at its parent. -/
  chain : ∀ count, 0 < parent^[count + 1] storage.size →
    lowered[parent^[count + 1] storage.size]? = storage[parent (parent^[count + 1] storage.size)]?
  /-- A place off the chain holds what it held. -/
  others : ∀ place < storage.size, (∀ count, place ≠ parent^[count] storage.size) →
    lowered[place]? = storage[place]?

namespace Lowered

variable {storage lowered : Array α} {sinking : α}

/-- The other child of a parent on the chain is where it was. -/
theorem getElem?_sibling (down : Lowered storage lowered) (count : Nat) {sibling : Nat}
    (nonroot : 0 < sibling) (below : 0 < parent^[count] storage.size)
    (same : parent sibling = parent (parent^[count] storage.size))
    (other : sibling ≠ parent^[count] storage.size) : lowered[sibling]? = storage[sibling]? := by
  by_cases within : sibling < storage.size
  · exact down.others sibling within fun steps =>
      sibling_ne_iterate_parent nonroot below same other
  · rw [Array.getElem?_eq_none (by rw [down.size]; omega), Array.getElem?_eq_none (by omega)]

/-- An element that stood at the bottom of the chain and sinks from a place on it yields to the
child on the chain. -/
theorem yieldsTo (down : Lowered storage lowered) {count : Nat} (order : StrictPartialOrder less)
    (strict : StrictlyOrdered less storage) (bottom : storage[parent storage.size]? = some sinking)
    (below : 0 < parent^[count + 1] storage.size) :
    YieldsTo less lowered sinking (parent (parent^[count + 1] storage.size))
      (parent^[count + 1] storage.size) := by
  have higher := parent_lt below
  have bound : parent^[count + 1] storage.size ≤ parent storage.size := iterate_parent_le _ count
  have inside : parent storage.size < storage.size := (Array.getElem?_eq_some_iff.1 bottom).1
  obtain ⟨above, there⟩ : ∃ above,
      storage[parent (parent^[count + 1] storage.size)]? = some above :=
    ⟨_, Array.getElem?_eq_getElem (by omega)⟩
  have child := (down.chain count below).trans there
  have beats : less above sinking = true := strict.less_of_above order bottom below there
  refine yieldsTo_of_beats order (child_of_parent below) child beats ?_
  -- The other child is still below what has come down, and is preceded by it.
  intro sibling element nonroot same other here
  rw [down.getElem?_sibling (count + 1) nonroot below same other] at here
  exact strict sibling element above nonroot here (by rw [same, there])

/-- An element that stood at the bottom of the chain has nothing to yield to there. -/
theorem descends_bottom (down : Lowered storage lowered) (order : StrictPartialOrder less)
    (strict : StrictlyOrdered less storage) (occupied : 0 < storage.size)
    (bottom : storage[parent storage.size]? = some sinking) :
    Descends less lowered sinking (parent storage.size) [parent storage.size] := by
  have loses : ∀ place element, 0 < place → parent place = parent storage.size →
      lowered[place]? = some element → less element sinking = false := by
    intro place element nonroot same here
    have within : place < storage.size := by
      rw [← down.size]
      exact (Array.getElem?_eq_some_iff.1 here).1
    rw [down.getElem?_sibling 0 nonroot occupied same (Nat.ne_of_lt within)] at here
    exact order.asymmetric (strict place element sinking nonroot here (by rw [same, bottom]))
  apply Descends.rests
  · intro left here
    exact loses _ left (Nat.zero_lt_of_lt (lt_leftChild _)) (parent_leftChild _) here
  · intro right here
    exact loses _ right (Nat.zero_lt_of_lt (lt_rightChild _)) (parent_rightChild _) here

/-- An element that stood at the bottom of the chain goes back there from every place on it. -/
theorem descends (down : Lowered storage lowered) {count : Nat} (order : StrictPartialOrder less)
    (strict : StrictlyOrdered less storage)
    (bottom : storage[parent storage.size]? = some sinking)
    (below : 0 < parent^[count] storage.size) :
    Descends less lowered sinking (parent^[count + 1] storage.size)
      (List.iterate parent (parent storage.size) (count + 1)).reverse := by
  induction count with
  | zero => exact down.descends_bottom order strict below bottom
  | succ count hypothesis =>
    have lower : 0 < parent^[count] storage.size := by
      rw [Function.iterate_succ_apply'] at below
      exact Nat.lt_of_lt_of_le below (parent_le _)
    have longer : (List.iterate parent (parent storage.size) (count + 2)).reverse =
        parent (parent^[count + 1] storage.size) ::
          (List.iterate parent (parent storage.size) (count + 1)).reverse := by
      rw [List.iterate_add parent (parent storage.size) (count + 1) 1, List.reverse_append,
        ← Function.iterate_succ_apply' parent, Function.iterate_succ_apply]
      rfl
    rw [longer, Function.iterate_succ_apply' parent (count + 1)]
    exact .sinks (down.yieldsTo order strict bottom below) (hypothesis lower)

end Lowered

namespace Heap

variable [Precedence ρ α] {heap : Heap α ρ} {element : α}

/-- An element that precedes all others is added by carrying it up the whole chain of parents. -/
theorem push_rotated_of_forall
    (least : ∀ other ∈ heap.toList, precedes heap.rule element other = true) :
    ∃ steps, parent^[steps] heap.storage.size = 0 ∧
      (∀ count < steps, 0 < parent^[count] heap.storage.size) ∧
      Rotated heap.storage (heap.push element).storage element
        (List.iterate parent heap.storage.size (steps + 1)) := by
  obtain ⟨steps, first, rotated⟩ := heap.push_rotated element
  refine ⟨steps, ?_, ?_, rotated⟩
  · apply iterate_parent_eq_zero_of_forall (Nat.le_refl _) first
    intro other member
    exact least other (Array.mem_toList_iff.2 member)
  · intro count early
    apply Nat.pos_of_ne_zero
    intro root
    have enough : steps ≤ count := first.2 (.inl root)
    omega

/-- When an added element was carried up the whole chain, the others on the chain have come one
place down. -/
theorem lowered_of_rotated {steps : Nat} (root : parent^[steps] heap.storage.size = 0)
    (rotated : Rotated heap.storage (heap.push element).storage element
      (List.iterate parent heap.storage.size (steps + 1))) :
    Lowered heap.storage (heap.push element).storage.pop := by
  have size : (heap.push element).storage.size = heap.storage.size + 1 := size_push heap element
  have shorter : ∀ place < heap.storage.size,
      (heap.push element).storage.pop[place]? = (heap.push element).storage[place]? := by
    intro place inside
    rw [Array.getElem?_pop, size, Nat.add_sub_cancel, if_pos inside]
  constructor
  · rw [Array.size_pop, size, Nat.add_sub_cancel]
  · intro count below
    have early : count + 1 < steps := by
      by_contra late
      have bound := antitone_iterate_parent heap.storage.size (Nat.le_of_not_lt late)
      simp only [root] at bound
      omega
    have bound := iterate_parent_le_parent heap.storage.size (Nat.succ_pos count)
    have nonroot : 0 < heap.storage.size := Nat.lt_of_lt_of_le below (iterate_parent_le _ _)
    rw [shorter _ (Nat.lt_of_le_of_lt bound (parent_lt nonroot)),
      ← Function.iterate_succ_apply' parent]
    apply rotated.shifts (count + 1)
    · exact List.getElem?_iterate _ _ _ _ (by omega)
    · exact List.getElem?_iterate _ _ _ _ (by omega)
  · intro place inside off
    rw [shorter place inside]
    apply rotated.stays
    rw [List.mem_iterate]
    rintro ⟨count, -, here⟩
    exact off count here

/-- In storage in order without ties, an element that precedes all others is added and taken out
again, and before the end every place holds what it held. -/
theorem exists_pop?_push_of_forall (order : StrictPartialOrder (precedes heap.rule))
    (strict : StrictlyOrdered (precedes heap.rule) heap.storage)
    (least : ∀ other ∈ heap.toList, precedes heap.rule element other = true) :
    ∃ rest, (heap.push element).pop? = some (element, rest) ∧
      ∀ place < heap.storage.size, rest.storage[place]? = heap.storage[place]? := by
  obtain ⟨steps, root, below, forth⟩ := push_rotated_of_forall least
  have top : (heap.push element).peek? = some element := peek?_push_of_rotated root forth
  have size : (heap.push element).storage.size = heap.storage.size + 1 := size_push heap element
  rcases Nat.eq_zero_or_pos heap.storage.size with vacant | occupied
  · have held : (heap.push element).toList ≠ [] := by
      rw [← List.length_pos_iff, length_toList, size_push]
      exact Nat.succ_pos _
    obtain ⟨first, rest, popped, shown, -⟩ := exists_pop?_of_ne_nil held
    obtain rfl : first = element := Option.some.inj (shown.symm.trans top)
    exact ⟨rest, popped, fun place inside => by omega⟩
  · obtain ⟨count, rfl⟩ : ∃ count, steps = count + 1 := by
      apply Nat.exists_eq_add_one_of_ne_zero
      rintro rfl
      exact absurd root (Nat.ne_of_gt occupied)
    obtain ⟨sinking, bottom⟩ : ∃ sinking, heap.storage[parent heap.storage.size]? = some sinking :=
      ⟨_, Array.getElem?_eq_getElem (parent_lt occupied)⟩
    have put : (heap.push element).storage[heap.storage.size]? = some sinking :=
      (forth.shifts 0 _ _ rfl rfl).trans bottom
    have several : 2 ≤ (heap.push element).storage.size := by omega
    obtain ⟨rest, path, popped, goes, back⟩ := pop?_rotated several top (by rwa [size])
    -- The way down is the way up.
    have way := (lowered_of_rotated root forth).descends order strict bottom
      (below count (Nat.lt_succ_self count))
    rw [root] at way
    obtain rfl := goes.unique way
    refine ⟨rest, popped, fun place inside => ?_⟩
    apply forth.undo put _ back place (Nat.ne_of_lt inside)
    intro place elsewhere
    rw [Array.getElem?_pop, size, Nat.add_sub_cancel]
    split
    · rfl
    · rw [Array.getElem?_eq_none (by omega)]

end Heap

/-- Under a strict partial order, and so under a strict weak order, an element that precedes all
others is added to storage in order without ties and taken out again without a trace: every element
stands where it stood. -/
theorem pop_undoes_push_of_least [Precedence ρ α] {start : Heap α ρ} {element : α}
    (order : StrictPartialOrder (precedes start.rule)) (ordered : start.IsOrdered)
    (untied : start.toList.Pairwise fun left right => ¬ Tied (precedes start.rule) left right)
    (least : ∀ other ∈ start.toList, precedes start.rule element other = true) :
    ∃ rest, (start.push element).pop? = some (element, rest) ∧ rest.storage = start.storage ∧
      rest.rule = start.rule := by
  obtain ⟨rest, popped, same⟩ := Heap.exists_pop?_push_of_forall order
    (HeapOrdered.strictlyOrdered ordered untied) least
  have fewer : rest.size + 1 = (start.push element).size := Heap.size_of_pop? popped
  rw [Heap.size_push] at fewer
  have sized : rest.storage.size = start.storage.size := Nat.succ.inj fewer
  refine ⟨rest, popped, ?_, (Heap.rule_of_pop? popped).trans (start.rule_push element)⟩
  apply Array.ext_getElem?
  intro place
  by_cases inside : place < start.storage.size
  · exact same place inside
  · rw [Array.getElem?_eq_none (by omega), Array.getElem?_eq_none (by omega)]

/-- Zero is added to ten integers and taken out again. It comes to the root over two right children
and a left one. -/
theorem pop_undoes_push_of_zero :
    let start : Heap Int (Natural Int) := ⟨#[1, 2, 3, 7, 4, 9, 5, 8, 11, 6], ⟨⟩, 0⟩
    StrictPartialOrder (precedes start.rule) ∧ start.IsOrdered ∧
      (start.push 0).toList = [0, 1, 3, 7, 2, 9, 5, 8, 11, 6, 4] ∧
      ∃ rest, (start.push 0).pop? = some (0, rest) ∧ rest.storage = start.storage := by
  intro start
  have order : StrictPartialOrder (precedes start.rule) := strictWeakOrder_int.toStrictPartialOrder
  have ordered : start.IsOrdered := by decide
  have untied : start.toList.Pairwise fun left right =>
      ¬ Tied (precedes start.rule) left right := by
    unfold Tied
    decide
  have least : ∀ other ∈ start.toList, precedes start.rule 0 other = true := by decide
  obtain ⟨rest, popped, same, -⟩ := pop_undoes_push_of_least order ordered untied least
  exact ⟨order, ordered, by decide +kernel, rest, popped, same⟩

end PriorityQueue
