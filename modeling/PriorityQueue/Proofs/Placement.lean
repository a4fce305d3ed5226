import PriorityQueue.Heap.Lemmas
import PriorityQueue.Proofs.NumberOrder
import PriorityQueue.Proofs.Rotation
import PriorityQueue.Proofs.WordHeap

/-!
# Where additions and removals put the elements

An added element is carried up the chain of parents from the end of the storage, and the last
element, when the first has left, down a path of winners from the root. Both paths are told by
comparisons on the storage as it was, so that storage after either operation is known place by
place, whatever the rule. The way down is gone with words as long as these suffice.
-/

namespace PriorityQueue

universe u v

variable {α : Type u} {ρ : Type v} [Precedence ρ α]

namespace Heap

/-- Adding an element carries it from the end of the storage up the chain of parents, to the first
position where it rests. -/
theorem push_rotated (heap : Heap α ρ) (element : α) :
    ∃ steps,
      IsLeast {count | RestsAt (precedes heap.rule) heap.storage element
        (parent^[count] heap.storage.size)} steps ∧
      Rotated heap.storage (heap.push element).storage element
        (List.iterate parent heap.storage.size (steps + 1)) := by
  have inside : heap.storage.size < (heap.storage.push element).size := by simp
  have before : ∀ place, place ≠ heap.storage.size →
      (heap.storage.push element)[place]? = heap.storage[place]? := by
    intro place elsewhere
    rw [Array.getElem?_push, if_neg elsewhere]
  obtain ⟨steps, least, rotated⟩ := siftUp_rotated (precedes heap.rule)
    (heap.storage.push element).toVector heap.storage.size inside
  simp only [Vector.getElem_mk, Array.getElem_push_eq] at least rotated
  rw [setOf_restsAt_congr fun place earlier => before place (Nat.ne_of_lt earlier)] at least
  refine ⟨steps, least, rotated.of_agree ?_⟩
  intro place elsewhere
  exact before place fun here => elsewhere (by rw [here]; rfl)

/-- Settling the last element in the place of the first carries it from the root down its path,
over storage without the last place. -/
theorem settleRoot_rotated (less : α → α → Bool) {storage : Array α}
    (nonempty : 0 < storage.size) (within : storage.size - 1 < storage.size)
    (several : 2 ≤ storage.size) :
    ∃ path, Descends less storage.pop storage[storage.size - 1] 0 path ∧
      Rotated storage.pop (settleRoot less (storage.swap 0 (storage.size - 1)).pop)
        storage[storage.size - 1] path := by
  have left : 0 < (storage.swap 0 (storage.size - 1)).pop.size := by
    simp only [Array.size_pop, Array.size_swap]
    omega
  have agree : ∀ place, place ≠ 0 →
      (storage.swap 0 (storage.size - 1)).pop[place]? = storage.pop[place]? := by
    intro place below
    rw [Array.getElem?_pop, Array.getElem?_pop, Array.size_swap]
    split
    · exact getElem?_swap_of_ne nonempty within below (by omega)
    · rfl
  have first : (storage.swap 0 (storage.size - 1)).pop[0]? =
      some storage[storage.size - 1] := by
    rw [Array.getElem?_eq_getElem left, Array.getElem_pop, Array.getElem_swap_left]
  obtain ⟨path, descends, rotated⟩ := siftDown_rotated less
    (storage.swap 0 (storage.size - 1)).pop.toVector ⟨0, left⟩ first
  refine ⟨path, descends.congr fun place below => agree place (Nat.ne_of_gt below), ?_⟩
  rw [settleRoot, dif_pos left]
  apply rotated.of_agree
  intro place elsewhere
  apply agree place
  rintro rfl
  obtain ⟨rest, rfl⟩ := descends.exists_eq_cons
  exact elsewhere rfl

/-- Taking the first element out of several carries the last one from the root down its path. -/
theorem pop?_rotated {heap : Heap α ρ} (several : 2 ≤ heap.storage.size) {first last : α}
    (top : heap.storage[0]? = some first)
    (bottom : heap.storage[heap.storage.size - 1]? = some last) :
    ∃ rest path, heap.pop? = some (first, rest) ∧
      Descends (precedes heap.rule) heap.storage.pop last 0 path ∧
      Rotated heap.storage.pop rest.storage last path := by
  obtain ⟨nonempty, rfl⟩ := Array.getElem?_eq_some_iff.1 top
  obtain ⟨within, rfl⟩ := Array.getElem?_eq_some_iff.1 bottom
  obtain ⟨path, descends, rotated⟩ :=
    settleRoot_rotated (precedes heap.rule) nonempty within several
  exact ⟨_, path, dif_pos nonempty, descends, rotated⟩

end Heap

/-- An added element goes up the chain of parents that begins at the end of the storage, as far as
it precedes what stands there, and every element that it passes comes one place down the chain. All
other elements stay. So an element changes its place only if the added one precedes it. -/
theorem push_rotates_ancestors (heap : Heap α ρ) (element : α) :
    ∃ steps,
      IsLeast {count | RestsAt (precedes heap.rule) heap.storage element
        (parent^[count] heap.size)} steps ∧
      (heap.push element).size = heap.size + 1 ∧
      (heap.push element).storage[parent^[steps] heap.size]? = some element ∧
      (∀ count < steps, ∃ passed, heap.storage[parent^[count + 1] heap.size]? = some passed ∧
        precedes heap.rule element passed = true ∧
        (heap.push element).storage[parent^[count] heap.size]? = some passed) ∧
      (∀ place, (∀ count ≤ steps, place ≠ parent^[count] heap.size) →
        (heap.push element).storage[place]? = heap.storage[place]?) ∧
      ∀ place other, heap.storage[place]? = some other →
        (heap.push element).storage[place]? = some other ∨
          precedes heap.rule element other = true ∧
            ∃ count < steps, place = parent^[count + 1] heap.size := by
  obtain ⟨steps, least, rotated⟩ := heap.push_rotated element
  have chain : ∀ count ≤ steps,
      (List.iterate parent heap.size (steps + 1))[count]? = some (parent^[count] heap.size) :=
    fun count early => List.getElem?_iterate _ _ _ _ (Nat.lt_succ_of_le early)
  have passes : ∀ count < steps, ∃ passed,
      heap.storage[parent^[count + 1] heap.size]? = some passed ∧
      precedes heap.rule element passed = true ∧
      (heap.push element).storage[parent^[count] heap.size]? = some passed := by
    intro count early
    obtain ⟨passed, above, before⟩ := exists_passed least early
    refine ⟨passed, above, before, ?_⟩
    rw [rotated.shifts count _ _ (chain count (Nat.le_of_lt early)) (chain (count + 1) early)]
    exact above
  have others : ∀ place, (∀ count ≤ steps, place ≠ parent^[count] heap.size) →
      (heap.push element).storage[place]? = heap.storage[place]? := by
    intro place off
    apply rotated.stays
    rw [List.mem_iterate]
    rintro ⟨count, early, here⟩
    exact off count (Nat.le_of_lt_succ early) here
  refine ⟨steps, least, heap.size_push element, ?_, passes, others, ?_⟩
  · apply rotated.lands
    rw [List.getLast?_eq_getElem?, List.length_iterate]
    exact chain steps (Nat.le_refl steps)
  · intro place other here
    by_cases on : ∃ count < steps, place = parent^[count + 1] heap.size
    · obtain ⟨count, early, rfl⟩ := on
      obtain ⟨passed, above, before, -⟩ := passes count early
      obtain rfl : passed = other := Option.some.inj (above.symm.trans here)
      exact .inr ⟨before, count, early, rfl⟩
    · left
      rw [others, here]
      intro count early same
      cases count with
      | zero =>
        have inside : place < heap.size := (Array.getElem?_eq_some_iff.1 here).1
        exact absurd same (Nat.ne_of_lt inside)
      | succ count => exact on ⟨count, early, same⟩

/-- When the first of several elements is taken out, the last one goes down from the root along the
only path of winners against it, and every element on the path comes one place up. All other
elements stay. If words suffice for the removal, it comes to this with words as well. -/
theorem pop_rotates_path {heap : Heap α ρ} (several : 2 ≤ heap.size)
    (words : Word.Suffice (precedes heap.rule) heap.size) :
    ∃ first last rest path,
      heap.storage[0]? = some first ∧ heap.storage[heap.size - 1]? = some last ∧
      heap.pop? = some (first, rest) ∧ rest.size = heap.size - 1 ∧
      (∀ rounds ≥ heap.size, Word.pop? rounds heap = some (some (first, rest))) ∧
      Descends (precedes heap.rule) heap.storage.pop last 0 path ∧
      (∀ other, Descends (precedes heap.rule) heap.storage.pop last 0 other → other = path) ∧
      (∀ place ∈ path, place < heap.size - 1) ∧
      (∀ (index here next : Nat), path[index]? = some here → path[index + 1]? = some next →
        rest.storage[here]? = heap.storage[next]?) ∧
      (∀ bottom, path.getLast? = some bottom → rest.storage[bottom]? = some last) ∧
      ∀ place < heap.size - 1, place ∉ path → rest.storage[place]? = heap.storage[place]? := by
  have sized : heap.storage.size = heap.size := rfl
  have top := Array.getElem?_eq_getElem (show 0 < heap.storage.size by omega)
  have bottom := Array.getElem?_eq_getElem (show heap.size - 1 < heap.storage.size by omega)
  obtain ⟨rest, path, popped, descends, rotated⟩ := Heap.pop?_rotated several top bottom
  have shorter : heap.storage.pop.size = heap.size - 1 := Array.size_pop
  have kept : ∀ place < heap.size - 1, heap.storage.pop[place]? = heap.storage[place]? := by
    intro place inside
    rw [Array.getElem?_pop, sized, if_pos inside]
  have within : ∀ place ∈ path, place < heap.size - 1 := by
    rw [← shorter]
    exact descends.lt_size_of_mem (by omega)
  have fewer : rest.size + 1 = heap.size := Heap.size_of_pop? popped
  refine ⟨_, _, rest, path, top, bottom, popped, by omega, ?_, descends,
    fun other goes => goes.unique descends, within, ?_, rotated.lands, ?_⟩
  · intro rounds enough
    rw [Word.pop?_eq words enough, popped]
  · intro index here next found follows
    rw [rotated.shifts index here next found follows]
    exact kept next (within next (List.mem_of_getElem? follows))
  · intro place inside off
    rw [rotated.stays place off, kept place inside]

/-- Among numbers that beat each other in a circle, zero goes from the root to the right child two,
which it beats itself, because two beats the left child one, which beats zero; and further down in
the same way. -/
theorem pop_rotates_circle :
    let heap : Heap Int (Int → Int → Bool) := ⟨#[9, 1, 2, 4, 8, 1, 5, 0], beatsInCircle, 0⟩
    2 ≤ heap.size ∧ Word.Suffice beatsInCircle heap.size ∧
      Descends beatsInCircle heap.storage.pop 0 0 [0, 2, 6] ∧
      ∃ rest, heap.pop? = some (9, rest) ∧ Word.pop? 8 heap = some (some (9, rest)) ∧
        rest.size = 7 ∧ rest.storage[0]? = some 2 ∧
        rest.storage[2]? = some 5 ∧ rest.storage[6]? = some 0 ∧ rest.storage[1]? = some 1 := by
  intro heap
  have several : 2 ≤ heap.size := by decide
  have words : Word.Suffice beatsInCircle heap.size := .inl (by decide)
  have path : Descends beatsInCircle heap.storage.pop 0 0 [0, 2, 6] := by
    have second : YieldsTo beatsInCircle heap.storage.pop 0 0 2 :=
      .right (show _ = some 1 from rfl) (show _ = some 2 from rfl) (.inl (by decide))
    have sixth : YieldsTo beatsInCircle heap.storage.pop 0 2 6 :=
      .right (show _ = some 1 from rfl) (show _ = some 5 from rfl) (.inl (by decide))
    refine .sinks second (.sinks sixth (.rests ?_ ?_))
    · simp [heap, leftChild]
    · simp [heap, leftChild, rightChild]
  obtain ⟨first, last, rest, found, top, bottom, popped, sized, reckoned, -, only, -, shifts, lands,
    stays⟩ := pop_rotates_path several words
  obtain rfl : 9 = first := Option.some.inj top
  obtain rfl : 0 = last := Option.some.inj bottom
  obtain rfl := only _ path
  refine ⟨several, words, path, rest, popped, reckoned 8 (Nat.le_refl 8), sized,
    shifts 0 0 2 rfl rfl, shifts 1 2 6 rfl rfl, lands 6 rfl, stays 1 (by decide) (by decide)⟩

/-- In storage that units fill up to the range of words, under a rule that puts each before each,
the last unit comes to a place by numbers, but with words it sinks without end. -/
theorem last_unit_sinks_without_end :
    let heap : Heap Unit (Unit → Unit → Bool) :=
      ⟨Array.replicate wordLimit (), fun _ _ => true, 0⟩
    2 ≤ heap.size ∧ (∃ rest, heap.pop? = some ((), rest)) ∧
      ∀ rounds, Word.pop? rounds heap = none := by
  intro heap
  have full : heap.size = wordLimit := Array.size_replicate
  have several : 2 ≤ heap.size := by
    rw [full]
    decide
  have nonempty : 0 < heap.storage.size := Nat.lt_of_succ_lt several
  exact ⟨several, ⟨_, dif_pos nonempty⟩, Word.pop?_of_full (fun _ _ => rfl) full⟩

end PriorityQueue
