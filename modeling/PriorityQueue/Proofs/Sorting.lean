import PriorityQueue.Proofs.NumberOrder
import PriorityQueue.Proofs.Removal

/-!
# Sorting by a heap

`Heap.Grows` relates a heap to the elements that were added to it, in whatever chunks, and to the
heap that this gives: its storage is that of adding the elements one by one. Taking elements out of
a heap grown from an empty one sorts them. Two sorted arrangements of the same elements have tied
elements at each place, so the order of insertion shows at most in the choice among ties.
-/

namespace PriorityQueue

universe u v

variable {α : Type u} {ρ : Type v}

section Uniqueness

variable {less : α → α → Bool} {front back : List α} {element : α}

/-- In non-decreasing order, what an element precedes is preceded by all elements up to it. -/
theorem NonDecreasing.length_lt_countP (order : StrictWeakOrder less)
    (sorted : NonDecreasing less (front ++ element :: back)) {bound : α}
    (before : less element bound = true) :
    front.length < (front ++ element :: back).countP (less · bound) := by
  have parts := List.pairwise_append.1 sorted
  have all : front.countP (less · bound) = front.length := by
    rw [List.countP_eq_length]
    intro earlier member
    cases precedes : less earlier bound with
    | true => rfl
    | false =>
      have upper := parts.2.2 earlier member element List.mem_cons_self
      have never := order.not_less_trans upper precedes
      rw [before] at never
      exact absurd never (by decide)
  rw [List.countP_append, List.countP_cons, all, before]
  simp only [if_true]
  omega

/-- In non-decreasing order, only elements in front of an element precede it. -/
theorem NonDecreasing.countP_le_length (order : StrictWeakOrder less)
    (sorted : NonDecreasing less (front ++ element :: back)) :
    (front ++ element :: back).countP (less · element) ≤ front.length := by
  have parts := List.pairwise_append.1 sorted
  have none : (element :: back).countP (less · element) = 0 := by
    rw [List.countP_eq_zero]
    intro later member
    rcases List.mem_cons.1 member with rfl | member
    · simp [order.irreflexive]
    · simp [List.rel_of_pairwise_cons parts.2.1 member]
  rw [List.countP_append, none]
  exact List.countP_le_length

/-- Of two arrangements in non-decreasing order of the same elements, neither has an element that
precedes the one at the same place of the other. -/
theorem NonDecreasing.not_less_of_perm (order : StrictWeakOrder less) {left right : List α}
    (leftSorted : NonDecreasing less left) (rightSorted : NonDecreasing less right)
    (same : left.Perm right) {place : Nat} {first second : α} (here : left[place]? = some first)
    (there : right[place]? = some second) : less first second = false := by
  obtain ⟨leftInside, rfl⟩ := List.getElem?_eq_some_iff.1 here
  obtain ⟨rightInside, rfl⟩ := List.getElem?_eq_some_iff.1 there
  have leftSplit : left.take place ++ left[place] :: left.drop (place + 1) = left := by
    rw [← List.drop_eq_getElem_cons, List.take_append_drop]
  have rightSplit : right.take place ++ right[place] :: right.drop (place + 1) = right := by
    rw [← List.drop_eq_getElem_cons, List.take_append_drop]
  cases before : less left[place] right[place] with
  | false => rfl
  | true =>
    -- More elements precede the second one on the left than can do so on the right.
    have many := NonDecreasing.length_lt_countP order (by rwa [leftSplit]) before
    have few := NonDecreasing.countP_le_length order
      (show NonDecreasing less (right.take place ++ right[place] :: right.drop (place + 1)) by
        rwa [rightSplit])
    rw [leftSplit, same.countP_eq, List.length_take] at many
    rw [rightSplit, List.length_take] at few
    omega

/-- Two arrangements in non-decreasing order of the same elements are tied place by place. -/
theorem NonDecreasing.tied_of_perm (order : StrictWeakOrder less) {left right : List α}
    (leftSorted : NonDecreasing less left) (rightSorted : NonDecreasing less right)
    (same : left.Perm right) {place : Nat} {first second : α} (here : left[place]? = some first)
    (there : right[place]? = some second) : Tied less first second :=
  ⟨leftSorted.not_less_of_perm order rightSorted same here there,
    rightSorted.not_less_of_perm order leftSorted same.symm there here⟩

/-- If distinct elements are never tied, there is one arrangement in non-decreasing order. -/
theorem NonDecreasing.eq_of_perm (decisive : Decisive less) {left right : List α}
    (leftSorted : NonDecreasing less left) (rightSorted : NonDecreasing less right)
    (same : left.Perm right) : left = right := by
  apply List.Perm.eq_of_pairwise _ leftSorted rightSorted same
  intro first second _ _ lower upper
  exact decisive first second ⟨upper, lower⟩

end Uniqueness

namespace Heap

variable [Precedence ρ α]

section Leaving

variable {heap other : Heap α ρ}

/-- Heaps of the same elements give as many of them. -/
theorem length_toSorted_of_perm (same : heap.toList.Perm other.toList) :
    heap.toSorted.length = other.toSorted.length := by
  have leaving := (toSorted_perm heap).length_eq
  have otherLeaving := (toSorted_perm other).length_eq
  have stored := same.length_eq
  omega

/-- Ranked heaps of the same elements under one rule give elements tied place by place. -/
theorem Ranked.tied_toSorted (ranked : heap.Ranked) (otherRanked : other.Ranked)
    (rule : other.rule = heap.rule) (same : heap.toList.Perm other.toList) {place : Nat}
    {first second : α} (here : heap.toSorted[place]? = some first)
    (there : other.toSorted[place]? = some second) : Tied (precedes heap.rule) first second := by
  have leaving : heap.toSorted.Perm other.toSorted :=
    ((toSorted_perm heap).trans same).trans (toSorted_perm other).symm
  have sorted := ranked.nonDecreasing_toSorted
  have otherSorted := otherRanked.nonDecreasing_toSorted
  rw [rule] at otherSorted
  exact sorted.tied_of_perm ranked.order otherSorted leaving here there

/-- If distinct elements are never tied, ranked heaps of the same elements under one rule give the
same sequence. -/
theorem Ranked.toSorted_eq_of_perm (ranked : heap.Ranked) (otherRanked : other.Ranked)
    (rule : other.rule = heap.rule) (same : heap.toList.Perm other.toList)
    (decisive : Decisive (precedes heap.rule)) : other.toSorted = heap.toSorted := by
  have leaving : other.toSorted.Perm heap.toSorted :=
    ((toSorted_perm other).trans same.symm).trans (toSorted_perm heap).symm
  have sorted := ranked.nonDecreasing_toSorted
  have otherSorted := otherRanked.nonDecreasing_toSorted
  rw [rule] at otherSorted
  exact otherSorted.eq_of_perm decisive sorted leaving

end Leaving

/-- What storage becomes when elements are added depends only on storage and rule. -/
theorem storage_pushAll_congr {heap other : Heap α ρ} (storage : heap.storage = other.storage)
    (rule : heap.rule = other.rule) (elements : List α) :
    (heap.pushAll elements).storage = (other.pushAll elements).storage := by
  induction elements generalizing heap other with
  | nil => exact storage
  | cons element elements hypothesis =>
    apply hypothesis
    · obtain ⟨stored, ruled, spare⟩ := heap
      simp only at storage rule
      subst storage rule
      rfl
    · simpa using rule

variable [Footprint α]

/-- The elements were added to the starting heap in order, and gave the other heap. They may have
been added one by one or in batches of any announced size, with room promised and given back in
between; to a heap without elements the first batch may have been added by gathering it anew. -/
inductive Grows (start : Heap α ρ) : List α → Heap α ρ → Prop
  | start : Grows start [] start
  | gather {batch : Batch α} {heap : Heap α ρ} (vacant : start.toList = [])
      (made : Heap.gather start.rule batch = .ok heap) : Grows start batch.elements heap
  | push {added : List α} {heap : Heap α ρ} (grown : Grows start added heap) (element : α) :
      Grows start (added ++ [element]) (heap.push element)
  | extend {added : List α} {heap longer : Heap α ρ} (grown : Grows start added heap)
      {batch : Batch α} (extended : heap.extend batch = .ok longer) :
      Grows start (added ++ batch.elements) longer
  | reserve {added : List α} {heap roomy : Heap α ρ} (grown : Grows start added heap)
      {additional : Nat} (granted : heap.reserve additional = .ok roomy) : Grows start added roomy
  | shrinkToFit {added : List α} {heap : Heap α ρ} (grown : Grows start added heap) :
      Grows start added heap.shrinkToFit

/-- A batch is added element by element. -/
theorem storage_of_extend {heap longer : Heap α ρ} {batch : Batch α}
    (extended : heap.extend batch = .ok longer) :
    longer.rule = heap.rule ∧ longer.storage = (heap.pushAll batch.elements).storage := by
  unfold extend at extended
  cases granted : heap.reserve batch.announced with
  | error failure => simp [granted] at extended
  | ok roomy =>
    obtain ⟨-, rfl⟩ := reserve_eq_ok_iff.1 granted
    simp only [granted, Except.ok.injEq] at extended
    rw [← extended]
    refine ⟨rule_pushAll _ _, ?_⟩
    apply storage_pushAll_congr
    · rfl
    · rfl

namespace Grows

variable {start heap : Heap α ρ} {added : List α}

/-- However elements are added, the result is that of adding them one by one. -/
theorem storage_eq (grown : start.Grows added heap) :
    heap.rule = start.rule ∧ heap.storage = (start.pushAll added).storage := by
  induction grown with
  | start => exact ⟨rfl, rfl⟩
  | gather vacant made =>
    obtain ⟨rule, storage⟩ := storage_of_extend made
    have bare : start.storage = #[] := by simpa [toList] using vacant
    refine ⟨rule, storage.trans ?_⟩
    apply storage_pushAll_congr
    · exact bare.symm
    · rfl
  | push grown element hypothesis =>
    obtain ⟨rule, storage⟩ := hypothesis
    refine ⟨rule, ?_⟩
    rw [pushAll_append]
    exact storage_pushAll_congr storage (rule.trans (rule_pushAll _ _).symm) [element]
  | extend grown extended hypothesis =>
    obtain ⟨rule, storage⟩ := hypothesis
    obtain ⟨ruleAfter, storageAfter⟩ := storage_of_extend extended
    refine ⟨ruleAfter.trans rule, storageAfter.trans ?_⟩
    rw [pushAll_append]
    exact storage_pushAll_congr storage (rule.trans (rule_pushAll _ _).symm) _
  | reserve grown granted hypothesis =>
    obtain ⟨-, rfl⟩ := reserve_eq_ok_iff.1 granted
    exact hypothesis
  | shrinkToFit grown hypothesis => exact hypothesis

/-- A grown heap has its first elements and those that were added. -/
theorem toList_perm (grown : start.Grows added heap) :
    heap.toList.Perm (added ++ start.toList) := by
  have same : heap.toList = (start.pushAll added).toList := by
    unfold toList
    rw [grown.storage_eq.2]
  rw [same]
  exact toList_pushAll_perm start added

/-- A heap grown from an empty one has the elements that were added. -/
theorem toList_perm_of_vacant (grown : start.Grows added heap) (vacant : start.toList = []) :
    heap.toList.Perm added := by
  have stored := grown.toList_perm
  rwa [vacant, List.append_nil] at stored

/-- A heap grown from an empty one is in order if its rule ranks the elements. -/
theorem ranked (grown : start.Grows added heap) (order : StrictWeakOrder (precedes start.rule))
    (vacant : start.toList = []) : heap.Ranked := by
  obtain ⟨rule, storage⟩ := grown.storage_eq
  have ordered := (invariant_ranked.pushAll (.of_vacant order vacant) added).ordered
  unfold IsOrdered at ordered
  rw [rule_pushAll, ← storage, ← rule] at ordered
  exact ⟨by rwa [rule], ordered⟩

end Grows

end Heap

/-- However elements are added to an empty heap under a strict weak order, any number of removals
gives that many of them in non-decreasing order, together with what stays an arrangement of all,
and none of them preceded by one that stays; emptying the heap gives all of them so. A heap to
which the same elements were added in another way, in any order, gives elements tied with these
place by place, and the same ones if distinct elements are never tied. -/
theorem growth_is_sorted [Precedence ρ α] [Footprint α] {start heap : Heap α ρ}
    {added elements : List α} (order : StrictWeakOrder (precedes start.rule))
    (vacant : start.toList = []) (grown : start.Grows added heap) (same : added.Perm elements) :
    (∀ count ≤ elements.length, ∃ popped last,
      heap.run (List.replicate count .pop) =
        (popped.map fun element => .ok (.item (some element)), last) ∧
      popped.length = count ∧
      (popped ++ last.toList).Perm elements ∧
      NonDecreasing (precedes start.rule) popped ∧
      (∀ element ∈ popped, ∀ other ∈ last.toList, precedes start.rule other element = false) ∧
      (count = elements.length → heap.toSorted = popped)) ∧
    ∀ (twin other : Heap α ρ) (rearranged : List α), twin.rule = start.rule → twin.toList = [] →
      twin.Grows rearranged other → rearranged.Perm elements →
      other.toSorted.length = heap.toSorted.length ∧
      (∀ (place : Nat) first second, heap.toSorted[place]? = some first →
        other.toSorted[place]? = some second → Tied (precedes start.rule) first second) ∧
      (Decisive (precedes start.rule) → other.toSorted = heap.toSorted) := by
  have rule : heap.rule = start.rule := grown.storage_eq.1
  have ranked : heap.Ranked := grown.ranked order vacant
  have stored : heap.toList.Perm elements := (grown.toList_perm_of_vacant vacant).trans same
  have sized : heap.size = elements.length := by
    rw [← Heap.length_toList, stored.length_eq]
  rw [← rule]
  constructor
  · intro count enough
    rw [← sized] at enough
    obtain ⟨popped, last, row, counted⟩ := Heap.exists_pops enough
    have answers := row.run
    rw [counted] at answers
    refine ⟨popped, last, answers, counted, row.perm.trans stored, row.nonDecreasing ranked,
      row.not_less_remaining ranked, ?_⟩
    intro complete
    apply row.toSorted_of_length
    rw [counted, complete, sized]
  · intro twin other rearranged twinRule twinVacant twinGrown twinSame
    have alike : other.rule = heap.rule := twinGrown.storage_eq.1.trans twinRule
    have twinOrder : StrictWeakOrder (precedes twin.rule) := by
      rwa [twinRule, rule]
    have otherRanked : other.Ranked := twinGrown.ranked twinOrder twinVacant
    have otherStored : other.toList.Perm elements :=
      (twinGrown.toList_perm_of_vacant twinVacant).trans twinSame
    have together : heap.toList.Perm other.toList := stored.trans otherStored.symm
    refine ⟨(Heap.length_toSorted_of_perm together).symm, ?_, ?_⟩
    · intro place first second here there
      exact ranked.tied_toSorted otherRanked alike together here there
    · intro decisive
      exact ranked.toSorted_eq_of_perm otherRanked alike together decisive

/-- Three integers, the first two of which came as a batch, are sorted. -/
theorem growth_of_integers_is_sorted :
    let start : Heap Int (Natural Int) := .empty ⟨⟩
    ∃ heap, start.Grows [3, 1, 2] heap ∧ StrictWeakOrder (precedes start.rule) ∧
      start.toList = [] ∧ heap.toSorted = [1, 2, 3] := by
  intro start
  have order : StrictWeakOrder (precedes start.rule) := strictWeakOrder_int
  have vacant : start.toList = [] := rfl
  have made : Heap.gather start.rule (.ofList [3, 1]) = .ok (start.pushAll [3, 1]) := rfl
  have grown := Heap.Grows.push (.gather vacant made) 2
  have same : ([3, 1, 2] : List Int).Perm [1, 2, 3] := by decide
  have sorted := growth_is_sorted order vacant grown same
  obtain ⟨popped, last, -, counted, stored, ascending, -, complete⟩ := sorted.1 3 (Nat.le_refl 3)
  refine ⟨_, grown, order, vacant, ?_⟩
  have lengths := stored.length_eq
  rw [List.length_append, counted] at lengths
  have left : last.toList = [] := List.length_eq_zero_iff.1 (by simpa using lengths)
  rw [left, List.append_nil] at stored
  rw [complete rfl]
  exact ascending.eq_of_perm decisive_int (by unfold NonDecreasing; decide) stored

end PriorityQueue
