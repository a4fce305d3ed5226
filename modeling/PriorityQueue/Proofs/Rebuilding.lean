import PriorityQueue.Proofs.Sorting
import PriorityQueue.Proofs.WorkspaceOrder

/-!
# Rebuilding a heap from its storage

Adding the elements of a sequence to an empty heap one after the other leaves them where they are
in the sequence exactly if no element precedes its parent. That nothing moves in a sequence in order
is clear. That a sequence out of order does not come back by a detour follows from a quantity that
only falls: read from the front, storage is never above the sequence added so far, and it falls
below for good with the first element that is lifted.
-/

namespace PriorityQueue

universe u v

variable {α : Type u} {ρ : Type v} {n : Nat} {less : α → α → Bool}

/-- Two lists differ, and at the first place where they do the lower one has an element that
precedes that of the upper one. Other than in the dictionary order a list is not below a longer one
that it begins, so the relation is kept when both lists grow. -/
def Undercuts (less : α → α → Bool) (lower upper : List α) : Prop :=
  ∃ (place : Nat) (first second : α), lower[place]? = some first ∧ upper[place]? = some second ∧
    less first second = true ∧ ∀ earlier < place, lower[earlier]? = upper[earlier]?

namespace Undercuts

variable {lower middle upper : List α}

/-- No list is below itself. -/
theorem ne (below : Undercuts less lower upper)
    (irreflexive : ∀ element, less element element = false) : lower ≠ upper := by
  rintro rfl
  obtain ⟨place, first, second, here, there, before, -⟩ := below
  rw [here, Option.some.injEq] at there
  subst there
  rw [irreflexive first] at before
  exact absurd before (by decide)

/-- What is below a list that is below another is below the other. -/
theorem trans (order : StrictPartialOrder less) (below : Undercuts less lower middle)
    (above : Undercuts less middle upper) : Undercuts less lower upper := by
  obtain ⟨place, first, second, here, there, before, same⟩ := below
  obtain ⟨place', first', second', here', there', before', same'⟩ := above
  -- The first difference of the outer two is the first of either pair.
  rcases Nat.lt_trichotomy place place' with sooner | rfl | later
  · refine ⟨place, first, second, here, ?_, before, ?_⟩
    · rw [← same' place sooner, there]
    · intro earlier sooner'
      rw [same earlier sooner', same' earlier (by omega)]
  · rw [there, Option.some.injEq] at here'
    subst here'
    refine ⟨place, first, second', here, there', ?_, ?_⟩
    · exact order.transitive first second second' before before'
    · intro earlier sooner
      rw [same earlier sooner, same' earlier sooner]
  · refine ⟨place', first', second', ?_, there', before', ?_⟩
    · rw [same place' later, here']
    · intro earlier sooner
      rw [same earlier (by omega), same' earlier sooner]

/-- Both lists may grow. -/
theorem append (below : Undercuts less lower upper) (elements others : List α) :
    Undercuts less (lower ++ elements) (upper ++ others) := by
  obtain ⟨place, first, second, here, there, before, same⟩ := below
  have inside : place < lower.length := (List.getElem?_eq_some_iff.1 here).1
  have within : place < upper.length := (List.getElem?_eq_some_iff.1 there).1
  refine ⟨place, first, second, ?_, ?_, before, ?_⟩
  · rw [List.getElem?_append_left inside, here]
  · rw [List.getElem?_append_left within, there]
  · intro earlier sooner
    rw [List.getElem?_append_left (by omega), List.getElem?_append_left (by omega),
      same earlier sooner]

end Undercuts

/-- Lifting an element past its parent brings storage below what it was. -/
theorem undercuts_swap {storage : Vector α n} {position : Nat} (inside : position < n)
    (above : parent position < n) (below : 0 < position)
    (climbs : less storage[position] storage[parent position] = true) :
    Undercuts less (storage.swap position (parent position)).toList storage.toList := by
  have higher : parent position < position := parent_lt below
  refine ⟨parent position, storage[position], storage[parent position], ?_, ?_, climbs, ?_⟩
  · simp [above]
  · simp [above]
  · intro earlier sooner
    have within : earlier < n := by omega
    simp only [Vector.getElem?_toList, Vector.getElem?_eq_getElem, within, Option.some.injEq]
    exact Vector.getElem_swap_of_ne (by omega) (by omega)

/-- An element that is to be lifted either does not precede its parent and stays, or brings storage
below what it was. -/
theorem siftUp_stays_or_undercuts (order : StrictPartialOrder less) (storage : Vector α n)
    (position : Nat) (inside : position < n) :
    (siftUp less storage position inside = storage ∧
      ∀ above : parent position < n, 0 < position →
        less storage[position] storage[parent position] = false) ∨
    Undercuts less (siftUp less storage position inside).toList storage.toList := by
  fun_induction siftUp less storage position inside with
  | case1 storage position inside below above climbs hypothesis =>
    have falls := undercuts_swap inside above below climbs
    rcases hypothesis with ⟨stays, -⟩ | further
    · rw [stays]
      exact .inr falls
    · exact .inr (further.trans order falls)
  | case2 storage position inside below above stays =>
    exact .inl ⟨rfl, fun _ _ => by simpa using stays⟩
  | case3 storage position inside root =>
    exact .inl ⟨rfl, fun _ below => absurd below root⟩

/-- Storage in order stays so with an element behind it that does not precede its parent. -/
theorem HeapOrdered.push_of_orderedAt {storage : Array α} {element : α}
    (ordered : HeapOrdered less storage)
    (last : 0 < storage.size → OrderedAt less (storage.push element) storage.size) :
    HeapOrdered less (storage.push element) := by
  intro place below child above here there
  by_cases end_ : place = storage.size
  · subst end_
    exact last below child above here there
  · have higher : parent place < place := parent_lt below
    have inside : place < (storage.push element).size := (Array.getElem?_eq_some_iff.1 here).1
    rw [Array.size_push] at inside
    rw [Array.getElem?_push, if_neg (by omega)] at here there
    exact ordered place below child above here there

/-- Heap order of a list in terms of its places. -/
theorem heapOrdered_toArray_iff {elements : List α} :
    HeapOrdered less elements.toArray ↔
      ∀ child (inside : child < elements.length), 0 < child →
        less elements[child] elements[(child - 1) / 2] = false := by
  rw [heapOrdered_iff_children]
  constructor
  · intro ordered child inside below
    exact ordered child (by simpa using inside) below
  · intro ordered child inside below
    exact ordered child (by simpa using inside) below

/-- A list in non-decreasing order is in heap order. -/
theorem NonDecreasing.heapOrdered {elements : List α} (sorted : NonDecreasing less elements) :
    HeapOrdered less elements.toArray := by
  rw [heapOrdered_toArray_iff]
  intro child inside below
  have higher : parent child < child := parent_lt below
  have earlier : parent child < elements.length := by omega
  exact List.pairwise_iff_getElem.1 sorted (parent child) child earlier inside higher

namespace Heap

variable [Precedence ρ α]

/-- An element that is added either stays at the end, where it does not precede its parent, or
brings storage below that with the element at the end. -/
theorem push_stays_or_undercuts {heap : Heap α ρ}
    (order : StrictPartialOrder (precedes heap.rule)) (element : α) :
    ((heap.push element).storage = heap.storage.push element ∧
      (0 < heap.storage.size →
        OrderedAt (precedes heap.rule) (heap.storage.push element) heap.storage.size)) ∨
    Undercuts (precedes heap.rule) (heap.push element).toList (heap.toList ++ [element]) := by
  have inside : heap.storage.size < (heap.storage.push element).size := by simp
  rcases siftUp_stays_or_undercuts order (heap.storage.push element).toVector heap.storage.size
    inside with ⟨stays, last⟩ | falls
  · refine .inl ⟨congrArg Vector.toArray stays, ?_⟩
    intro below child above here there
    obtain ⟨within, rfl⟩ := Array.getElem?_eq_some_iff.1 here
    obtain ⟨upper, rfl⟩ := Array.getElem?_eq_some_iff.1 there
    exact last upper below
  · refine .inr ?_
    have appended : (heap.storage.push element).toList = heap.toList ++ [element] :=
      Array.toList_push
    rw [← appended]
    exact falls

/-- Elements that are added either all stay behind one another, or bring storage below that with
the elements behind one another. -/
theorem pushAll_eq_or_undercuts {heap : Heap α ρ}
    (order : StrictPartialOrder (precedes heap.rule)) (elements : List α) :
    (heap.pushAll elements).toList = heap.toList ++ elements ∨
      Undercuts (precedes heap.rule) (heap.pushAll elements).toList
        (heap.toList ++ elements) := by
  induction elements generalizing heap with
  | nil => exact .inl (List.append_nil _).symm
  | cons element elements hypothesis =>
    have regroup : heap.toList ++ element :: elements =
        heap.toList ++ [element] ++ elements := by simp
    have still : StrictPartialOrder (precedes (heap.push element).rule) := order
    have later := hypothesis still
    rw [pushAll_cons, regroup]
    rcases push_stays_or_undercuts order element with ⟨stays, -⟩ | falls
    · have grown : (heap.push element).toList = heap.toList ++ [element] := by
        simp [toList, stays]
      rw [grown] at later
      exact later
    · have fallen := falls.append elements elements
      rcases later with same | further
      · rw [same]
        exact .inr fallen
      · exact .inr (further.trans order fallen)

/-- If the elements that are added to storage in order all stay, the longer storage is in order. -/
theorem heapOrdered_of_toList_pushAll {heap : Heap α ρ}
    (order : StrictPartialOrder (precedes heap.rule)) {elements : List α}
    (ordered : HeapOrdered (precedes heap.rule) heap.storage)
    (same : (heap.pushAll elements).toList = heap.toList ++ elements) :
    HeapOrdered (precedes heap.rule) (heap.pushAll elements).storage := by
  induction elements generalizing heap with
  | nil => exact ordered
  | cons element elements hypothesis =>
    have regroup : heap.toList ++ element :: elements =
        heap.toList ++ [element] ++ elements := by simp
    have still : StrictPartialOrder (precedes (heap.push element).rule) := order
    rw [pushAll_cons, regroup] at same
    rcases push_stays_or_undercuts order element with ⟨stays, last⟩ | falls
    · have grown : (heap.push element).toList = heap.toList ++ [element] := by
        simp [toList, stays]
      have longer : HeapOrdered (precedes heap.rule) (heap.push element).storage := by
        rw [stays]
        exact ordered.push_of_orderedAt last
      exact hypothesis still longer (by rw [same, grown])
    · -- Storage fell below the sequence, and falls only further.
      have fallen := falls.append elements elements
      rcases pushAll_eq_or_undercuts still elements with rest | further
      · rw [← rest] at fallen
        exact absurd same (fallen.ne order.irreflexive)
      · exact absurd same ((further.trans order fallen).ne order.irreflexive)

/-- Elements that are added stay where they are if none of them precedes its parent. -/
theorem toList_pushAll_of_heapOrdered {heap : Heap α ρ} {elements : List α}
    (ordered : HeapOrdered (precedes heap.rule) (heap.toList ++ elements).toArray) :
    (heap.pushAll elements).toList = heap.toList ++ elements := by
  induction elements generalizing heap with
  | nil => exact (List.append_nil _).symm
  | cons element elements hypothesis =>
    have stays : (heap.push element).storage = heap.storage.push element := by
      apply storage_push_of_stays
      intro above there
      have inside : parent heap.storage.size < heap.storage.size :=
        (Array.getElem?_eq_some_iff.1 there).1
      apply ordered heap.storage.size (by omega)
      · simp [toList]
      · rw [List.getElem?_toArray, toList, List.getElem?_append_left inside, Array.getElem?_toList]
        exact there
    have grown : (heap.push element).toList = heap.toList ++ [element] := by
      simp [toList, stays]
    have regroup : heap.toList ++ element :: elements =
        (heap.push element).toList ++ elements := by simp [grown]
    rw [regroup] at ordered ⊢
    exact hypothesis ordered

/-- Adding a sequence to a heap without elements leaves it as it is exactly if it is in order. -/
theorem toList_pushAll_eq_iff {start : Heap α ρ}
    (order : StrictPartialOrder (precedes start.rule)) (vacant : start.toList = [])
    (elements : List α) : (start.pushAll elements).toList = elements ↔
      HeapOrdered (precedes start.rule) elements.toArray := by
  constructor
  · intro same
    have bare : start.storage = #[] := by simpa [toList] using vacant
    have ordered : HeapOrdered (precedes start.rule) start.storage := by
      rw [bare]
      exact heapOrdered_empty _
    have behind : (start.pushAll elements).toList = start.toList ++ elements := by
      rw [same, vacant, List.nil_append]
    have kept := heapOrdered_of_toList_pushAll order ordered behind
    rwa [← same]
  · intro ordered
    have behind : HeapOrdered (precedes start.rule) (start.toList ++ elements).toArray := by
      rwa [vacant, List.nil_append]
    rw [toList_pushAll_of_heapOrdered behind, vacant, List.nil_append]

variable [Footprint α]

/-- A batch that announces no more than storage can have is added to a heap without elements, one
element after the other. -/
theorem exists_extend_of_vacant {start : Heap α ρ} (vacant : start.toList = []) (batch : Batch α)
    (fits : batch.announced ≤ capacityLimit α) :
    ∃ heap, start.extend batch = .ok heap ∧ heap.rule = start.rule ∧
      heap.toList = (start.pushAll batch.elements).toList := by
  have none : start.size = 0 := by rw [← length_toList, vacant, List.length_nil]
  cases added : start.extend batch with
  | error failure => simp [extend, reserve, none, fits] at added
  | ok heap =>
    obtain ⟨rule, storage⟩ := storage_of_extend added
    exact ⟨heap, rfl, rule, congrArg Array.toList storage⟩

/-- A batch of the elements, announced in any way that storage can have room for, is added to the
heap and gives them as they are. -/
def StoresVerbatim (start : Heap α ρ) (elements : List α) : Prop :=
  ∀ announced ≤ capacityLimit α, ∃ heap, start.extend ⟨elements, announced⟩ = .ok heap ∧
    heap.toList = elements

/-- A heap without elements stores exactly the sequences in heap order as they are. -/
theorem storesVerbatim_iff {start : Heap α ρ} (order : StrictPartialOrder (precedes start.rule))
    (vacant : start.toList = []) (elements : List α) :
    start.StoresVerbatim elements ↔ HeapOrdered (precedes start.rule) elements.toArray := by
  rw [← toList_pushAll_eq_iff order vacant]
  constructor
  · intro verbatim
    obtain ⟨heap, added, same⟩ := verbatim 0 (Nat.zero_le _)
    obtain ⟨-, storage⟩ := storage_of_extend added
    have stored : heap.toList = (start.pushAll elements).toList := congrArg Array.toList storage
    rw [← stored, same]
  · intro same announced fits
    obtain ⟨heap, added, -, stored⟩ := exists_extend_of_vacant vacant ⟨elements, announced⟩ fits
    exact ⟨heap, added, stored.trans same⟩

/-- A heap that a slot holds in some state of a run of commands. -/
def Reachable (heap : Heap α ρ) : Prop :=
  ∃ commands, ∃ state ∈ (Workspace.empty : Workspace α ρ).run commands,
    ∃ slot, state.2.get? slot = some heap

/-- Whatever other rules its workspace has seen, a heap that can be reached is in order if its own
rule ranks the elements. -/
theorem Reachable.ranked {heap : Heap α ρ} (reachable : heap.Reachable)
    (order : StrictWeakOrder (precedes heap.rule)) : heap.Ranked := by
  have invariant : Invariant fun heap : Heap α ρ =>
      StrictWeakOrder (precedes heap.rule) → heap.Ranked := by
    constructor
    · intro heap element ranked order
      exact invariant_ranked.push heap element (ranked order)
    · intro heap element rest ranked popped order
      rw [rule_of_pop? popped] at order
      exact invariant_ranked.pop heap element rest (ranked order) popped
    · intro heap ranked order
      exact invariant_ranked.clear heap (ranked order)
    · intro heap spare ranked order
      exact invariant_ranked.room heap spare (ranked order)
  obtain ⟨commands, state, member, slot, found⟩ := reachable
  have all := (Workspace.all_empty _).run invariant commands
    (fun _ _ rule _ order => .of_vacant order rfl) state member
  exact all slot heap found order

/-- Every sequence that is stored verbatim is the storage of a heap that can be reached. -/
theorem StoresVerbatim.exists_reachable {rule : ρ} {elements : List α}
    (verbatim : (Heap.empty rule : Heap α ρ).StoresVerbatim elements) :
    ∃ heap : Heap α ρ, heap.Reachable ∧ heap.rule = rule ∧ heap.toList = elements := by
  obtain ⟨heap, added, same⟩ := verbatim 0 (Nat.zero_le _)
  have made : Heap.gather rule ⟨elements, 0⟩ = .ok heap := added
  refine ⟨heap, ⟨[.gather 0 rule ⟨elements, 0⟩], _, List.mem_singleton_self _, 0, ?_⟩,
    (storage_of_extend added).1, same⟩
  simp [Workspace.step, Workspace.perform, made, Workspace.get?_put]

end Heap

/-- Adding a sequence to an empty heap under a strict partial order gives storage that is exactly
the sequence if and only if none of its elements precedes its parent. Under a strict weak order
therefore the storage of every heap that can be reached gives itself, a sequence in non-decreasing
order or of tied elements is stored as it is, and the sequences in heap order are the storages that
can be reached. -/
theorem extend_rebuilds_iff_heap_ordered [Precedence ρ α] [Footprint α] {start : Heap α ρ}
    (vacant : start.toList = []) (order : StrictPartialOrder (precedes start.rule)) :
    (∀ batch : Batch α, batch.announced ≤ capacityLimit α →
      ∃ heap, start.extend batch = .ok heap ∧
        (heap.toList = batch.elements ↔
          ∀ child (inside : child < batch.elements.length), 0 < child →
            precedes start.rule batch.elements[child] batch.elements[(child - 1) / 2] = false)) ∧
    (StrictWeakOrder (precedes start.rule) →
      (∀ heap : Heap α ρ, heap.Reachable → heap.rule = start.rule →
        start.StoresVerbatim heap.toList) ∧
      (∀ elements, NonDecreasing (precedes start.rule) elements →
        start.StoresVerbatim elements) ∧
      (∀ elements, elements.Pairwise (Tied (precedes start.rule)) →
        start.StoresVerbatim elements) ∧
      ∀ elements : List α,
        (∃ heap : Heap α ρ, heap.Reachable ∧ heap.rule = start.rule ∧ heap.toList = elements) ↔
          ∀ child (inside : child < elements.length), 0 < child →
            precedes start.rule elements[child] elements[(child - 1) / 2] = false) := by
  refine ⟨?_, ?_⟩
  · intro batch fits
    obtain ⟨heap, added, -, stored⟩ := Heap.exists_extend_of_vacant vacant batch fits
    refine ⟨heap, added, ?_⟩
    rw [stored, Heap.toList_pushAll_eq_iff order vacant, heapOrdered_toArray_iff]
  · intro weak
    have kept : ∀ heap : Heap α ρ, heap.Reachable → heap.rule = start.rule →
        HeapOrdered (precedes start.rule) heap.toList.toArray := by
      intro heap reachable rule
      rw [← rule] at weak ⊢
      exact (reachable.ranked weak).ordered
    refine ⟨?_, ?_, ?_, ?_⟩
    · intro heap reachable rule
      exact (Heap.storesVerbatim_iff order vacant _).2 (kept heap reachable rule)
    · intro elements sorted
      exact (Heap.storesVerbatim_iff order vacant elements).2 sorted.heapOrdered
    · intro elements tied
      have sorted : NonDecreasing (precedes start.rule) elements := tied.imp fun pair => pair.2
      exact (Heap.storesVerbatim_iff order vacant elements).2 sorted.heapOrdered
    · intro elements
      rw [← heapOrdered_toArray_iff]
      constructor
      · rintro ⟨heap, reachable, rule, rfl⟩
        exact kept heap reachable rule
      · intro ordered
        have verbatim : (Heap.empty start.rule : Heap α ρ).StoresVerbatim elements := by
          apply (Heap.storesVerbatim_iff _ rfl elements).2
          · exact ordered
          · exact order
        exact verbatim.exists_reachable

/-- Under divisibility, which ranks nothing, a sequence in which no number divides the one at its
parent is stored as it is, and one in which seven stands below thirty-five is not. Under the natural
order of the integers a sequence in order is. -/
theorem extend_rebuilds_numbers :
    let start : Heap Nat (Nat → Nat → Bool) := .empty divisorFirst
    let upward : Heap Int (Natural Int) := .empty ⟨⟩
    start.toList = [] ∧ StrictPartialOrder (precedes start.rule) ∧
      (∃ heap, start.extend (.ofList [6, 35, 11, 12, 10]) = .ok heap ∧
        heap.toList = [6, 35, 11, 12, 10]) ∧
      (∃ heap, start.extend (.ofList [35, 6, 7]) = .ok heap ∧ heap.toList ≠ [35, 6, 7]) ∧
      upward.StoresVerbatim [1, 2, 2, 5] := by
  intro start upward
  have vacant : start.toList = [] := rfl
  have order : StrictPartialOrder (precedes start.rule) := strictPartialOrder_divisorFirst
  have weak : StrictWeakOrder (precedes upward.rule) := strictWeakOrder_int
  have rebuilds := (extend_rebuilds_iff_heap_ordered vacant order).1
  obtain ⟨heap, added, same⟩ := rebuilds (.ofList [6, 35, 11, 12, 10]) (by decide)
  obtain ⟨other, gathered, moved⟩ := rebuilds (.ofList [35, 6, 7]) (by decide)
  refine ⟨vacant, order, ⟨heap, added, same.2 (by decide)⟩, ⟨other, gathered, ?_⟩, ?_⟩
  · intro verbatim
    exact absurd (moved.1 verbatim) (by decide)
  · have bare : upward.toList = [] := rfl
    have stores := (extend_rebuilds_iff_heap_ordered bare weak.toStrictPartialOrder).2 weak
    exact stores.2.1 [1, 2, 2, 5] (by unfold NonDecreasing; decide)

end PriorityQueue
