import Mathlib.Data.List.Forall2
import PriorityQueue.Cursor.Lemmas
import PriorityQueue.Heap.Lemmas

/-!
# Storage that corresponds place by place

Two heaps correspond when related elements stand at the same places and the two rules answer alike
about related pairs. Nothing else of the elements decides what a heap does: the loops that sift
compare the same places with the same answers and make the same swaps, so that corresponding heaps
stay so, give related elements, and show corresponding windows to cursors.
-/

namespace PriorityQueue

universe u v w x

variable {α : Type u} {β : Type v} {n m : Nat} {related : α → β → Prop}
  {less : α → α → Bool} {less' : β → β → Bool}

/-- Two rules answer alike about related pairs. -/
def RulesAgree (related : α → β → Prop) (less : α → α → Bool) (less' : β → β → Bool) : Prop :=
  ∀ left right left' right', related left left' → related right right' →
    less left right = less' left' right'

/-- Related elements stand at the same places. -/
structure Aligned (related : α → β → Prop) (storage : Array α) (storage' : Array β) : Prop where
  /-- There are as many places. -/
  size : storage.size = storage'.size
  /-- The elements at one place are related. -/
  place : ∀ place (inside : place < storage.size) (inside' : place < storage'.size),
    related storage[place] storage'[place]

/-- Aligned storage is a list of related pairs. -/
theorem aligned_iff_forall₂ {storage : Array α} {storage' : Array β} :
    Aligned related storage storage' ↔ List.Forall₂ related storage.toList storage'.toList := by
  rw [List.forall₂_iff_get]
  constructor
  · intro aligned
    exact ⟨by simpa using aligned.size, fun place inside inside' => by
      simpa using aligned.place place (by simpa using inside) (by simpa using inside')⟩
  · rintro ⟨size, place⟩
    exact ⟨by simpa using size, fun spot inside inside' => by
      simpa using place spot (by simpa using inside) (by simpa using inside')⟩

namespace Aligned

/-- Related elements may be put behind aligned storage. -/
theorem push {storage : Array α} {storage' : Array β} (aligned : Aligned related storage storage')
    {element : α} {element' : β} (pair : related element element') :
    Aligned related (storage.push element) (storage'.push element') := by
  have size := aligned.size
  refine ⟨by simp [size], ?_⟩
  intro place inside inside'
  rw [Array.getElem_push, Array.getElem_push]
  by_cases within : place < storage.size
  · simpa only [dif_pos within, dif_pos (size ▸ within)] using aligned.place place within _
  · simpa only [dif_neg within, dif_neg (size ▸ within)] using pair

/-- The last places may be dropped. -/
theorem pop {storage : Array α} {storage' : Array β} (aligned : Aligned related storage storage') :
    Aligned related storage.pop storage'.pop := by
  refine ⟨by simp [aligned.size], ?_⟩
  intro place inside inside'
  rw [Array.getElem_pop, Array.getElem_pop]
  exact aligned.place place _ _

/-- Elements may change places on both sides. -/
theorem swap {storage : Array α} {storage' : Array β} (aligned : Aligned related storage storage')
    {left right left' right' : Nat} (sameLeft : left = left') (sameRight : right = right')
    (leftInside : left < storage.size) (rightInside : right < storage.size)
    (leftInside' : left' < storage'.size) (rightInside' : right' < storage'.size) :
    Aligned related (storage.swap left right leftInside rightInside)
      (storage'.swap left' right' leftInside' rightInside') := by
  subst sameLeft sameRight
  refine ⟨by simp [aligned.size], ?_⟩
  intro place inside inside'
  rw [Array.getElem_swap, Array.getElem_swap]
  split
  · exact aligned.place _ _ _
  · split
    · exact aligned.place _ _ _
    · exact aligned.place _ _ _

/-- Elements of aligned vectors at one place are related. -/
theorem related_at {storage : Vector α n} {storage' : Vector β n}
    (aligned : Aligned related storage.toArray storage'.toArray) (place : Nat)
    (inside : place < n) : related storage[place] storage'[place] :=
  aligned.place place (by simpa using inside) (by simpa using inside)

/-- Elements of aligned vectors may change places on both sides. -/
theorem swapVector {storage : Vector α n} {storage' : Vector β n}
    (aligned : Aligned related storage.toArray storage'.toArray) {left right : Nat}
    (leftInside : left < n) (rightInside : right < n) :
    Aligned related (storage.swap left right leftInside rightInside).toArray
      (storage'.swap left right leftInside rightInside).toArray := by
  rw [Vector.toArray_swap, Vector.toArray_swap]
  exact aligned.swap rfl rfl _ _ _ _

/-- Lifting the elements at one place keeps storage aligned. -/
theorem siftUp (agree : RulesAgree related less less') {storage : Vector α n}
    {storage' : Vector β m} (lengths : n = m) {position position' : Nat}
    (positions : position = position') (inside : position < n) (inside' : position' < m)
    (aligned : Aligned related storage.toArray storage'.toArray) :
    Aligned related (siftUp less storage position inside).toArray
      (siftUp less' storage' position' inside').toArray := by
  subst lengths positions
  -- A swap changes the storage on both sides, so the second one varies in the induction too.
  revert storage'
  fun_induction PriorityQueue.siftUp less storage position inside with
  | case1 storage position inside below above climbs hypothesis =>
    intro storage' aligned
    rw [agree _ _ _ _ (aligned.related_at position inside)
      (aligned.related_at (parent position) above)] at climbs
    rw [siftUp_of_less inside above below climbs]
    exact hypothesis above (aligned.swapVector inside above)
  | case2 storage position inside below above stays =>
    intro storage' aligned
    rw [agree _ _ _ _ (aligned.related_at position inside)
      (aligned.related_at (parent position) above)] at stays
    rw [siftUp_of_not_less inside above (by simpa using stays)]
    exact aligned
  | case3 storage position inside root =>
    intro storage' aligned
    obtain rfl : position = 0 := Nat.eq_zero_of_not_pos root
    rw [siftUp_root]
    exact aligned

/-- Aligned storage has the same winner against the left child. -/
theorem leftWinner_eq (agree : RulesAgree related less less') {storage : Vector α n}
    {storage' : Vector β n} (aligned : Aligned related storage.toArray storage'.toArray)
    (position : Fin n) : leftWinner less storage position = leftWinner less' storage' position := by
  unfold leftWinner
  split
  case isTrue inside =>
    have same := agree _ _ _ _ (aligned.related_at (leftChild position) inside)
      (aligned.related_at position position.isLt)
    simp only [Fin.getElem_fin, same]
  case isFalse => rfl

/-- Aligned storage has the same winner among a position and its children. -/
theorem winner_eq (agree : RulesAgree related less less') {storage : Vector α n}
    {storage' : Vector β n} (aligned : Aligned related storage.toArray storage'.toArray)
    (position : Fin n) : winner less storage position = winner less' storage' position := by
  have best := aligned.leftWinner_eq agree position
  unfold winner
  by_cases inside : rightChild position < n
  · have same := agree _ _ _ _ (aligned.related_at (rightChild position) inside)
      (aligned.related_at (leftWinner less' storage' position) (Fin.isLt _))
    simp only [dif_pos inside, Fin.getElem_fin, best, same]
  · simp only [dif_neg inside, best]

/-- Lowering the elements at one place keeps storage aligned. -/
theorem siftDown (agree : RulesAgree related less less') {storage : Vector α n}
    {storage' : Vector β m} (lengths : n = m) {position : Fin n} {position' : Fin m}
    (positions : position.val = position'.val)
    (aligned : Aligned related storage.toArray storage'.toArray) :
    Aligned related (siftDown less storage position).toArray
      (siftDown less' storage' position').toArray := by
  subst lengths
  obtain rfl : position' = position := Fin.ext positions.symm
  -- As in lifting, every storage aligned with the first one is followed.
  suffices general : ∀ other : Vector β n, Aligned related storage.toArray other.toArray →
      Aligned related (PriorityQueue.siftDown less storage position').toArray
        (PriorityQueue.siftDown less' other position').toArray from general storage' aligned
  clear aligned positions storage'
  fun_induction PriorityQueue.siftDown less storage position' with
  | case1 storage position best settled =>
    intro storage' aligned
    have same := aligned.winner_eq agree position
    rw [siftDown_of_settled (same.symm.trans settled)]
    exact aligned
  | case2 storage position best moved hypothesis =>
    intro storage' aligned
    have same := aligned.winner_eq agree position
    have moved' : winner less' storage' position ≠ position := by
      rw [← same]
      exact moved
    rw [siftDown_of_moved moved']
    simp only [← same]
    exact hypothesis _ (aligned.swapVector position.isLt best.isLt)

/-- Settling the root of aligned storage keeps it aligned. -/
theorem settleRoot (agree : RulesAgree related less less') {storage : Array α}
    {storage' : Array β} (aligned : Aligned related storage storage') :
    Aligned related (Heap.settleRoot less storage) (Heap.settleRoot less' storage') := by
  have size := aligned.size
  unfold Heap.settleRoot
  by_cases nonempty : 0 < storage.size
  · rw [dif_pos nonempty, dif_pos (size ▸ nonempty)]
    exact aligned.siftDown agree size rfl
  · rw [dif_neg nonempty, dif_neg (size ▸ nonempty)]
    exact aligned

/-- Aligned storage has related elements at a place, or none on either side. -/
theorem getElem? {storage : Array α} {storage' : Array β}
    (aligned : Aligned related storage storage') (place : Nat) :
    Option.Rel related storage[place]? storage'[place]? := by
  have size := aligned.size
  by_cases inside : place < storage.size
  · rw [Array.getElem?_eq_getElem inside, Array.getElem?_eq_getElem (size ▸ inside)]
    exact .some (aligned.place place _ _)
  · rw [Array.getElem?_eq_none (by omega), Array.getElem?_eq_none (by omega)]
    exact .none

end Aligned

/-- Related lists begin with related elements, or are both empty. -/
theorem forall₂_head? {elements : List α} {elements' : List β}
    (pairs : List.Forall₂ related elements elements') :
    Option.Rel related elements.head? elements'.head? := by
  cases pairs with
  | nil => exact .none
  | cons pair pairs => exact .some pair

/-- Related lists end with related elements, or are both empty. -/
theorem forall₂_getLast? {elements : List α} {elements' : List β}
    (pairs : List.Forall₂ related elements elements') :
    Option.Rel related elements.getLast? elements'.getLast? := by
  rw [← List.head?_reverse, ← List.head?_reverse]
  exact forall₂_head? (List.forall₂_reverse_iff.2 pairs)

namespace Cursor

/-- Two reports of one kind with related elements in the same places. -/
inductive Report.Alike (related : α → β → Prop) : Report α → Report β → Prop
  | item {element : Option α} {element' : Option β} (pair : Option.Rel related element element') :
      Alike related (.item element) (.item element')
  | items {elements : List α} {elements' : List β}
      (pairs : List.Forall₂ related elements elements') :
      Alike related (.items elements) (.items elements')
  | count (number : Nat) : Alike related (.count number) (.count number)
  | bounds (lower upper : Nat) : Alike related (.bounds lower upper) (.bounds lower upper)
  | window (layout : Layout) {elements : List α} {elements' : List β}
      (pairs : List.Forall₂ related elements elements') :
      Alike related (.window layout elements) (.window layout elements')
  | fork {element : Option α} {element' : Option β} {rest : List α} {rest' : List β}
      (pair : Option.Rel related element element') (pairs : List.Forall₂ related rest rest') :
      Alike related (.fork element rest) (.fork element' rest')
  | consumed : Alike related .consumed .consumed

/-- Two cursors with related elements in their windows. -/
def Alike (related : α → β → Prop) (cursor : Cursor α) (other : Cursor β) : Prop :=
  List.Forall₂ related cursor.remaining other.remaining

namespace Alike

variable {cursor : Cursor α} {other : Cursor β}

/-- Alike cursors have windows of one size. -/
theorem size_eq (alike : Alike related cursor other) : cursor.size = other.size := by
  rw [← length_remaining, ← length_remaining]
  exact List.Forall₂.length_eq alike

/-- Alike cursors have related elements at the front. -/
theorem first? (alike : Alike related cursor other) :
    Option.Rel related cursor.first? other.first? := by
  rw [first?_eq_head?, first?_eq_head?]
  exact forall₂_head? alike

/-- Alike cursors have related elements at the back. -/
theorem last? (alike : Alike related cursor other) :
    Option.Rel related cursor.last? other.last? := by
  rw [last?_eq_getLast?, last?_eq_getLast?]
  exact forall₂_getLast? alike

/-- Cursors stay alike when as many elements are skipped at the front. -/
theorem skip (alike : Alike related cursor other) (number : Nat) :
    Alike related (cursor.skip number) (other.skip number) := by
  rw [Alike, remaining_skip, remaining_skip]
  exact List.forall₂_drop number alike

/-- Cursors stay alike when as many elements are skipped at the back. -/
theorem skipBack (alike : Alike related cursor other) (number : Nat) :
    Alike related (cursor.skipBack number) (other.skipBack number) := by
  rw [Alike, remaining_skipBack, remaining_skipBack, List.Forall₂.length_eq alike]
  exact List.forall₂_take _ alike

/-- Alike cursors answer a step alike, and stay alike unless it ends the walk. -/
theorem respond (alike : Alike related cursor other) (step : Step) :
    Report.Alike related (cursor.respond step).1 (other.respond step).1 ∧
      Option.Rel (Alike related) (cursor.respond step).2 (other.respond step).2 := by
  have size := alike.size_eq
  cases step with
  | next => exact ⟨.item alike.first?, .some (alike.skip 1)⟩
  | nextBack => exact ⟨.item alike.last?, .some (alike.skipBack 1)⟩
  | nth number => exact ⟨.item (alike.skip number).first?, .some ((alike.skip number).skip 1)⟩
  | nthBack number =>
    exact ⟨.item (alike.skipBack number).last?, .some ((alike.skipBack number).skipBack 1)⟩
  | take number => exact ⟨.items (List.forall₂_take number alike), .some (alike.skip number)⟩
  | size =>
    simp only [Cursor.respond, size]
    exact ⟨.count _, .some alike⟩
  | bounds =>
    simp only [Cursor.respond, size]
    exact ⟨.bounds _ _, .some alike⟩
  | describe layout => exact ⟨.window layout alike, .some alike⟩
  | fork => exact ⟨.fork alike.first? (alike.skip 1), .some alike⟩
  | last => exact ⟨.item alike.last?, .none⟩
  | count =>
    simp only [Cursor.respond, size]
    exact ⟨.count _, .none⟩
  | collect => exact ⟨.items alike, .none⟩
  | reverse => exact ⟨.items (List.forall₂_reverse_iff.2 alike), .none⟩

end Alike

/-- Walks over alike cursors report alike. -/
theorem walk_alike {cursor : Option (Cursor α)} {other : Option (Cursor β)}
    (alike : Option.Rel (Alike related) cursor other) (steps : List Step) :
    List.Forall₂ (Report.Alike related) (walk cursor steps) (walk other steps) := by
  induction steps generalizing cursor other with
  | nil => cases alike <;> exact .nil
  | cons step steps hypothesis =>
    cases alike with
    | none => exact .cons .consumed (hypothesis .none)
    | some alike => exact .cons (alike.respond step).1 (hypothesis (alike.respond step).2)

end Cursor

namespace Heap

variable {ρ : Type w} {σ : Type x} [Precedence ρ α] [Precedence σ β]

/-- Two heaps whose rules answer alike and whose storage is aligned. -/
structure Alike (related : α → β → Prop) (heap : Heap α ρ) (other : Heap β σ) : Prop where
  /-- The rules answer alike. -/
  rules : RulesAgree related (precedes heap.rule) (precedes other.rule)
  /-- Related elements stand at the same places. -/
  storage : Aligned related heap.storage other.storage

namespace Alike

variable {heap : Heap α ρ} {other : Heap β σ}

/-- Alike heaps hold related elements in level order. -/
theorem toList (alike : Alike related heap other) :
    List.Forall₂ related heap.toList other.toList :=
  aligned_iff_forall₂.1 alike.storage

/-- Cursors on all the elements of alike heaps are alike. -/
theorem ofArray (alike : Alike related heap other) :
    Cursor.Alike related (.ofArray heap.storage) (.ofArray other.storage) := by
  rw [Cursor.Alike, Cursor.remaining_ofArray, Cursor.remaining_ofArray]
  exact alike.toList

/-- Alike heaps hold as many elements. -/
theorem size_eq (alike : Alike related heap other) : heap.size = other.size :=
  alike.storage.size

/-- Alike heaps show related elements, or both none. -/
theorem peek? (alike : Alike related heap other) :
    Option.Rel related heap.peek? other.peek? :=
  alike.storage.getElem? 0

/-- Heaps stay alike when their spare places are counted anew. -/
theorem room (alike : Alike related heap other) (spare spare' : Nat) :
    Alike related { heap with spare := spare } { other with spare := spare' } :=
  ⟨alike.rules, alike.storage⟩

/-- Heaps stay alike when related elements are added. -/
theorem push (alike : Alike related heap other) {element : α} {element' : β}
    (pair : related element element') :
    Alike related (heap.push element) (other.push element') where
  rules := alike.rules
  storage := by
    have size := alike.storage.size
    exact (alike.storage.push pair).siftUp alike.rules (by simp [size]) size _ _

/-- Heaps stay alike when related elements are added one after the other. -/
theorem pushAll (alike : Alike related heap other) {elements : List α} {elements' : List β}
    (pairs : List.Forall₂ related elements elements') :
    Alike related (heap.pushAll elements) (other.pushAll elements') :=
  List.rel_foldl (P := Alike related) (R := related) (fun _ _ alike _ _ pair => alike.push pair)
    alike pairs

/-- Alike heaps both give nothing, or give related elements and stay alike. -/
theorem pop? (alike : Alike related heap other) :
    (heap.pop? = none ∧ other.pop? = none) ∨
      ∃ element rest element' rest', heap.pop? = some (element, rest) ∧
        other.pop? = some (element', rest') ∧ related element element' ∧
        Alike related rest rest' := by
  have size := alike.storage.size
  unfold Heap.pop?
  by_cases nonempty : 0 < heap.storage.size
  · rw [dif_pos nonempty, dif_pos (size ▸ nonempty)]
    have swapped := alike.storage.swap (rfl : 0 = 0) (congrArg (· - 1) size) nonempty (by omega)
      (size ▸ nonempty) (by omega)
    exact .inr ⟨_, _, _, _, rfl, rfl, alike.storage.place 0 _ _, alike.rules,
      swapped.pop.settleRoot alike.rules⟩
  · rw [dif_neg nonempty, dif_neg (size ▸ nonempty)]
    exact .inl ⟨rfl, rfl⟩

/-- Alike heaps emptied in order give related elements in the same order and stay alike. -/
theorem popAll {heap : Heap α ρ} {other : Heap β σ} (alike : Alike related heap other) :
    List.Forall₂ related heap.popAll.1 other.popAll.1 ∧
      Alike related heap.popAll.2 other.popAll.2 := by
  obtain ⟨vacant, vacant'⟩ | ⟨element, rest, element', rest', popped, popped', pair, remaining⟩ :=
    alike.pop?
  · rw [popAll_of_none vacant, popAll_of_none vacant']
    exact ⟨.nil, alike⟩
  · obtain ⟨later, last⟩ := popAll remaining
    rw [popAll_of_some popped, popAll_of_some popped']
    exact ⟨.cons pair later, last⟩
termination_by heap.size
decreasing_by
  have fewer := size_of_pop? popped
  omega

/-- Alike heaps give related elements in the same order. -/
theorem toSorted (alike : Alike related heap other) :
    List.Forall₂ related heap.toSorted other.toSorted :=
  alike.popAll.1

/-- Heaps stay alike when they are cleared. -/
theorem clear (alike : Alike related heap other) : Alike related heap.clear other.clear where
  rules := alike.rules
  storage := aligned_iff_forall₂.2 .nil

end Alike

end Heap

end PriorityQueue
