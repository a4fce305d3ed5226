import PriorityQueue.Heap.Word
import PriorityQueue.Operation.Lemmas
import PriorityQueue.Proofs.WordSift

/-!
# Heaps with words and heaps with numbers

A heap whose positions are words does what a heap whose positions are numbers does, step by step
through any run, as long as words suffice. They suffice but for one kind of state: storage filled
with as many elements as a word can count, which are all the same and which the rule puts before
themselves. There the element that a removal puts at the root sinks along the right edge of the
tree, and from the last position but one the words of the children wrap around into the storage, so
that the loop never comes to rest.
-/

namespace PriorityQueue

universe u v

variable {α : Type u} {ρ : Type v} {n : Nat} {less : α → α → Bool}

section Edge

/-- A power of two that is a word is at most half of the words. -/
theorem le_half_of_isPowerOfTwo {number : Nat} (power : number.isPowerOfTwo)
    (word : number < UInt64.size) : number ≤ UInt64.size / 2 := by
  obtain ⟨exponent, rfl⟩ := power
  have early : exponent < 64 := (Nat.pow_lt_pow_iff_right (by decide)).1 word
  exact Nat.pow_le_pow_right (by decide) (Nat.le_of_lt_succ early)

/-- A place is on the right edge of the tree, or is the last place and to the left of the edge. -/
def OnEdge (size place : Nat) : Prop :=
  (place + 2).isPowerOfTwo ∨ (place + 3).isPowerOfTwo ∧ place + 1 = size

/-- The root is on the right edge. -/
theorem onEdge_zero (size : Nat) : OnEdge size 0 := .inl ⟨1, rfl⟩

/-- The children of a place on the right edge have words, if storage lacks two places to fill the
range of words. -/
theorem OnEdge.rightChild_lt {size place : Nat} (edge : OnEdge size place) (inside : place < size)
    (room : size + 2 < UInt64.size) : rightChild place < UInt64.size := by
  have half : place + 2 ≤ UInt64.size / 2 := by
    rcases edge with power | ⟨power, last⟩
    · exact le_half_of_isPowerOfTwo power (by omega)
    · exact Nat.le_of_succ_le (le_half_of_isPowerOfTwo power (by omega))
  simp only [rightChild, leftChild, UInt64.size] at half ⊢
  omega

variable (always : ∀ left right, less left right = true)
include always

/-- Under a rule that puts every element before every other the right child wins, or the left one if
it is the only one. -/
theorem winner_of_always (storage : Vector α n) (position : Fin n) :
    (winner less storage position).val =
      if rightChild position < n then rightChild position
      else if leftChild position < n then leftChild position
      else position.val := by
  simp only [winner, leftWinner, always, if_true]
  split
  · rfl
  · split <;> rfl

/-- From the right edge an element sinks along it. -/
theorem OnEdge.winner {storage : Vector α n} {position : Fin n} (edge : OnEdge n position)
    (moved : winner less storage position ≠ position) :
    OnEdge n (PriorityQueue.winner less storage position) := by
  have won := winner_of_always always storage position
  rw [Ne, Fin.ext_iff] at moved
  rcases edge with ⟨exponent, power⟩ | ⟨-, last⟩
  · by_cases right : rightChild position < n
    · left
      rw [won, if_pos right]
      refine ⟨exponent + 1, ?_⟩
      rw [Nat.pow_succ, ← power, rightChild, leftChild]
      omega
    · by_cases left : leftChild position < n
      · right
        rw [won, if_neg right, if_pos left]
        refine ⟨⟨exponent + 1, ?_⟩, ?_⟩
        · rw [Nat.pow_succ, ← power, leftChild]
          omega
        · rw [rightChild] at right
          omega
      · exact absurd (won.trans (by rw [if_neg right, if_neg left])) moved
  · -- The last place has no children.
    have left : ¬ leftChild position < n := by
      rw [leftChild]
      omega
    have right : ¬ rightChild position < n := by
      rw [rightChild, leftChild]
      omega
    exact absurd (won.trans (by rw [if_neg right, if_neg left])) moved

/-- An element that starts to sink on the right edge comes only to places on it. -/
theorem Round.Reaches.onEdge {storage after : Array α} {position place : Nat}
    (reaches : Reaches (lower less) storage position after place)
    (inside : position < storage.size) (edge : OnEdge storage.size position) :
    OnEdge storage.size place := by
  induction reaches with
  | here => exact edge
  | @onward storage between after position next place moves later hypothesis =>
    have round := lower_eq less storage.toVector ⟨position, inside⟩
    have same : lower less storage.toVector.toArray position = .moved between next := moves
    rw [same] at round
    split at round
    · cases round
    case isFalse sinks =>
      cases round
      have further := edge.winner always sinks
      have size : (storage.toVector.swap position _ inside
          (PriorityQueue.winner less storage.toVector ⟨position, inside⟩).isLt).toArray.size =
            storage.size := Vector.size_toArray _
      rw [size] at hypothesis
      exact hypothesis (Fin.isLt _) further

end Edge

/-- A rule for elements that are all the same puts each before each if it is not irreflexive. -/
theorem irreflexive_or_always [Subsingleton α] (less : α → α → Bool) :
    (∀ element, less element element = false) ∨ ∀ left right, less left right = true := by
  by_cases irreflexive : ∀ element, less element element = false
  · exact .inl irreflexive
  · right
    intro left right
    rw [Classical.not_forall] at irreflexive
    obtain ⟨element, reflexive⟩ := irreflexive
    rw [Subsingleton.elim left element, Subsingleton.elim right element]
    exact eq_true_of_ne_false reflexive

namespace Word

/-- Words that suffice to take one of some elements out suffice for fewer. -/
theorem Suffice.pred {count : Nat} (words : Suffice less (count + 1)) : Suffice less count := by
  rcases words with half | ⟨single, room⟩
  · exact .inl (Nat.le_of_succ_le half)
  · exact .inr ⟨single, .inl (by omega)⟩

/-- Words that suffice to take one of some elements out can count them. -/
theorem Suffice.le_wordLimit {count : Nat} (words : Suffice less count) : count ≤ wordLimit := by
  have half : blockLimit ≤ wordLimit := by decide
  rcases words with small | ⟨-, small | ⟨full, -⟩⟩ <;> omega

/-- The greatest count of a word is one less than there are words. -/
theorem wordLimit_lt_size : wordLimit < UInt64.size := by decide

/-- The word before the word of a count is the word of the count before. -/
theorem ofNat_sub_one {count : Nat} (positive : 0 < count) :
    UInt64.ofNat count - 1 = .ofNat (count - 1) :=
  (UInt64.ofNat_sub positive).symm

/-- Words suffice wherever the loop that settles the root comes after a removal. -/
theorem Suffice.rightChild_lt {storage after : Array α} {place : Nat}
    (words : Suffice less (storage.size + 1)) (nonempty : 0 < storage.size)
    (reaches : Round.Reaches (Round.lower less) storage 0 after place) :
    PriorityQueue.rightChild place < UInt64.size := by
  rcases words with half | ⟨single, room⟩
  · exact reaches.rightChild_lt_size nonempty (.inl (Nat.le_of_succ_le half))
  · rcases irreflexive_or_always less with irreflexive | always
    · exact reaches.rightChild_lt_size nonempty (.inr ⟨single, irreflexive⟩)
    · have edge := reaches.onEdge always nonempty (onEdge_zero storage.size)
      have inside := (reaches.inside (Round.staysInside_lower less) nonempty).2.1
      refine edge.rightChild_lt inside ?_
      rcases room with small | ⟨-, irreflexive⟩
      · have whole : wordLimit + 1 = UInt64.size := by decide
        omega
      · -- The rule cannot be irreflexive, for there is an element.
        have reflexive := always storage[0] storage[0]
        rw [irreflexive] at reflexive
        cases reflexive

section Ruled

variable {rounds : Nat}

/-- If words suffice for a removal, the root is settled with words as with numbers. -/
theorem settleRoot?_eq {storage : Array α} (words : Suffice less (storage.size + 1))
    (enough : storage.size ≤ rounds) :
    settleRoot? less rounds storage = some (Heap.settleRoot less storage) := by
  unfold settleRoot? Heap.settleRoot
  by_cases nonempty : 0 < storage.size
  · have occupied : ¬ storage.isEmpty = true := by
      rw [Array.isEmpty_iff_size_eq_zero]
      omega
    have limit : storage.size < UInt64.size := Nat.lt_trans words.le_wordLimit wordLimit_lt_size
    rw [if_neg occupied, dif_pos nonempty]
    exact siftDown_eq less limit storage.toVector ⟨0, nonempty⟩ enough
      fun between place reaches => words.rightChild_lt nonempty reaches
  · have vacant : storage.isEmpty = true := by
      rw [Array.isEmpty_iff_size_eq_zero]
      omega
    rw [if_pos vacant, dif_neg nonempty]

variable [Precedence ρ α]

/-- If a word can count the elements afterwards, an element is added with words as with numbers. -/
theorem push?_eq {heap : Heap α ρ} {element : α} (room : heap.size < wordLimit)
    (enough : heap.size < rounds) : push? rounds heap element = some (heap.push element) := by
  have longer : (heap.storage.push element).size = heap.size + 1 := Array.size_push _
  have limit : (heap.storage.push element).size < UInt64.size := by
    rw [longer]
    exact Nat.lt_of_le_of_lt room wordLimit_lt_size
  have inside : heap.size < (heap.storage.push element).size := by omega
  unfold push?
  dsimp only
  rw [ofNat_sub_one (Nat.zero_lt_of_lt inside), longer, Nat.add_sub_cancel]
  have lifted := siftUp_eq (precedes heap.rule) limit (heap.storage.push element).toVector inside
    enough
  rw [Vector.toArray_mk] at lifted
  rw [lifted]
  rfl

/-- If a word can count the elements afterwards, elements are added with words as with numbers. -/
theorem pushAll?_eq {heap : Heap α ρ} {elements : List α}
    (room : heap.size + elements.length ≤ wordLimit) (enough : wordLimit ≤ rounds) :
    pushAll? rounds heap elements = some (heap.pushAll elements) := by
  induction elements generalizing heap with
  | nil => rfl
  | cons element elements hypothesis =>
    rw [List.length_cons] at room
    have first : push? rounds heap element = some (heap.push element) :=
      push?_eq (by omega) (by omega)
    rw [pushAll?, first, Heap.pushAll_cons]
    apply hypothesis
    rw [Heap.size_push]
    omega

/-- If words suffice to take an element out, it is taken out with words as with numbers. -/
theorem pop?_eq {heap : Heap α ρ} (words : Suffice (precedes heap.rule) heap.size)
    (enough : heap.size ≤ rounds) : pop? rounds heap = some heap.pop? := by
  unfold pop? Heap.pop?
  by_cases nonempty : 0 < heap.storage.size
  · have within : heap.storage.size - 1 < heap.storage.size := by omega
    have limit : heap.storage.size < UInt64.size :=
      Nat.lt_of_le_of_lt words.le_wordLimit wordLimit_lt_size
    have swapped : exchange heap.storage 0 (.ofNat heap.storage.size - 1) =
        heap.storage.swap 0 (heap.storage.size - 1) := by
      rw [ofNat_sub_one nonempty]
      exact exchange_ofNat heap.storage.toVector limit nonempty within
    have shorter : (heap.storage.swap 0 (heap.storage.size - 1)).pop.size + 1 = heap.size := by
      rw [Array.size_pop, Array.size_swap]
      exact Nat.sub_add_cancel nonempty
    rw [Array.getElem?_eq_getElem nonempty, dif_pos nonempty]
    dsimp only
    rw [swapped, settleRoot?_eq (by rwa [shorter]) (by omega)]
    rfl
  · rw [Array.getElem?_eq_none (Nat.le_of_not_lt nonempty), dif_neg nonempty]

/-- If words suffice to take an element out, all elements are taken out with words as with numbers. -/
theorem popMany?_eq {heap : Heap α ρ} {count : Nat} (sized : heap.size = count)
    (words : Suffice (precedes heap.rule) heap.size) (enough : heap.size ≤ rounds) :
    popMany? rounds count heap = some heap.popAll := by
  induction count generalizing heap with
  | zero =>
    have vacant : heap.pop? = none := by
      rw [Heap.pop?_eq_none_iff, ← List.length_eq_zero_iff, Heap.length_toList, sized]
    rw [popMany?, Heap.popAll_of_none vacant]
  | succ count hypothesis =>
    rw [popMany?, pop?_eq words enough]
    cases popped : heap.pop? with
    | none => rw [Heap.popAll_of_none popped]; rfl
    | some removal =>
      obtain ⟨element, rest⟩ := removal
      have fewer := Heap.size_of_pop? popped
      have kept := Heap.rule_of_pop? popped
      rw [← fewer, ← kept] at words
      rw [Heap.popAll_of_some popped]
      show (popMany? rounds count rest).map _ = _
      rw [hypothesis (by omega) words.pred (by omega)]
      rfl

variable [Footprint α]

/-- If words suffice for an operation, it comes to the same with words as with numbers. -/
theorem step?_eq {heap : Heap α ρ} {operation : Operation α} (words : SufficeFor heap operation)
    (enough : wordLimit ≤ rounds) : step? rounds heap operation = some (heap.step operation) := by
  cases operation with
  | push element =>
    have room : heap.size < wordLimit := words
    rw [step?, push?_eq room (by omega)]
    rfl
  | extend batch =>
    have room : heap.size + batch.elements.length ≤ wordLimit := words
    simp only [step?, Heap.step, Heap.perform, Heap.extend]
    cases granted : heap.reserve batch.announced with
    | error failure => rfl
    | ok roomy =>
      have same : roomy.size = heap.size := by
        rw [(Heap.reserve_eq_ok_iff.1 granted).2]
        rfl
      dsimp only
      rw [pushAll?_eq (by rwa [same]) enough]
      rfl
  | pop =>
    have room : Suffice (precedes heap.rule) heap.size := words
    rw [step?, pop?_eq room (Nat.le_trans room.le_wordLimit enough)]
    cases popped : heap.pop? with
    | none => rw [Heap.step_pop_of_none popped]; rfl
    | some removal => rw [Heap.step_pop_of_some popped]; rfl
  | popAll =>
    have room : Suffice (precedes heap.rule) heap.size := words
    rw [step?, popMany?_eq rfl room (Nat.le_trans room.le_wordLimit enough)]
    rfl
  | clear | drain | top | peek | size | isEmpty | storage | visit | compare | reserve
  | shrinkToFit | holds | describe | describeRule => rfl

/-- If words suffice for each operation, a run comes to the same with words as with numbers. -/
theorem run?_eq {heap : Heap α ρ} {operations : List (Operation α)}
    (words : SufficeForAll heap operations) (enough : wordLimit ≤ rounds) :
    run? rounds heap operations = some (heap.run operations) := by
  induction operations generalizing heap with
  | nil => rfl
  | cons operation operations hypothesis =>
    rw [run?, step?_eq words.1 enough]
    show (run? rounds (heap.step operation).2 operations).map _ = _
    rw [hypothesis words.2]
    rfl

end Ruled

section Full

variable (always : ∀ left right, less left right = true)
include always

/-- Under a rule that puts every element before every other, every challenger inside wins. -/
theorem challenge?_of_always {storage : Array α} {challenger best : UInt64}
    (limit : storage.size < UInt64.size) (inside : best.toNat < storage.size) :
    challenge? less storage challenger best =
      some (if challenger.toNat < storage.size then challenger else best) := by
  have below : challenger < UInt64.ofNat storage.size ↔ challenger.toNat < storage.size := by
    rw [UInt64.lt_iff_toNat_lt, UInt64.toNat_ofNat_of_lt' limit]
  unfold challenge?
  simp only [below]
  split
  case isTrue within =>
    simp only [less?, at?, Array.getElem?_eq_getElem within, Array.getElem?_eq_getElem inside,
      always]
  case isFalse => rfl

/-- Where storage lacks one place to fill the range of words, one of the children of every position
has a word inside the storage, and wins. -/
theorem exists_winner?_of_full {storage : Array α} {position : UInt64}
    (full : storage.size + 1 = wordLimit) (inside : position.toNat < storage.size) :
    ∃ next, winner? less storage position = some next ∧ next ≠ position ∧
      next.toNat < storage.size := by
  -- The arithmetic is decided on the numbers themselves.
  have size : storage.size = 18446744073709551614 := by
    have limit : wordLimit = 18446744073709551615 := rfl
    omega
  have limit : storage.size < UInt64.size := by
    rw [size]
    decide
  have left : (leftChild position).toNat = (2 * position.toNat + 1) % 18446744073709551616 := by
    simp [leftChild, UInt64.toNat_add, UInt64.toNat_mul]
  have right : (rightChild position).toNat = (2 * position.toNat + 2) % 18446744073709551616 := by
    simp [rightChild, leftChild, UInt64.toNat_add, UInt64.toNat_mul]
  unfold winner?
  rw [challenge?_of_always always limit inside]
  by_cases rightInside : (rightChild position).toNat < storage.size
  · have apart : rightChild position ≠ position := by
      intro same
      rw [same] at right
      omega
    refine ⟨rightChild position, ?_, apart, rightInside⟩
    have best : (if (leftChild position).toNat < storage.size then leftChild position
        else position).toNat < storage.size := by
      split
      case isTrue leftInside => exact leftInside
      case isFalse => exact inside
    exact (challenge?_of_always always limit best).trans (by rw [if_pos rightInside])
  · -- The right child is the one word that is even and outside, so the left one is the word before.
    have leftInside : (leftChild position).toNat < storage.size := by omega
    have apart : leftChild position ≠ position := by
      intro same
      rw [same] at left
      omega
    refine ⟨leftChild position, ?_, apart, leftInside⟩
    rw [if_pos leftInside]
    exact (challenge?_of_always always limit leftInside).trans (by rw [if_neg rightInside])

/-- Where storage lacks one place to fill the range of words, sinking is not done within any number
of rounds. -/
theorem siftDown_of_full {storage : Array α} {position : UInt64}
    (full : storage.size + 1 = wordLimit) (inside : position.toNat < storage.size)
    (rounds : Nat) : siftDown less rounds storage position = none := by
  induction rounds generalizing storage position with
  | zero => rfl
  | succ rounds hypothesis =>
    obtain ⟨next, won, moved, within⟩ := exists_winner?_of_full always full inside
    have same : (exchange storage position next).size = storage.size :=
      Array.size_swapIfInBounds
    simp only [siftDown, won, if_neg moved]
    apply hypothesis
    · rw [same, full]
    · rwa [same]

/-- Where storage lacks one place to fill the range of words, the root is never settled. -/
theorem settleRoot?_of_full {storage : Array α} (full : storage.size + 1 = wordLimit)
    (rounds : Nat) : settleRoot? less rounds storage = none := by
  have several : 1 < wordLimit := by decide
  have nonempty : 0 < storage.size := by omega
  have occupied : ¬ storage.isEmpty = true := by
    rw [Array.isEmpty_iff_size_eq_zero]
    exact Nat.ne_of_gt nonempty
  have root : (0 : UInt64).toNat < storage.size := nonempty
  rw [settleRoot?, if_neg occupied, siftDown_of_full always full root]

end Full

section Stuck

variable [Precedence ρ α] {heap : Heap α ρ}

/-- Under a rule that puts every element before every other nothing is ever taken out of storage
that fills the range of words. -/
theorem pop?_of_full (always : ∀ left right, precedes heap.rule left right = true)
    (full : heap.size = wordLimit) (rounds : Nat) : pop? rounds heap = none := by
  have nonempty : 0 < heap.storage.size := by
    show 0 < heap.size
    rw [full]
    decide
  have shorter : (exchange heap.storage 0 (.ofNat heap.storage.size - 1)).pop.size + 1 =
      wordLimit := by
    rw [Array.size_pop, exchange, Array.size_swapIfInBounds, ← full]
    exact Nat.sub_add_cancel nonempty
  unfold pop?
  rw [Array.getElem?_eq_getElem nonempty]
  dsimp only
  rw [settleRoot?_of_full always shorter]
  rfl

/-- Of elements that are all the same, no more than a word can count, a removal never comes to an end
exactly if they are as many as that and the rule puts them before themselves. -/
theorem pop?_never_iff [Subsingleton α] (counted : heap.size ≤ wordLimit) :
    (∀ rounds, pop? rounds heap = none) ↔
      heap.size = wordLimit ∧ ∃ element : α, precedes heap.rule element element = true := by
  constructor
  · intro never
    apply Classical.byContradiction
    intro fair
    have words : Suffice (precedes heap.rule) heap.size := by
      refine .inr ⟨inferInstance, (Nat.lt_or_eq_of_le counted).imp_right fun full => ⟨full, ?_⟩⟩
      intro element
      exact eq_false_of_ne_true fun reflexive => fair ⟨full, element, reflexive⟩
    have ends := pop?_eq words (Nat.le_refl heap.size)
    rw [never] at ends
    cases ends
  · rintro ⟨full, element, reflexive⟩
    rcases irreflexive_or_always (precedes heap.rule) with irreflexive | always
    · rw [irreflexive] at reflexive
      cases reflexive
    · exact pop?_of_full always full

variable [Footprint α]

/-- A word can count the elements of a row of additions that it can count afterwards. -/
theorem sufficeForAll_map_push {elements : List α}
    (room : heap.size + elements.length ≤ wordLimit) :
    SufficeForAll heap (elements.map .push) := by
  induction elements generalizing heap with
  | nil => trivial
  | cons element elements hypothesis =>
    rw [List.length_cons] at room
    refine ⟨show heap.size < wordLimit by omega, ?_⟩
    apply hypothesis
    show (heap.push element).size + _ ≤ _
    rw [Heap.size_push]
    omega

/-- Words that suffice to take one element out suffice to take out any number one by one. -/
theorem sufficeForAll_replicate_pop (words : Suffice (precedes heap.rule) heap.size)
    (count : Nat) : SufficeForAll heap (List.replicate count .pop) := by
  induction count generalizing heap with
  | zero => trivial
  | succ count hypothesis =>
    refine ⟨words, hypothesis ?_⟩
    cases popped : heap.pop? with
    | none =>
      rw [Heap.step_pop_of_none popped]
      exact words
    | some removal =>
      rw [Heap.step_pop_of_some popped, Heap.rule_of_pop? popped]
      rw [← Heap.size_of_pop? popped] at words
      exact words.pred

/-- A run with words gives nothing if its last operation gives nothing. -/
theorem run?_concat_of_none {operations : List (Operation α)} {operation : Operation α}
    {rounds : Nat} (words : SufficeForAll heap operations) (enough : wordLimit ≤ rounds)
    (never : step? rounds (heap.run operations).2 operation = none) :
    run? rounds heap (operations ++ [operation]) = none := by
  induction operations generalizing heap with
  | nil =>
    have here : step? rounds heap operation = none := never
    rw [List.nil_append, run?, here]
    rfl
  | cons first operations hypothesis =>
    rw [List.cons_append, run?, step?_eq words.1 enough]
    show (run? rounds (heap.step first).2 _).map _ = _
    rw [hypothesis words.2 never]
    rfl

end Stuck

end Word

end PriorityQueue
