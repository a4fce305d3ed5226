import PriorityQueue.Heap.Basic
import PriorityQueue.Proofs.NumberOrder
import PriorityQueue.Sift.Rounds
import PriorityQueue.Sift.Word

/-!
# Sifting with words and sifting with numbers

Machine words stand for the positions of a sifting loop as long as nothing that the loop computes
exceeds a word. The way up never does: it only halves. On the way down the children of a position
lie at about twice the position, so the room that elements take up in storage decides: half of the
words bound the positions, and the children of each still have a word. Elements that take up no room
can number as many as there are words, but they are all the same, so that under an irreflexive rule
the loop ends at the root. `Round.Reaches` collects where a loop comes, and if words suffice
everywhere there, the loop on words does in each round what the loop on numbers does.
-/

namespace PriorityQueue

universe u

variable {α : Type u} {n : Nat} {less : α → α → Bool}

namespace Round

/-- A loop that is at a position of some storage comes to a position of the storage that its rounds
make of it. -/
inductive Reaches (round : Array α → Nat → Round α) : Array α → Nat → Array α → Nat → Prop
  | here (storage : Array α) (position : Nat) : Reaches round storage position storage position
  | onward {storage between after : Array α} {position next place : Nat}
      (moves : round storage position = .moved between next)
      (later : Reaches round between next after place) :
      Reaches round storage position after place

/-- From a position inside the storage a round either is the last or exchanges the element with that
at another position inside the storage. -/
def StaysInside (round : Array α → Nat → Round α) : Prop :=
  ∀ (storage : Array α) (position : Nat) (inside : position < storage.size),
    round storage position = .settled ∨ ∃ (next : Nat) (within : next < storage.size),
      round storage position = .moved (storage.swap position next inside within) next

/-- Rounds that lift stay inside the storage. -/
theorem staysInside_lift (less : α → α → Bool) : StaysInside (lift less) := by
  intro storage position inside
  by_cases root : position = 0
  · exact .inl (by rw [lift, if_pos root])
  · have below : 0 < position := Nat.pos_of_ne_zero root
    have above : parent position < storage.size := Nat.lt_trans (parent_lt below) inside
    have round := lift_of_pos less storage.toVector inside above below
    split at round
    · exact .inr ⟨parent position, above, round⟩
    · exact .inl round

/-- Rounds that lower stay inside the storage. -/
theorem staysInside_lower (less : α → α → Bool) : StaysInside (lower less) := by
  intro storage position inside
  have round := lower_eq less storage.toVector ⟨position, inside⟩
  split at round
  · exact .inl round
  · exact .inr ⟨_, (winner less storage.toVector ⟨position, inside⟩).isLt, round⟩

/-- A loop that stays inside the storage in each round does so wherever it comes. -/
theorem Reaches.inside {round : Array α → Nat → Round α} {storage after : Array α}
    {position place : Nat} (reaches : Reaches round storage position after place)
    (stays : StaysInside round) (start : position < storage.size) :
    after.size = storage.size ∧ place < storage.size ∧ round after place ≠ .outside := by
  induction reaches with
  | here storage position =>
    refine ⟨rfl, start, ?_⟩
    rcases stays storage position start with settled | ⟨next, within, moved⟩
    · simp [settled]
    · simp [moved]
  | @onward storage between after position next place moves later hypothesis =>
    rcases stays storage position start with settled | ⟨other, within, moved⟩
    · rw [settled] at moves
      cases moves
    · rw [moved] at moves
      cases moves
      rw [Array.size_swap] at hypothesis
      exact hypothesis within

/-- A loop whose first round is the last comes nowhere else. -/
theorem Reaches.eq_of_settled {round : Array α → Nat → Round α} {storage after : Array α}
    {position place : Nat} (reaches : Reaches round storage position after place)
    (settled : round storage position = .settled) : place = position := by
  cases reaches with
  | here => rfl
  | onward moves later =>
    rw [settled] at moves
    cases moves

end Round

namespace Word

/-- The word of a parent is reckoned from the word of the position. -/
theorem parent_ofNat {position : Nat} (below : 0 < position) (fits : position < UInt64.size) :
    parent (.ofNat position) = .ofNat (PriorityQueue.parent position) := by
  unfold parent PriorityQueue.parent
  rw [UInt64.ofNat_div (Nat.lt_of_le_of_lt (Nat.sub_le _ _) fits) (by decide),
    UInt64.ofNat_sub below]
  rfl

/-- The word of a left child is reckoned from the word of the position. -/
theorem leftChild_ofNat (position : Nat) :
    leftChild (.ofNat position) = .ofNat (PriorityQueue.leftChild position) := by
  unfold leftChild PriorityQueue.leftChild
  rw [UInt64.ofNat_add, UInt64.ofNat_mul]
  rfl

/-- The word of a right child is reckoned from the word of the position. -/
theorem rightChild_ofNat (position : Nat) :
    rightChild (.ofNat position) = .ofNat (PriorityQueue.rightChild position) := by
  unfold rightChild PriorityQueue.rightChild
  rw [leftChild_ofNat, UInt64.ofNat_add]
  rfl

/-- Nothing on the way to the word of a parent wraps around. -/
theorem toNat_parent_ofNat {position : Nat} (below : 0 < position) (fits : position < UInt64.size) :
    (UInt64.ofNat position - 1).toNat = position - 1 ∧
      (parent (.ofNat position)).toNat = (position - 1) / 2 := by
  constructor
  · show (UInt64.ofNat position - .ofNat 1).toNat = position - 1
    rw [← UInt64.ofNat_sub below]
    exact UInt64.toNat_ofNat_of_lt' (Nat.lt_of_le_of_lt (Nat.sub_le _ _) fits)
  · rw [parent_ofNat below fits]
    exact UInt64.toNat_ofNat_of_lt' (Nat.lt_of_le_of_lt (parent_le position) fits)

/-- Nothing on the way to the words of the children wraps around if the right one has a word. -/
theorem toNat_children_ofNat {position : Nat}
    (fits : PriorityQueue.rightChild position < UInt64.size) :
    (2 * UInt64.ofNat position).toNat = 2 * position ∧
      (leftChild (.ofNat position)).toNat = 2 * position + 1 ∧
      (rightChild (.ofNat position)).toNat = 2 * position + 2 := by
  have left : PriorityQueue.leftChild position < UInt64.size := Nat.lt_of_succ_lt fits
  refine ⟨?_, ?_, ?_⟩
  · show (UInt64.ofNat 2 * .ofNat position).toNat = 2 * position
    rw [← UInt64.ofNat_mul]
    exact UInt64.toNat_ofNat_of_lt' (Nat.lt_of_succ_lt left)
  · rw [leftChild_ofNat]
    exact UInt64.toNat_ofNat_of_lt' left
  · rw [rightChild_ofNat]
    exact UInt64.toNat_ofNat_of_lt' fits

/-- Half of the words are too many: the right child of the position there is taken for the root. -/
example : rightChild (.ofNat blockLimit) = 0 := by decide

section Access

variable {storage : Array α} {left right : Nat}

/-- The same elements are compared at words as at the positions they stand for. -/
theorem less?_ofNat (less : α → α → Bool) (storage : Array α) (here : left < UInt64.size)
    (there : right < UInt64.size) :
    less? less storage (.ofNat left) (.ofNat right) = Round.less? less storage left right := by
  have atLeft : at? storage (.ofNat left) = storage[left]? := by
    rw [at?, UInt64.toNat_ofNat_of_lt' here]
  have atRight : at? storage (.ofNat right) = storage[right]? := by
    rw [at?, UInt64.toNat_ofNat_of_lt' there]
  rw [less?, atLeft, atRight]
  rfl

/-- A challenge at words is decided as at the positions they stand for. -/
theorem challenge?_ofNat (less : α → α → Bool) {challenger best : Nat}
    (limit : storage.size < UInt64.size) (here : challenger < UInt64.size)
    (there : best < UInt64.size) :
    challenge? less storage (.ofNat challenger) (.ofNat best) =
      (Round.challenge? less storage challenger best).map UInt64.ofNat := by
  unfold challenge? Round.challenge?
  simp only [less?_ofNat less storage here there, UInt64.ofNat_lt_iff_lt here limit]
  split
  case isTrue inside =>
    cases Round.less? less storage challenger best with
    | none => rfl
    | some beats => cases beats <;> rfl
  case isFalse => rfl

/-- The same elements change places at words as at the positions they stand for. -/
theorem exchange_ofNat (storage : Vector α n) (limit : n < UInt64.size) (here : left < n)
    (there : right < n) :
    exchange storage.toArray (.ofNat left) (.ofNat right) =
      (storage.swap left right).toArray := by
  unfold exchange
  rw [UInt64.toNat_ofNat_of_lt' (Nat.lt_trans here limit),
    UInt64.toNat_ofNat_of_lt' (Nat.lt_trans there limit), Vector.toArray_swap]
  simp only [Array.swapIfInBounds, Vector.size_toArray, here, there, dif_pos]

end Access

/-- If the children of a position have words, the winner among them is found at words. -/
theorem winner?_ofNat (less : α → α → Bool) (storage : Vector α n) (position : Fin n)
    (limit : n < UInt64.size) (fits : PriorityQueue.rightChild position < UInt64.size) :
    winner? less storage.toArray (.ofNat position) =
      some (.ofNat (winner less storage position)) := by
  have size : storage.toArray.size < UInt64.size := by rwa [Vector.size_toArray]
  have here : position.val < UInt64.size := Nat.lt_trans position.isLt limit
  have best : (leftWinner less storage position).val < UInt64.size :=
    Nat.lt_trans (leftWinner less storage position).isLt limit
  unfold winner?
  rw [leftChild_ofNat, rightChild_ofNat,
    challenge?_ofNat less size (Nat.lt_of_succ_lt fits) here, Round.challenge?_leftChild]
  simp only [Option.map_some]
  rw [challenge?_ofNat less size fits best, Round.challenge?_rightChild]
  rfl

/-- The loop that lifts does on words what it does on numbers, round by round. -/
theorem siftUp_ofNat (less : α → α → Bool) (limit : n < UInt64.size) (rounds : Nat)
    (storage : Vector α n) (position : Nat) (inside : position < n) :
    siftUp less rounds storage.toArray (.ofNat position) =
      Round.iterate (Round.lift less) rounds storage.toArray position := by
  induction rounds generalizing storage position with
  | zero => rfl
  | succ rounds hypothesis =>
    have fits : position < UInt64.size := Nat.lt_trans inside limit
    have root : UInt64.ofNat position = 0 ↔ position = 0 := by
      rw [← UInt64.toNat_inj, UInt64.toNat_ofNat_of_lt' fits]
      rfl
    unfold siftUp Round.iterate
    by_cases top : position = 0
    · rw [if_pos (root.2 top), Round.lift, if_pos top]
    · have below : 0 < position := Nat.pos_of_ne_zero top
      have above : PriorityQueue.parent position < n := Nat.lt_trans (parent_lt below) inside
      rw [if_neg (fun zero => top (root.1 zero)), parent_ofNat below fits,
        less?_ofNat less _ fits (Nat.lt_trans above limit), Round.less?_of_lt less storage inside
          above, Round.lift_of_pos less storage inside above below]
      cases less storage[position] storage[PriorityQueue.parent position] with
      | false => rfl
      | true =>
        simp only [if_true, exchange_ofNat storage limit inside above]
        exact hypothesis _ _ above

/-- If words suffice wherever the loop that lowers comes, it does on words what it does on numbers,
round by round. -/
theorem siftDown_ofNat (less : α → α → Bool) (limit : n < UInt64.size) (rounds : Nat)
    (storage : Vector α n) (position : Fin n)
    (fits : ∀ between place,
      Round.Reaches (Round.lower less) storage.toArray position between place →
        PriorityQueue.rightChild place < UInt64.size) :
    siftDown less rounds storage.toArray (.ofNat position) =
      Round.iterate (Round.lower less) rounds storage.toArray position := by
  induction rounds generalizing storage position with
  | zero => rfl
  | succ rounds hypothesis =>
    have same : UInt64.ofNat (winner less storage position) = .ofNat position ↔
        winner less storage position = position := by
      rw [← UInt64.toNat_inj, Fin.ext_iff,
        UInt64.toNat_ofNat_of_lt' (Nat.lt_trans (winner less storage position).isLt limit),
        UInt64.toNat_ofNat_of_lt' (Nat.lt_trans position.isLt limit)]
    have round := Round.lower_eq less storage position
    unfold siftDown Round.iterate
    rw [winner?_ofNat less storage position limit (fits _ _ (.here _ _)), round]
    by_cases settled : winner less storage position = position
    · simp only [same, if_pos settled]
    · rw [if_neg settled] at round
      simp only [same, if_neg settled, exchange_ofNat storage limit position.isLt
        (winner less storage position).isLt]
      exact hypothesis _ _ fun between place later => fits between place (.onward round later)

/-- If the storage can be counted with words, lifting with words gives the storage that sifting gives,
within one round more than the position counts. -/
theorem siftUp_eq (less : α → α → Bool) (limit : n < UInt64.size) (storage : Vector α n)
    {position rounds : Nat} (inside : position < n) (enough : position < rounds) :
    siftUp less rounds storage.toArray (.ofNat position) =
      some (PriorityQueue.siftUp less storage position inside).toArray := by
  rw [siftUp_ofNat less limit rounds storage position inside]
  exact Round.iterate_lift less storage position inside rounds enough

/-- If words suffice wherever the loop that lowers comes, lowering with words gives the storage that
sifting gives, within as many rounds as there are positions from there on. -/
theorem siftDown_eq (less : α → α → Bool) (limit : n < UInt64.size) (storage : Vector α n)
    (position : Fin n) {rounds : Nat} (enough : n - position ≤ rounds)
    (fits : ∀ between place,
      Round.Reaches (Round.lower less) storage.toArray position between place →
        PriorityQueue.rightChild place < UInt64.size) :
    siftDown less rounds storage.toArray (.ofNat position) =
      some (PriorityQueue.siftDown less storage position).toArray := by
  rw [siftDown_ofNat less limit rounds storage position fits]
  exact Round.iterate_lower less storage position rounds enough

/-- A position below half of the words has words for its children, and one that is the root of any
storage. -/
theorem rightChild_lt_size {position : Nat} (small : position < blockLimit ∨ position = 0) :
    PriorityQueue.rightChild position < UInt64.size := by
  simp only [PriorityQueue.rightChild, PriorityQueue.leftChild, blockLimit, UInt64.size] at small ⊢
  omega

end Word

/-- Among elements that are all the same an irreflexive rule lets each stay where it is. -/
theorem winner_eq_of_subsingleton [Subsingleton α]
    (irreflexive : ∀ element, less element element = false) (storage : Vector α n)
    (position : Fin n) : winner less storage position = position := by
  have never : ∀ left right, less left right = false := by
    intro left right
    rw [Subsingleton.elim left right]
    exact irreflexive right
  simp [winner, leftWinner, never]

/-- Words suffice wherever the loop that settles the root comes, if half of the words bound the
storage or if its elements are all the same and the rule is irreflexive. -/
theorem Round.Reaches.rightChild_lt_size {storage after : Array α} {place : Nat}
    (reaches : Reaches (lower less) storage 0 after place) (nonempty : 0 < storage.size)
    (room : storage.size ≤ blockLimit ∨
      Subsingleton α ∧ ∀ element, less element element = false) :
    rightChild place < UInt64.size := by
  apply Word.rightChild_lt_size
  rcases room with half | ⟨single, irreflexive⟩
  · left
    exact Nat.lt_of_lt_of_le (reaches.inside (staysInside_lower less) nonempty).2.1 half
  · right
    apply reaches.eq_of_settled
    have round := lower_eq less storage.toVector ⟨0, nonempty⟩
    rwa [if_pos (winner_eq_of_subsingleton irreflexive _ _)] at round

/-- In storage of elements that take up room, of which there can be half as many as there are words,
and in storage of elements that are all the same, under an irreflexive rule, the sifting loops may
count with words. In every round of lifting from the end and of lowering from the root nothing that
is reckoned from the word of the position wraps around, and every position that is read or swapped
lies inside the storage. So the loops on words are done within as many rounds as there are elements,
with the storage that sifting gives. -/
theorem sifting_words_never_wrap (less : α → α → Bool) {storage : Array α}
    (nonempty : 0 < storage.size)
    (room : storage.size ≤ blockLimit ∨ storage.size ≤ wordLimit ∧
      Subsingleton α ∧ ∀ element, less element element = false) :
    (∀ between position,
      Round.Reaches (Round.lift less) storage (storage.size - 1) between position →
      between.size = storage.size ∧ position < storage.size ∧
      Round.lift less between position ≠ .outside ∧
      (0 < position → (UInt64.ofNat position - 1).toNat = position - 1 ∧
        (Word.parent (.ofNat position)).toNat = (position - 1) / 2)) ∧
    (∀ between position, Round.Reaches (Round.lower less) storage 0 between position →
      between.size = storage.size ∧ position < storage.size ∧
      Round.lower less between position ≠ .outside ∧
      (2 * UInt64.ofNat position).toNat = 2 * position ∧
      (Word.leftChild (.ofNat position)).toNat = 2 * position + 1 ∧
      (Word.rightChild (.ofNat position)).toNat = 2 * position + 2) ∧
    ∀ rounds ≥ storage.size,
      Word.siftUp less rounds storage (.ofNat (storage.size - 1)) =
        some (siftUp less storage.toVector (storage.size - 1)
          (Nat.sub_lt nonempty Nat.one_pos)).toArray ∧
      Word.siftDown less rounds storage 0 =
        some (siftDown less storage.toVector ⟨0, nonempty⟩).toArray := by
  have last : storage.size - 1 < storage.size := Nat.sub_lt nonempty Nat.one_pos
  have limit : storage.size < UInt64.size := by
    simp only [blockLimit, wordLimit, UInt64.size] at room ⊢
    omega
  have fits : ∀ between place, Round.Reaches (Round.lower less) storage 0 between place →
      rightChild place < UInt64.size :=
    fun between place reaches => reaches.rightChild_lt_size nonempty (room.imp_right And.right)
  refine ⟨?_, ?_, ?_⟩
  · intro between position reaches
    obtain ⟨size, inside, access⟩ := reaches.inside (Round.staysInside_lift less) last
    exact ⟨size, inside, access,
      fun below => Word.toNat_parent_ofNat below (Nat.lt_trans inside limit)⟩
  · intro between position reaches
    obtain ⟨size, inside, access⟩ := reaches.inside (Round.staysInside_lower less) nonempty
    exact ⟨size, inside, access, Word.toNat_children_ofNat (fits between position reaches)⟩
  · intro rounds enough
    constructor
    · exact Word.siftUp_eq less limit storage.toVector last (by omega)
    · exact Word.siftDown_eq less limit storage.toVector ⟨0, nonempty⟩ enough fits

/-- The greatest storages: one of integers, which fill half of the words, and one of the single
value of a type, as many as there are words. -/
theorem greatest_storages_never_wrap :
    let numbers := Array.replicate blockLimit (0 : Int)
    let units := Array.replicate wordLimit ()
    let never : Unit → Unit → Bool := fun _ _ => false
    0 < numbers.size ∧ numbers.size ≤ blockLimit ∧ 0 < units.size ∧ blockLimit < units.size ∧
      units.size ≤ wordLimit ∧
      (∃ sifted, Word.siftDown (NaturalOrder.lt : Int → Int → Bool) blockLimit numbers 0 =
        some sifted ∧ sifted.size = numbers.size) ∧
      ∃ sifted, Word.siftDown never wordLimit units 0 = some sifted ∧
        sifted.size = units.size := by
  intro numbers units never
  have many : numbers.size = blockLimit := Array.size_replicate
  have more : units.size = wordLimit := Array.size_replicate
  have positive : 0 < numbers.size := by
    rw [many]
    decide
  have positive' : 0 < units.size := by
    rw [more]
    decide
  have integers := sifting_words_never_wrap (NaturalOrder.lt : Int → Int → Bool) positive
    (.inl (Nat.le_of_eq many))
  have values := sifting_words_never_wrap never positive'
    (.inr ⟨Nat.le_of_eq more, inferInstance, fun _ => rfl⟩)
  refine ⟨positive, Nat.le_of_eq many, positive', ?_, Nat.le_of_eq more, ?_, ?_⟩
  · rw [more]
    decide
  · exact ⟨_, (integers.2.2 blockLimit (Nat.le_of_eq many)).2, Vector.size_toArray _⟩
  · exact ⟨_, (values.2.2 wordLimit (Nat.le_of_eq more)).2, Vector.size_toArray _⟩

end PriorityQueue
