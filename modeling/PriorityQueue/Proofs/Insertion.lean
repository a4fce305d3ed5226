import PriorityQueue.Operation.Lemmas
import PriorityQueue.Proofs.Sorting

/-!
# Rows of insertions

Elements can be added one by one or in batches that announce any number of them, and room can be
asked for and given back in between. Here each of these is a `Change` made in small steps, which may
break off half-way and then leaves the heap as the steps before have left it. Nothing is taken back
afterwards: that a refused batch has added no element is due to its room being asked for before its
first element is added. How many elements storage can hold depends on how much space an element
takes up; the limit is left open.
-/

namespace PriorityQueue

universe u v

variable {α : Type u} {ρ : Type v}

/-- A number that may be the greatest number of elements in storage. Elements that take up space are
bounded by the addresses of a block, and by fewer the more space they take up; others by the counter
alone. -/
structure IsStorageLimit (α : Type u) [Footprint α] (limit : Nat) : Prop where
  /-- Elements that take up space fit into a block. -/
  block : Footprint.zeroSized α = false → limit ≤ blockLimit
  /-- Elements that take up no space can be counted. -/
  word : Footprint.zeroSized α = true → limit = wordLimit

/-- The limit that the operations of a heap go by is such a number. -/
theorem isStorageLimit_capacityLimit [Footprint α] : IsStorageLimit α (capacityLimit α) := by
  constructor
  · intro sized
    simp only [capacityLimit, sized, Bool.false_eq_true, if_false]
    exact Nat.div_le_self blockLimit (Footprint.width α)
  · intro sizeless
    simp [capacityLimit, sizeless]

/-- What is done to a heap in steps: whether all of them succeeded, and the heap that they left. -/
def Change (α : Type u) (ρ : Type v) := Heap α ρ → Except Failure Unit × Heap α ρ

namespace Change

/-- One change after another, which is not begun if the first breaks off. -/
def andThen (first second : Change α ρ) : Change α ρ := fun heap =>
  match first heap with
  | (.ok _, after) => second after
  | (.error failure, after) => (.error failure, after)

/-- Changes one after the other up to the first that breaks off. -/
def all : List (Change α ρ) → Change α ρ
  | [] => fun heap => (.ok (), heap)
  | change :: changes => change.andThen (all changes)

/-- Promises room, or breaks off if storage can never have that much. -/
def reserve (limit additional : Nat) : Change α ρ := fun heap =>
  if heap.size + additional ≤ limit then
    (.ok (), { heap with spare := max heap.spare additional })
  else (.error .capacityOverflow, heap)

/-- Gives back the room that the elements do not take up. -/
def shrinkToFit : Change α ρ := fun heap => (.ok (), heap.shrinkToFit)

variable [Precedence ρ α]

/-- Adds one element. -/
def push (element : α) : Change α ρ := fun heap => (.ok (), heap.push element)

/-- Promises room for the announced number of elements, then adds one after the other. -/
def extend (limit : Nat) (batch : Batch α) : Change α ρ :=
  (reserve limit batch.announced).andThen (all (batch.elements.map push))

/-- Elements that are added one after the other are all added. -/
theorem all_push (heap : Heap α ρ) (elements : List α) :
    all (elements.map push) heap = (.ok (), heap.pushAll elements) := by
  induction elements generalizing heap with
  | nil => rfl
  | cons element elements hypothesis => exact hypothesis (heap.push element)

end Change

/-- A request in a row of insertions. -/
inductive Insertion (α : Type u) where
  /-- Add one element. -/
  | push (element : α)
  /-- Add the elements of a batch, given away or copied from where they are. -/
  | extend (batch : Batch α)
  /-- Promise room for more elements. -/
  | reserve (additional : Nat)
  /-- Give back room that is not taken up. -/
  | shrinkToFit
deriving DecidableEq

namespace Insertion

/-- The request as an operation. -/
def operation : Insertion α → Operation α
  | .push element => .push element
  | .extend batch => .extend batch
  | .reserve additional => .reserve additional
  | .shrinkToFit => .shrinkToFit

/-- The elements to be added. -/
def elements : Insertion α → List α
  | .push element => [element]
  | .extend batch => batch.elements
  | .reserve _ => []
  | .shrinkToFit => []

/-- The room that is asked for, if any is. -/
def request? : Insertion α → Option Nat
  | .push _ => none
  | .extend batch => some batch.announced
  | .reserve additional => some additional
  | .shrinkToFit => none

/-- The elements of the insertions that succeeded, in order. -/
def admitted : List (Insertion α) → List (Except Failure Unit) → List α
  | insertion :: insertions, .ok _ :: outcomes =>
    insertion.elements ++ admitted insertions outcomes
  | _ :: insertions, .error _ :: outcomes => admitted insertions outcomes
  | _, _ => []

variable [Precedence ρ α]

/-- What the request does to a heap. -/
def change (limit : Nat) : Insertion α → Change α ρ
  | .push element => Change.push element
  | .extend batch => Change.extend limit batch
  | .reserve additional => Change.reserve limit additional
  | .shrinkToFit => Change.shrinkToFit

variable {limit : Nat} {heap : Heap α ρ} {insertion : Insertion α}

/-- An insertion that asks for more room than there can be fails, and the heap stays as it is. -/
theorem change_of_exceeds {amount : Nat} (asks : insertion.request? = some amount)
    (exceeds : limit < heap.size + amount) :
    insertion.change limit heap = (.error .capacityOverflow, heap) := by
  have beyond : ¬ heap.size + amount ≤ limit := Nat.not_le_of_lt exceeds
  cases insertion with
  | push | shrinkToFit => simp [request?] at asks
  | extend batch =>
    obtain rfl : batch.announced = amount := Option.some.inj asks
    simp only [change, Change.extend, Change.andThen, Change.reserve, if_neg beyond]
  | reserve additional =>
    obtain rfl : additional = amount := Option.some.inj asks
    simp only [change, Change.reserve, if_neg beyond]

/-- Any other insertion succeeds, and adds its elements as if one by one. -/
theorem change_of_fits (fits : ∀ amount ∈ insertion.request?, heap.size + amount ≤ limit) :
    ∃ after, insertion.change limit heap = (.ok (), after) ∧ after.rule = heap.rule ∧
      after.storage = (heap.pushAll insertion.elements).storage := by
  cases insertion with
  | push element => exact ⟨heap.push element, rfl, rfl, rfl⟩
  | extend batch =>
    have within : heap.size + batch.announced ≤ limit := fits _ rfl
    let roomy : Heap α ρ := { heap with spare := max heap.spare batch.announced }
    refine ⟨roomy.pushAll batch.elements, ?_, Heap.rule_pushAll roomy batch.elements, ?_⟩
    · simp only [change, Change.extend, Change.andThen, Change.reserve, if_pos within]
      exact Change.all_push roomy batch.elements
    · apply Heap.storage_pushAll_congr
      · rfl
      · rfl
  | reserve additional =>
    have within : heap.size + additional ≤ limit := fits _ rfl
    exact ⟨_, if_pos within, rfl, rfl⟩
  | shrinkToFit => exact ⟨heap.shrinkToFit, rfl, rfl, rfl⟩

/-- An insertion fails for want of room and leaves the heap as it is, or it adds its elements. -/
theorem change_cases (limit : Nat) (heap : Heap α ρ) (insertion : Insertion α) :
    (∃ amount, insertion.request? = some amount ∧ limit < heap.size + amount ∧
      insertion.change limit heap = (.error .capacityOverflow, heap)) ∨
    ∃ after, insertion.change limit heap = (.ok (), after) ∧ after.rule = heap.rule ∧
      after.storage = (heap.pushAll insertion.elements).storage := by
  by_cases exceeds : ∃ amount ∈ insertion.request?, limit < heap.size + amount
  · obtain ⟨amount, asks, exceeds⟩ := exceeds
    exact .inl ⟨amount, asks, exceeds, change_of_exceeds asks exceeds⟩
  · refine .inr (change_of_fits ?_)
    intro amount asks
    exact Nat.le_of_not_lt fun beyond => exceeds ⟨amount, asks, beyond⟩

/-- An insertion that asks for room is refused exactly if there can never be that much. -/
theorem change_eq_error_iff {amount : Nat} (asks : insertion.request? = some amount) :
    insertion.change limit heap = (.error .capacityOverflow, heap) ↔
      limit < heap.size + amount := by
  constructor
  · intro refused
    obtain ⟨other, asks', exceeds, -⟩ | ⟨after, changed, -, -⟩ :=
      insertion.change_cases limit heap
    · obtain rfl : other = amount := Option.some.inj (asks'.symm.trans asks)
      exact exceeds
    · simp [changed] at refused
  · exact change_of_exceeds asks

/-- What the request does in steps is what the operation does. -/
theorem step_operation [Footprint α] (heap : Heap α ρ) (insertion : Insertion α) :
    heap.step insertion.operation =
      ((insertion.change (capacityLimit α) heap).1.map fun _ => .done,
        (insertion.change (capacityLimit α) heap).2) := by
  cases insertion with
  | push element => rfl
  | extend batch =>
    by_cases within : heap.size + batch.announced ≤ capacityLimit α
    · simp only [operation, Heap.step_extend_of_fits within, change, Change.extend,
        Change.andThen, Change.reserve, if_pos within, Change.all_push, Except.map]
    · rw [change_of_exceeds rfl (Nat.lt_of_not_le within)]
      exact Heap.step_extend_of_exceeds (Nat.lt_of_not_le within)
  | reserve additional =>
    by_cases within : heap.size + additional ≤ capacityLimit α
    · simp only [operation, Heap.step_reserve_of_fits within, change, Change.reserve,
        if_pos within, Except.map]
    · rw [change_of_exceeds rfl (Nat.lt_of_not_le within)]
      exact Heap.step_reserve_of_exceeds (Nat.lt_of_not_le within)
  | shrinkToFit => rfl

end Insertion

namespace Heap

variable [Precedence ρ α]

/-- What the insertions of a row come to, each made on the heap that the one before has left,
whether it succeeded or not, and the heap that the last one leaves. -/
def insertAll (limit : Nat) (heap : Heap α ρ) :
    List (Insertion α) → List (Except Failure Unit) × Heap α ρ
  | [] => ([], heap)
  | insertion :: insertions =>
    let (outcome, after) := insertion.change limit heap
    let (outcomes, last) := after.insertAll limit insertions
    (outcome :: outcomes, last)

variable {limit : Nat}

/-- A row of insertions leaves the heap that it would leave without those that fail, and adds the
elements of the others as if one by one. -/
theorem storage_insertAll (limit : Nat) (heap : Heap α ρ) (insertions : List (Insertion α)) :
    (heap.insertAll limit insertions).2.rule = heap.rule ∧
      (heap.insertAll limit insertions).2.storage =
        (heap.pushAll
          (Insertion.admitted insertions (heap.insertAll limit insertions).1)).storage := by
  induction insertions generalizing heap with
  | nil => exact ⟨rfl, rfl⟩
  | cons insertion insertions hypothesis =>
    obtain ⟨_, -, -, refused⟩ | ⟨after, changed, rule, storage⟩ :=
      insertion.change_cases limit heap
    · simp only [insertAll, refused, Insertion.admitted]
      exact hypothesis heap
    · obtain ⟨laterRule, laterStorage⟩ := hypothesis after
      simp only [insertAll, changed, Insertion.admitted]
      refine ⟨laterRule.trans rule, laterStorage.trans ?_⟩
      rw [pushAll_append]
      exact storage_pushAll_congr storage (rule.trans (rule_pushAll _ _).symm) _

/-- In a row in which no insertion fails all elements are admitted. -/
theorem admitted_insertAll (heap : Heap α ρ) (insertions : List (Insertion α))
    (granted : .error .capacityOverflow ∉ (heap.insertAll limit insertions).1) :
    Insertion.admitted insertions (heap.insertAll limit insertions).1 =
      insertions.flatMap Insertion.elements := by
  induction insertions generalizing heap with
  | nil => rfl
  | cons insertion insertions hypothesis =>
    obtain ⟨_, -, -, refused⟩ | ⟨after, changed, -, -⟩ := insertion.change_cases limit heap
    · simp [insertAll, refused] at granted
    · simp only [insertAll, changed, List.mem_cons, not_or] at granted
      simp only [insertAll, changed, Insertion.admitted, List.flatMap_cons,
        hypothesis after granted.2]

/-- A row of insertions is the run of the operations that are asked for. -/
theorem run_map_operation [Footprint α] (heap : Heap α ρ) (insertions : List (Insertion α)) :
    heap.run (insertions.map Insertion.operation) =
      ((heap.insertAll (capacityLimit α) insertions).1.map (Except.map fun _ => .done),
        (heap.insertAll (capacityLimit α) insertions).2) := by
  induction insertions generalizing heap with
  | nil => rfl
  | cons insertion insertions hypothesis =>
    simp only [List.map_cons, run, insertAll, Insertion.step_operation, hypothesis]

/-- The heap that comes of changing a new heap, if the change does not break off. -/
def made (result : Except Failure Unit × Heap α ρ) : Except Failure (Heap α ρ) :=
  result.1.map fun _ => result.2

/-- Promising room fails or gives the heap that it gives in steps. -/
theorem reserve_eq_made [Footprint α] (heap : Heap α ρ) (additional : Nat) :
    heap.reserve additional =
      made ((Insertion.reserve additional).change (capacityLimit α) heap) := by
  by_cases within : heap.size + additional ≤ capacityLimit α
  · simp only [reserve, made, Insertion.change, Change.reserve, if_pos within, Except.map]
  · simp only [reserve, made, Insertion.change, Change.reserve, if_neg within, Except.map]

/-- Adding a batch fails or gives the heap that it gives in steps. -/
theorem extend_eq_made [Footprint α] (heap : Heap α ρ) (batch : Batch α) :
    heap.extend batch = made ((Insertion.extend batch).change (capacityLimit α) heap) := by
  by_cases within : heap.size + batch.announced ≤ capacityLimit α
  · simp only [extend, reserve, made, Insertion.change, Change.extend, Change.andThen,
      Change.reserve, if_pos within, Change.all_push, Except.map]
  · simp only [extend, reserve, made, Insertion.change, Change.extend, Change.andThen,
      Change.reserve, if_neg within, Except.map]

/-- The ways to come by a heap for a row of insertions: it is there, or it is made empty, with room
or without, or of a first batch. The list has the elements that the heap before it was given. -/
inductive Begins [Footprint α] : Heap α ρ → List α → Heap α ρ → Prop
  | given (heap : Heap α ρ) : Begins heap [] heap
  | create {rule : ρ} {room : Nat} {heap : Heap α ρ}
      (created : Heap.create (some rule) room = .ok heap) : Begins (empty rule) [] heap
  | gather {rule : ρ} {batch : Batch α} {heap : Heap α ρ}
      (gathered : Heap.gather rule batch = .ok heap) : Begins (empty rule) batch.elements heap

/-- A beginning adds the elements of the first batch, if there is one, as if one by one. -/
theorem Begins.storage_eq [Footprint α] {bare start : Heap α ρ} {first : List α}
    (begins : Begins bare first start) :
    start.rule = bare.rule ∧ start.storage = (bare.pushAll first).storage := by
  cases begins with
  | given => exact ⟨rfl, rfl⟩
  | create created =>
    obtain ⟨-, rfl⟩ := reserve_eq_ok_iff.1 created
    exact ⟨rfl, rfl⟩
  | gather gathered => exact storage_of_extend gathered

end Heap

/-- However elements are added to a heap, one by one or in batches that announce what they like,
with room asked for and given back in between, and however the heap was made: the storage is that of
adding the elements one by one, in order, except for the insertions that are refused. An insertion
is refused for want of room only, and then leaves the heap as it was. From half the range of a word
on, room for elements that take up space is always refused; room for elements that take up none is
refused exactly if these could not be counted together with those that are there. The operations of
a heap, and what makes one, are such insertions, under a limit of this kind. -/
theorem insertions_add_one_by_one [Precedence ρ α] [Footprint α] {limit : Nat}
    (limits : IsStorageLimit α limit) {bare start : Heap α ρ} {first : List α}
    (begins : Heap.Begins bare first start) (insertions : List (Insertion α)) :
    (let row := start.insertAll limit insertions
     row.2.rule = bare.rule ∧
      row.2.storage = (bare.pushAll (first ++ Insertion.admitted insertions row.1)).storage ∧
      (.error .capacityOverflow ∉ row.1 → row.2.storage =
        (bare.pushAll (first ++ insertions.flatMap Insertion.elements)).storage)) ∧
    (∀ (heap : Heap α ρ) (insertion : Insertion α) failure after,
      insertion.change limit heap = (.error failure, after) →
        failure = .capacityOverflow ∧ after = heap) ∧
    (∀ (heap : Heap α ρ) (insertion : Insertion α) amount, insertion.request? = some amount →
      (Footprint.zeroSized α = false → UInt64.size / 2 ≤ amount →
        insertion.change limit heap = (.error .capacityOverflow, heap)) ∧
      (Footprint.zeroSized α = true →
        (insertion.change limit heap = (.error .capacityOverflow, heap) ↔
          UInt64.size - 1 < heap.size + amount))) ∧
    (IsStorageLimit α (capacityLimit α) ∧ start.run (insertions.map Insertion.operation) =
      ((start.insertAll (capacityLimit α) insertions).1.map (Except.map fun _ => .done),
        (start.insertAll (capacityLimit α) insertions).2)) ∧
    (∀ room, Heap.create (some bare.rule) room =
      Heap.made ((Insertion.reserve room).change (capacityLimit α) (Heap.empty bare.rule))) ∧
    ∀ batch, Heap.gather bare.rule batch =
      Heap.made ((Insertion.extend batch).change (capacityLimit α) (Heap.empty bare.rule)) := by
  obtain ⟨rule, storage⟩ := begins.storage_eq
  obtain ⟨lastRule, lastStorage⟩ := start.storage_insertAll limit insertions
  have added : ∀ elements, (start.pushAll elements).storage =
      (bare.pushAll (first ++ elements)).storage := by
    intro elements
    rw [Heap.pushAll_append]
    exact Heap.storage_pushAll_congr storage (rule.trans (Heap.rule_pushAll _ _).symm) elements
  refine ⟨⟨lastRule.trans rule, lastStorage.trans (added _), ?_⟩, ?_, ?_,
    ⟨isStorageLimit_capacityLimit, start.run_map_operation insertions⟩,
    fun room => Heap.reserve_eq_made _ room, fun batch => Heap.extend_eq_made _ batch⟩
  · intro granted
    rw [lastStorage, Heap.admitted_insertAll start insertions granted]
    exact added _
  · intro heap insertion failure after broken
    obtain ⟨_, -, -, refused⟩ | ⟨_, changed, -, -⟩ := insertion.change_cases limit heap
    · rw [refused, Prod.mk.injEq, Except.error.injEq] at broken
      exact ⟨broken.1.symm, broken.2.symm⟩
    · simp [changed] at broken
  · intro heap insertion amount asks
    rw [Insertion.change_eq_error_iff asks]
    constructor
    · intro sized vast
      have bound : limit ≤ UInt64.size / 2 - 1 := limits.block sized
      have words : 0 < UInt64.size / 2 := by decide
      omega
    · intro sizeless
      rw [limits.word sizeless]
      exact Iff.rfl

/-- Integers of eight bytes each are added to two from an array. A batch that announces a quarter of
the range of a word is refused, and one that announces seven elements and has none adds nothing. -/
theorem insertions_of_integers_add_one_by_one :
    let limit := blockLimit / 8
    let bare : Heap Int (Natural Int) := .empty ⟨⟩
    let insertions : List (Insertion Int) := [.extend ⟨[4, 0], 0⟩, .extend ⟨[9], UInt64.size / 4⟩,
      .reserve 100, .push 2, .extend ⟨[], 7⟩, .shrinkToFit]
    IsStorageLimit Int limit ∧ ∃ start, Heap.Begins bare [3, 1] start ∧
      (start.insertAll limit insertions).1.map Except.isOk =
        [true, false, true, true, true, true] ∧
      (bare.pushAll [3, 1, 4, 0, 2]).storage = #[0, 1, 4, 3, 2] ∧
      (start.insertAll limit insertions).2.storage = #[0, 1, 4, 3, 2] := by
  intro limit bare insertions
  have limits : IsStorageLimit Int limit :=
    ⟨fun _ => Nat.div_le_self blockLimit 8, fun sizeless => absurd sizeless (by decide)⟩
  have gathered : Heap.gather bare.rule (.ofList [3, 1]) = .ok (bare.pushAll [3, 1]) := rfl
  have begins : Heap.Begins bare [3, 1] _ := .gather gathered
  have admitted : Insertion.admitted insertions
      ((bare.pushAll [3, 1]).insertAll limit insertions).1 = [4, 0, 2] := by
    decide +kernel
  have added := (insertions_add_one_by_one limits begins insertions).1.2.1
  have singly : (bare.pushAll [3, 1, 4, 0, 2]).storage = #[0, 1, 4, 3, 2] :=
    Array.toList_inj.1 (by decide +kernel)
  rw [admitted] at added
  exact ⟨limits, _, begins, by decide +kernel, singly, added.trans singly⟩

end PriorityQueue
