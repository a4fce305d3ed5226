import PriorityQueue.Proofs.Bag
import PriorityQueue.Proofs.NumberOrder

/-!
# The queue as a list in order

The simplest model of a queue is a list kept in order: elements are inserted where they belong,
and the head is the one to leave. When the rule ranks the elements and never ties distinct ones,
a bag allows only what this model answers, so a heap, whose steps its bag allows, shows the same
elements as the list over every run.
-/

namespace PriorityQueue

universe u v

variable {α : Type u} {ρ : Type v}

namespace Ranking

/-- Puts an element before the first one that does not precede it. -/
def insert (less : α → α → Bool) (element : α) (ranking : List α) : List α :=
  ranking.orderedInsert (fun left right => less right left = false) element

/-- Puts elements in one after the other. -/
def insertAll (less : α → α → Bool) (elements ranking : List α) : List α :=
  elements.foldl (fun longer element => insert less element longer) ranking

variable [Precedence ρ α] [Footprint α]

/-- The single element that an operation asks of a list in order, and the list afterwards. -/
def step (rule : ρ) (ranking : List α) : Operation α → Option (Option α) × List α
  | .push element => (none, insert (precedes rule) element ranking)
  | .extend batch =>
    (none,
      if ranking.length + batch.announced ≤ capacityLimit α then
        insertAll (precedes rule) batch.elements ranking
      else ranking)
  | .pop => (some ranking.head?, ranking.tail)
  | .peek => (some ranking.head?, ranking)
  | .top => (ranking.head?.map some, ranking)
  | .popAll => (none, [])
  | .clear => (none, [])
  | .drain _ => (none, [])
  | _ => (none, ranking)

/-- The single elements that operations made one after the other ask of a list in order. -/
def run (rule : ρ) : List α → List (Operation α) → List (Option (Option α))
  | _, [] => []
  | ranking, operation :: operations =>
    (step rule ranking operation).1 :: run rule (step rule ranking operation).2 operations

/-- The single element that an outcome shows, which an optional answer may lack. -/
def shown : Except Failure (Answer α ρ) → Option (Option α)
  | .ok (.item element) => some element
  | .ok (.element element) => some (some element)
  | _ => none

end Ranking

/-- Insertion adds the element. -/
theorem Ranking.insert_perm (less : α → α → Bool) (element : α) (ranking : List α) :
    (insert less element ranking).Perm (element :: ranking) :=
  List.perm_orderedInsert _ element ranking

/-- Insertion keeps a list in order. -/
theorem Ranking.nonDecreasing_insert {less : α → α → Bool} (order : StrictWeakOrder less)
    (element : α) {ranking : List α} (sorted : NonDecreasing less ranking) :
    NonDecreasing less (insert less element ranking) := by
  have total : Std.Total fun left right => less right left = false := by
    constructor
    intro left right
    cases before : less right left with
    | false => exact .inl rfl
    | true => exact .inr (order.asymmetric before)
  have trans : IsTrans α fun left right => less right left = false :=
    ⟨fun first second third lower upper => order.not_less_trans upper lower⟩
  exact List.Pairwise.orderedInsert element ranking sorted

/-- Insertion of several elements adds them. -/
theorem Ranking.insertAll_perm (less : α → α → Bool) (elements ranking : List α) :
    (insertAll less elements ranking).Perm (elements ++ ranking) := by
  induction elements generalizing ranking with
  | nil => exact .refl _
  | cons element elements hypothesis =>
    refine (hypothesis (insert less element ranking)).trans ?_
    refine ((insert_perm less element ranking).append_left elements).trans ?_
    exact List.perm_middle

/-- Insertion of several elements keeps a list in order. -/
theorem Ranking.nonDecreasing_insertAll {less : α → α → Bool} (order : StrictWeakOrder less)
    (elements : List α) {ranking : List α} (sorted : NonDecreasing less ranking) :
    NonDecreasing less (insertAll less elements ranking) := by
  induction elements generalizing ranking with
  | nil => exact sorted
  | cons element elements hypothesis =>
    exact hypothesis (nonDecreasing_insert order element sorted)

/-- If distinct elements are never tied, what a bag may give is the head of its list in order. -/
theorem Bag.Releases.eq_cons {less : α → α → Bool} {bag rest : Multiset α} {first : α}
    (releases : Bag.Releases less bag first rest) (decisive : Decisive less) {ranking : List α}
    (same : (ranking : Multiset α) = bag) (sorted : NonDecreasing less ranking) :
    ∃ tail, ranking = first :: tail ∧ (tail : Multiset α) = rest := by
  have member : first ∈ ranking := by
    rw [← Multiset.mem_coe, same, releases.split]
    exact Multiset.mem_cons_self first rest
  cases ranking with
  | nil => exact absurd member List.not_mem_nil
  | cons head tail =>
    have headIn : head ∈ bag := by
      rw [← same]
      exact List.mem_cons_self
    have upper : less first head = false := by
      rcases List.mem_cons.1 member with rfl | later
      · exact releases.minimal first headIn
      · exact List.rel_of_pairwise_cons sorted later
    have equal : head = first := decisive head first ⟨releases.minimal head headIn, upper⟩
    subst equal
    refine ⟨tail, rfl, ?_⟩
    have split : head ::ₘ (tail : Multiset α) = head ::ₘ rest := same.trans releases.split
    exact (Multiset.cons_inj_right head).1 split

section Refinement

variable [Precedence ρ α] [Footprint α] {rule : ρ}

/-- A list in order shows what a bag of the same elements allows, and keeps up with it. -/
theorem Bag.Step.follows_ranking (order : StrictWeakOrder (precedes rule))
    (decisive : Decisive (precedes rule)) {bag after : Multiset α} {operation : Operation α}
    {outcome : Except Failure (Answer α ρ)} (step : Bag.Step rule bag operation outcome after)
    {ranking : List α} (same : (ranking : Multiset α) = bag)
    (sorted : NonDecreasing (precedes rule) ranking) :
    Ranking.shown outcome = (Ranking.step rule ranking operation).1 ∧
      ((Ranking.step rule ranking operation).2 : Multiset α) = after ∧
      NonDecreasing (precedes rule) (Ranking.step rule ranking operation).2 := by
  have counted : bag.card = ranking.length := by rw [← same, Multiset.coe_card]
  cases step with
  | push _ element =>
    refine ⟨rfl, ?_, Ranking.nonDecreasing_insert order element sorted⟩
    rw [← same]
    exact Multiset.coe_eq_coe.2 (Ranking.insert_perm (precedes rule) element ranking)
  | extend _ batch fits =>
    rw [counted] at fits
    simp only [Ranking.step, if_pos fits]
    refine ⟨rfl, ?_, Ranking.nonDecreasing_insertAll order batch.elements sorted⟩
    rw [← same, Multiset.coe_add]
    exact Multiset.coe_eq_coe.2 (Ranking.insertAll_perm (precedes rule) batch.elements ranking)
  | extendRefused _ batch exceeds =>
    rw [counted] at exceeds
    simp only [Ranking.step, if_neg (Nat.not_le.2 exceeds)]
    exact ⟨rfl, same, sorted⟩
  | pop releases =>
    obtain ⟨tail, rfl, rest⟩ := releases.eq_cons decisive same sorted
    exact ⟨rfl, rest, sorted.tail⟩
  | popEmpty | peekEmpty | topEmpty =>
    have vacant : ranking = [] := by simpa using same
    subst vacant
    exact ⟨rfl, rfl, sorted⟩
  | top releases | peek releases =>
    obtain ⟨tail, rfl, -⟩ := releases.eq_cons decisive same sorted
    exact ⟨rfl, same, sorted⟩
  | popAll | clear | drain => exact ⟨rfl, rfl, .nil⟩
  | _ => exact ⟨rfl, same, sorted⟩

/-- A ranked heap and a list of the same elements in order show the same over a run. -/
theorem Ranking.shown_run (decisive : Decisive (precedes rule)) {heap : Heap α ρ}
    (ranked : heap.Ranked) (ruled : heap.rule = rule) {ranking : List α}
    (same : (ranking : Multiset α) = heap.bag) (sorted : NonDecreasing (precedes rule) ranking)
    (operations : List (Operation α)) :
    (heap.run operations).1.map shown = run rule ranking operations := by
  have order : StrictWeakOrder (precedes rule) := by
    rw [← ruled]
    exact ranked.order
  induction operations generalizing heap ranking with
  | nil => rfl
  | cons operation operations hypothesis =>
    have allowed := ranked.bag_step operation
    rw [ruled] at allowed
    obtain ⟨shows, sameAfter, sortedAfter⟩ := allowed.follows_ranking order decisive same sorted
    have later := hypothesis (Heap.invariant_ranked.step ranked operation)
      ((Heap.invariant_rule rule).step ruled operation) sameAfter sortedAfter
    simp only [Heap.run, run, List.map_cons, shows, later]

/-- A heap that starts empty under a strict weak order is simulated by a bag. Its runs are runs that
the empty bag allows, and in the state that a run reaches the next step, whichever it is, is one
that the bag of the stored elements allows, while a look at the top shows what a removal would
give. If the rule never ties distinct elements, a list in order shows the same elements. -/
theorem run_refines_bag {start : Heap α ρ} (order : StrictWeakOrder (precedes start.rule))
    (vacant : start.toList = []) (operations : List (Operation α)) :
    Bag.Run start.rule 0 operations (start.run operations).1 (start.run operations).2.bag ∧
    (let heap := (start.run operations).2
     (∀ operation, Bag.Step start.rule heap.bag operation (heap.step operation).1
        (heap.step operation).2.bag) ∧
      (heap.step .peek).1 = (heap.step .pop).1) ∧
    (Decisive (precedes start.rule) →
      (start.run operations).1.map Ranking.shown = Ranking.run start.rule [] operations) := by
  have ranked : start.Ranked := .of_vacant order vacant
  have empty : start.bag = 0 := by
    rw [Heap.bag, vacant]
    rfl
  refine ⟨?_, ⟨?_, ?_⟩, ?_⟩
  · rw [← empty]
    exact ranked.bag_run operations
  · intro operation
    have rule : (start.run operations).2.rule = start.rule :=
      (Heap.invariant_rule start.rule).run rfl operations
    rw [← rule]
    exact (Heap.invariant_ranked.run ranked operations).bag_step operation
  · generalize (start.run operations).2 = heap
    simp only [Heap.step, Heap.perform, Heap.peek?_eq_map_pop?]
    cases heap.pop? with
    | none => rfl
    | some removal => rfl
  · intro decisive
    exact Ranking.shown_run decisive ranked rfl empty.symm .nil operations

end Refinement

/-- Four integers added in two ways leave and show themselves in the order of a list. -/
theorem run_refines_bag_of_integers :
    let start : Heap Int (Natural Int) := .empty ⟨⟩
    let operations := [.push 3, .extend ⟨[5, 1, 4], 2⟩, .pop, .pop, .peek, .clear, .pop]
    StrictWeakOrder (precedes start.rule) ∧ start.toList = [] ∧
      (start.run operations).1.map Ranking.shown =
        [none, none, some (some 1), some (some 3), some (some 4), none, some none] := by
  intro start operations
  have order : StrictWeakOrder (precedes start.rule) := strictWeakOrder_int
  have vacant : start.toList = [] := rfl
  have listed := (run_refines_bag order vacant operations).2.2 decisive_int
  refine ⟨order, vacant, listed.trans ?_⟩
  decide

end PriorityQueue
