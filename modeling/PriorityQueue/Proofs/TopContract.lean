import PriorityQueue.Operation.Lemmas
import PriorityQueue.Proofs.Invariant
import PriorityQueue.Proofs.NumberOrder

/-!
# What the top requires of the rule

A queue promises that no stored element precedes the one at its top. Runs of additions and
removals keep this promise exactly for the rules that are strict weak orders. A rule that is not
one is found out by additions alone, of at most four elements: their places in storage follow from
the few answers of the rule that violate the order.
-/

namespace PriorityQueue

universe u v

variable {α : Type u} {ρ : Type v}

/-- An operation that adds one element or takes one out. -/
def Operation.PushesOrPops : Operation α → Prop
  | .push _ => True
  | .pop => True
  | _ => False

variable [Precedence ρ α]

/-- A heap with elements has a top, and none of its elements precedes the top. -/
def Heap.TopMinimal (heap : Heap α ρ) : Prop :=
  heap.toList ≠ [] → ∃ top, heap.top = .ok top ∧
    ∀ element ∈ heap.toList, precedes heap.rule element top = false

/-- In every state that additions and removals reach, no element precedes the top. -/
def TopContract [Footprint α] (rule : ρ) : Prop :=
  ∀ operations : List (Operation α), (∀ operation ∈ operations, operation.PushesOrPops) →
    ((Heap.empty rule).run operations).2.TopMinimal

namespace Heap

/-- A ranked heap has a minimal top. -/
theorem Ranked.topMinimal {heap : Heap α ρ} (ranked : heap.Ranked) : heap.TopMinimal := by
  intro nonempty
  obtain ⟨first, found, -, least⟩ := ranked.rankedBy.exists_top nonempty
  exact ⟨first, found, least⟩

/-- An element appended right below the root comes to the top if it precedes the root. -/
theorem peek?_push_of_climbs {heap : Heap α ρ} {element : α} (first : α)
    (below : 0 < heap.storage.size) (child : parent heap.storage.size = 0)
    (top : heap.peek? = some first) (climbs : precedes heap.rule element first = true) :
    (heap.push element).peek? = some element := by
  obtain ⟨nonempty, rfl⟩ := Array.getElem?_eq_some_iff.1 top
  unfold push peek?
  dsimp only
  rw [siftUp_of_less (by simp) (by simp [child]) below
    (by simp [child, Array.getElem_push_lt nonempty, climbs])]
  simp only [child, siftUp_root]
  simp

end Heap

namespace TopContract

variable [Footprint α] {rule : ρ}

/-- Under the contract no added element precedes the top. -/
theorem not_less_of_pushAll (contract : TopContract rule) (elements : List α) {top element : α}
    (next : ((Heap.empty rule).pushAll elements).peek? = some top) (member : element ∈ elements) :
    precedes rule element top = false := by
  have minimal := contract (elements.map .push) (by simp [Operation.PushesOrPops])
  rw [Heap.run_map_push] at minimal
  have stored : element ∈ ((Heap.empty rule).pushAll elements).toList := by
    apply (Heap.toList_pushAll_perm (Heap.empty rule) elements).symm.subset
    exact List.mem_append_left _ member
  obtain ⟨first, found, least⟩ := minimal (List.ne_nil_of_mem stored)
  simp only [Heap.top, next, Except.ok.injEq] at found
  subst found
  rw [Heap.rule_pushAll, Heap.rule_empty] at least
  exact least element stored

/-- Under the contract no element precedes itself: it is the top when it is alone. -/
theorem irreflexive (contract : TopContract rule) (element : α) :
    precedes rule element element = false := by
  have settled : ((Heap.empty rule).push element).storage = #[element] :=
    Heap.storage_push_of_stays (by simp [Heap.empty])
  apply contract.not_less_of_pushAll [element]
  · simp [Heap.peek?, settled]
  · simp

/-- Under the contract precedence is one way: an element that precedes the only other one becomes
the top. -/
theorem asymmetric (contract : TopContract rule) {first second : α}
    (before : precedes rule first second = true) : precedes rule second first = false := by
  have settled : ((Heap.empty rule).push second).storage = #[second] :=
    Heap.storage_push_of_stays (by simp [Heap.empty])
  apply contract.not_less_of_pushAll [second, first]
  · apply Heap.peek?_push_of_climbs second
    · simp [settled]
    · simp [settled, parent]
    · simp [Heap.peek?, settled]
    · simpa using before
  · simp

/-- Under the contract a failure to precede is carried along chains: behind two copies of the
middle element the first one never meets the third, which stays at the top. -/
theorem not_less_trans (contract : TopContract rule) {first second third : α}
    (upper : precedes rule first second = false) (lower : precedes rule second third = false) :
    precedes rule first third = false := by
  have one : ((Heap.empty rule).push third).storage = #[third] :=
    Heap.storage_push_of_stays (by simp [Heap.empty])
  have two : (((Heap.empty rule).push third).push second).storage = #[third, second] := by
    rw [Heap.storage_push_of_stays, one]
    · rfl
    · simp [one, parent, lower]
  have three : ((((Heap.empty rule).push third).push second).push second).storage =
      #[third, second, second] := by
    rw [Heap.storage_push_of_stays, two]
    · rfl
    · simp [two, parent, lower]
  have four : (((((Heap.empty rule).push third).push second).push second).push first).storage =
      #[third, second, second, first] := by
    rw [Heap.storage_push_of_stays, three]
    · rfl
    · simp [three, parent, upper]
  apply contract.not_less_of_pushAll [third, second, second, first]
  · simp [Heap.peek?, four]
  · simp

/-- A rule that keeps the contract is a strict weak order. -/
theorem strictWeakOrder (contract : TopContract rule) : StrictWeakOrder (precedes rule) where
  irreflexive := contract.irreflexive
  transitive first second third before after := by
    cases outer : precedes rule first third with
    | true => rfl
    | false =>
      have back := contract.asymmetric after
      have never := contract.not_less_trans outer back
      rw [before] at never
      exact absurd never (by decide)
  tiesTransitive first second third upper lower :=
    ⟨contract.not_less_trans upper.1 lower.1, contract.not_less_trans lower.2 upper.2⟩

end TopContract

/-- A strict weak order keeps the contract. -/
theorem StrictWeakOrder.topContract [Footprint α] {rule : ρ}
    (order : StrictWeakOrder (precedes rule)) : TopContract rule := by
  intro operations _
  have start : (Heap.empty rule).Ranked := .of_vacant order rfl
  exact (Heap.invariant_ranked.run start operations).topMinimal

/-- Additions and removals never bring an element to the top that another one precedes exactly if
the rule is a strict weak order. Irreflexivity alone does not do, nor does a strict partial
order. -/
theorem topContract_iff_strictWeakOrder [Footprint α] (rule : ρ) :
    (TopContract rule ↔ StrictWeakOrder (precedes rule)) ∧
    (∃ less : Int → Int → Bool, (∀ element, less element element = false) ∧
      ¬ TopContract less) ∧
    ∃ less : Nat → Nat → Bool, StrictPartialOrder less ∧ ¬ TopContract less := by
  refine ⟨⟨TopContract.strictWeakOrder, StrictWeakOrder.topContract⟩, ?_, ?_⟩
  · refine ⟨beatsInCircle, beatsInCircle_irreflexive, ?_⟩
    intro contract
    exact not_strictWeakOrder_beatsInCircle contract.strictWeakOrder
  · refine ⟨divisorFirst, strictPartialOrder_divisorFirst, ?_⟩
    intro contract
    exact not_strictWeakOrder_divisorFirst contract.strictWeakOrder

end PriorityQueue
