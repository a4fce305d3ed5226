import PriorityQueue.Proofs.Invariant
import PriorityQueue.Proofs.NumberOrder
import PriorityQueue.Workspace

/-!
# Heap order in a workspace

Heaps enter a workspace empty or with a batch, move between its slots with their rules, and change
in place. A property that elementary changes keep and that the empty heaps of all rules brought in
have therefore holds of every heap in every state of a run. Heap order is such a property when the
rules rank the elements, whichever rules they are.
-/

namespace PriorityQueue

universe u v

variable {α : Type u} {ρ : Type v}

/-- The rule that a command brings into a workspace, if it brings one. -/
def Command.rule? : Command α ρ → Option ρ
  | .create _ rule _ => rule
  | .gather _ rule _ => some rule
  | _ => none

namespace Workspace

/-- Every heap in a slot has the property. -/
def All (holds : Heap α ρ → Prop) (workspace : Workspace α ρ) : Prop :=
  ∀ slot heap, workspace.get? slot = some heap → holds heap

variable {holds : Heap α ρ → Prop} {workspace : Workspace α ρ}

/-- Vacant slots have every property. -/
theorem all_empty (holds : Heap α ρ → Prop) : All holds empty := by
  intro slot heap found
  simp [get?, empty, find?] at found

/-- A heap put into a slot joins the others. -/
theorem All.put (all : workspace.All holds) (slot : Nat) {heap : Heap α ρ} (joins : holds heap) :
    (workspace.put slot heap).All holds := by
  intro other stored found
  rw [get?_put] at found
  split at found
  · rw [← Option.some.inj found]
    exact joins
  · exact all other stored found

/-- A slot may be made vacant. -/
theorem All.remove (all : workspace.All holds) (slot : Nat) :
    (workspace.remove slot).All holds := by
  intro other stored found
  rw [get?_remove] at found
  split at found
  · simp at found
  · exact all other stored found

variable [Precedence ρ α] [Footprint α]

/-- A command that is not refused keeps an invariant of all heaps, if the empty heap of any rule
that it brings in has it. -/
theorem All.perform (invariant : Heap.Invariant holds) (all : workspace.All holds)
    {command : Command α ρ} (fresh : ∀ rule, command.rule? = some rule → holds (.empty rule))
    {answer : Answer α ρ} {after : Workspace α ρ}
    (performed : workspace.perform command = .ok (answer, after)) : after.All holds := by
  cases command with
  | create slot rule room =>
    cases rule with
    | none => simp [Workspace.perform, Heap.create] at performed
    | some rule =>
      cases granted : (Heap.empty rule : Heap α ρ).reserve room with
      | error failure => simp [Workspace.perform, Heap.create, granted] at performed
      | ok heap =>
        simp only [Workspace.perform, Heap.create, granted, Except.ok.injEq, Prod.mk.injEq]
          at performed
        rw [← performed.2]
        exact all.put slot (invariant.reserve (fresh rule rfl) granted)
  | gather slot rule batch =>
    cases made : (Heap.empty rule : Heap α ρ).extend batch with
    | error failure => simp [Workspace.perform, Heap.gather, made] at performed
    | ok heap =>
      simp only [Workspace.perform, Heap.gather, made, Except.ok.injEq, Prod.mk.injEq] at performed
      rw [← performed.2]
      exact all.put slot (invariant.extend (fresh rule rfl) made)
  | operate slot operation =>
    cases found : workspace.get? slot with
    | none => simp [Workspace.perform, found] at performed
    | some heap =>
      cases outcome : heap.perform operation with
      | error failure => simp [Workspace.perform, found, outcome] at performed
      | ok change =>
        simp only [Workspace.perform, found, outcome, Except.ok.injEq, Prod.mk.injEq] at performed
        rw [← performed.2]
        exact all.put slot (invariant.perform (all slot heap found) outcome)
  | finish slot ending =>
    cases found : workspace.get? slot with
    | none => simp [Workspace.perform, found] at performed
    | some heap =>
      simp only [Workspace.perform, found, Except.ok.injEq, Prod.mk.injEq] at performed
      rw [← performed.2]
      exact all.remove slot
  | copy slot target =>
    cases found : workspace.get? slot with
    | none => simp [Workspace.perform, found] at performed
    | some heap =>
      simp only [Workspace.perform, found, Except.ok.injEq, Prod.mk.injEq] at performed
      rw [← performed.2]
      exact all.put target (invariant.room heap 0 (all slot heap found))
  | assign slot source =>
    by_cases same : slot = source
    · simp [Workspace.perform, same] at performed
    cases found : workspace.get? slot with
    | none => simp [Workspace.perform, same, found] at performed
    | some heap =>
      cases origin : workspace.get? source with
      | none => simp [Workspace.perform, same, found, origin] at performed
      | some other =>
        simp only [Workspace.perform, if_neg same, found, origin, Except.ok.injEq,
          Prod.mk.injEq] at performed
        rw [← performed.2]
        -- The elements come together with the rule under which they are in order.
        exact all.put slot (invariant.room other _ (all source other origin))

/-- A command keeps an invariant of all heaps, whether it is refused or not. -/
theorem All.step (invariant : Heap.Invariant holds) (all : workspace.All holds)
    (command : Command α ρ) (fresh : ∀ rule, command.rule? = some rule → holds (.empty rule)) :
    (workspace.step command).2.All holds := by
  unfold Workspace.step
  cases performed : workspace.perform command with
  | error refusal => exact all
  | ok outcome => exact all.perform invariant fresh performed

/-- An invariant of all heaps holds in every state of a run, if the empty heaps of all rules that
are brought in have it. -/
theorem All.run (invariant : Heap.Invariant holds) (all : workspace.All holds)
    (commands : List (Command α ρ))
    (fresh : ∀ command ∈ commands, ∀ rule, command.rule? = some rule → holds (.empty rule)) :
    ∀ state ∈ workspace.run commands, state.2.All holds := by
  induction commands generalizing workspace with
  | nil =>
    intro state member
    exact absurd member List.not_mem_nil
  | cons command commands hypothesis =>
    have next := all.step invariant command (fresh command List.mem_cons_self)
    intro state member
    rcases List.mem_cons.1 member with rfl | later
    · exact next
    · exact hypothesis next (fun other member => fresh other (List.mem_cons_of_mem _ member))
        state later

end Workspace

/-- Whatever is done with any number of heaps whose rules are strict weak orders, in every state
each heap is in order under its own rule, which is still a strict weak order. -/
theorem run_keeps_heap_order [Precedence ρ α] [Footprint α] (commands : List (Command α ρ))
    (ranking : ∀ command ∈ commands, ∀ rule, command.rule? = some rule →
      StrictWeakOrder (precedes rule)) :
    ∀ state ∈ (Workspace.empty : Workspace α ρ).run commands,
      ∀ slot heap, state.2.get? slot = some heap →
        StrictWeakOrder (precedes heap.rule) ∧
        ∀ child (inside : child < heap.storage.size), 0 < child →
          precedes heap.rule heap.storage[child] heap.storage[(child - 1) / 2] = false := by
  have fresh : ∀ command ∈ commands, ∀ rule, command.rule? = some rule →
      (Heap.empty rule : Heap α ρ).Ranked := by
    intro command member rule brought
    exact .of_vacant (ranking command member rule brought) rfl
  intro state member slot heap found
  have ranked : heap.Ranked :=
    (Workspace.all_empty _).run Heap.invariant_ranked commands fresh state member slot heap found
  refine ⟨ranked.order, ?_⟩
  intro child inside below
  have higher : parent child < child := parent_lt below
  exact heapOrdered_iff.1 ranked.ordered child inside (by omega) below

/-- Two heaps of integers under opposite rules stay in order. The first of them takes over the
other's elements and rule, and then has the greatest element first. The last three commands are
refused. -/
theorem opposite_rules_keep_heap_order :
    let upward : Int → Int → Bool := NaturalOrder.lt
    let downward : Int → Int → Bool := fun left right => upward right left
    let commands : List (Command Int (Int → Int → Bool)) :=
      [.create 0 (some upward) 4, .operate 0 (.push 3), .operate 0 (.extend ⟨[1, 2], 2⟩),
        .gather 1 downward ⟨[4, 7, 5], 3⟩, .assign 0 1, .operate 0 .pop, .operate 1 .clear,
        .operate 1 .top, .create 2 none 0, .operate 0 (.reserve wordLimit)]
    let states := (Workspace.empty : Workspace Int (Int → Int → Bool)).run commands
    (∀ command ∈ commands, ∀ rule, command.rule? = some rule →
      StrictWeakOrder (precedes rule)) ∧
    states.map (fun state => (state.2.get? 0).map Heap.toList) =
      [some [], some [3], some [1, 3, 2], some [1, 3, 2], some [7, 4, 5], some [5, 4],
        some [5, 4], some [5, 4], some [5, 4], some [5, 4]] ∧
    states.map (fun state => state.1.isOk) =
      [true, true, true, true, true, true, true, false, false, false] ∧
    ∀ state ∈ states, ∀ slot heap, state.2.get? slot = some heap →
      StrictWeakOrder (precedes heap.rule) ∧
      ∀ child (inside : child < heap.storage.size), 0 < child →
        precedes heap.rule heap.storage[child] heap.storage[(child - 1) / 2] = false := by
  intro upward downward commands states
  have ranking : ∀ command ∈ commands, ∀ rule, command.rule? = some rule →
      StrictWeakOrder (precedes rule) := by
    intro command member rule brought
    simp only [commands, List.mem_cons, List.not_mem_nil, or_false] at member
    rcases member with rfl | rfl | rfl | rfl | rfl | rfl | rfl | rfl | rfl | rfl <;>
      simp only [Command.rule?, Option.some.injEq, reduceCtorEq] at brought
    · rw [← brought]
      exact strictWeakOrder_int
    · rw [← brought]
      exact strictWeakOrder_int.backwards
  exact ⟨ranking, by decide +kernel, by decide +kernel, run_keeps_heap_order commands ranking⟩

end PriorityQueue
