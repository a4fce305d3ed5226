import PriorityQueue.Operation

/-!
# Workspaces

A workspace has numbered slots, each holding a heap or nothing. A command makes a heap in a slot,
puts an operation to the heap of a slot, uses that heap up, or copies between slots. A command
that needs a heap and finds a vacant slot is refused before anything else is looked at, and a
command that fails leaves every slot as it was.
-/

namespace PriorityQueue

universe u v

/-- Numbered slots that hold heaps; a number without an entry is a vacant slot. -/
structure Workspace (α : Type u) (ρ : Type v) where
  /-- The occupied slots and their heaps. -/
  entries : List (Nat × Heap α ρ)

/-- Why a command was not carried out. -/
inductive Refusal where
  /-- A heap was needed and its slot is vacant. -/
  | vacant
  /-- The heap was there and its operation failed, or no heap could be made. -/
  | failed (failure : Failure)
deriving DecidableEq

/-- The text of a refusal; a vacant slot needs no words. -/
def Refusal.message : Refusal → String
  | .vacant => ""
  | .failed failure => failure.message

/-- A way to use a heap up. -/
inductive Ending where
  /-- Give its elements in level order. -/
  | storage
  /-- Give its elements in the order they would leave. -/
  | sorted
  /-- Give its elements to a cursor. -/
  | walk (steps : List Cursor.Step)
deriving DecidableEq

/-- What may be asked of a workspace. -/
inductive Command (α : Type u) (ρ : Type v) where
  /-- Put an empty heap with room into a slot. -/
  | create (slot : Nat) (rule : Option ρ) (room : Nat)
  /-- Put a heap of the elements of a batch into a slot. -/
  | gather (slot : Nat) (rule : ρ) (batch : Batch α)
  /-- Put an operation to the heap of a slot. -/
  | operate (slot : Nat) (operation : Operation α)
  /-- Use up the heap of a slot, which becomes vacant. -/
  | finish (slot : Nat) (ending : Ending)
  /-- Put a copy of the heap of a slot into another slot. -/
  | copy (slot target : Nat)
  /-- Give the heap of a slot the elements and the rule of the heap of another slot. -/
  | assign (slot source : Nat)

/-- The slot that a command is about. -/
def Command.slot {α : Type u} {ρ : Type v} : Command α ρ → Nat
  | .create slot _ _ => slot
  | .gather slot _ _ => slot
  | .operate slot _ => slot
  | .finish slot _ => slot
  | .copy slot _ => slot
  | .assign slot _ => slot

namespace Workspace

variable {α : Type u} {ρ : Type v}

/-- The workspace whose slots are all vacant. -/
def empty : Workspace α ρ := ⟨[]⟩

/-- The first heap entered under a slot. -/
def find? (slot : Nat) : List (Nat × Heap α ρ) → Option (Heap α ρ)
  | [] => none
  | (number, heap) :: entries => if number = slot then some heap else find? slot entries

/-- The heap of a slot, if it holds one. -/
def get? (workspace : Workspace α ρ) (slot : Nat) : Option (Heap α ρ) :=
  find? slot workspace.entries

/-- Makes a slot vacant. -/
def remove (workspace : Workspace α ρ) (slot : Nat) : Workspace α ρ :=
  ⟨workspace.entries.filter fun entry => entry.1 != slot⟩

/-- Puts a heap into a slot, replacing any. -/
def put (workspace : Workspace α ρ) (slot : Nat) (heap : Heap α ρ) : Workspace α ρ :=
  ⟨(slot, heap) :: (workspace.remove slot).entries⟩

/-- Nothing is found in a slot that was made vacant. -/
theorem get?_remove (workspace : Workspace α ρ) (slot other : Nat) :
    (workspace.remove slot).get? other = if other = slot then none else workspace.get? other := by
  unfold remove get?
  induction workspace.entries with
  | nil => simp [find?]
  | cons entry entries hypothesis =>
    obtain ⟨number, heap⟩ := entry
    by_cases same : number = slot <;> by_cases here : number = other <;> grind [find?]

/-- A heap is found in the slot it was put into, and the other slots are untouched. -/
theorem get?_put (workspace : Workspace α ρ) (slot other : Nat) (heap : Heap α ρ) :
    (workspace.put slot heap).get? other =
      if other = slot then some heap else workspace.get? other := by
  by_cases here : other = slot
  · simp [put, get?, find?, here]
  · have elsewhere := get?_remove workspace slot other
    simp only [if_neg here] at elsewhere ⊢
    simpa [put, get?, find?, Ne.symm here] using elsewhere

section Commands

variable [Precedence ρ α]

/-- What a used-up heap gives. -/
def conclude (heap : Heap α ρ) : Ending → Answer α ρ
  | .storage => .items heap.toList
  | .sorted => .items heap.toSorted
  | .walk steps => .walk .owning (Cursor.walk (some (.ofArray heap.storage)) steps)

variable [Footprint α]

/-- Carries a command out: the answer and the slots afterwards, or why it was refused. -/
def perform (workspace : Workspace α ρ) :
    Command α ρ → Except Refusal (Answer α ρ × Workspace α ρ)
  | .create slot rule room =>
    match Heap.create rule room with
    | .ok heap => .ok (.done, workspace.put slot heap)
    | .error failure => .error (.failed failure)
  | .gather slot rule batch =>
    match Heap.gather rule batch with
    | .ok heap => .ok (.done, workspace.put slot heap)
    | .error failure => .error (.failed failure)
  | .operate slot operation =>
    match workspace.get? slot with
    | none => .error .vacant
    | some heap =>
      match heap.perform operation with
      | .ok (answer, after) => .ok (answer, workspace.put slot after)
      | .error failure => .error (.failed failure)
  | .finish slot ending =>
    match workspace.get? slot with
    | none => .error .vacant
    | some heap => .ok (conclude heap ending, workspace.remove slot)
  | .copy slot target =>
    match workspace.get? slot with
    | none => .error .vacant
    | some heap => .ok (.done, workspace.put target heap.copy)
  | .assign slot source =>
    if slot = source then .error .vacant
    else
      match workspace.get? slot, workspace.get? source with
      | some heap, some other => .ok (.done, workspace.put slot (heap.assign other))
      | _, _ => .error .vacant

/-- The outcome of a command and the workspace afterwards, unchanged if it was refused. -/
def step (workspace : Workspace α ρ) (command : Command α ρ) :
    Except Refusal (Answer α ρ) × Workspace α ρ :=
  match workspace.perform command with
  | .ok (answer, after) => (.ok answer, after)
  | .error refusal => (.error refusal, workspace)

/-- The outcome of each command and the workspace after it. -/
def run (workspace : Workspace α ρ) :
    List (Command α ρ) → List (Except Refusal (Answer α ρ) × Workspace α ρ)
  | [] => []
  | command :: commands =>
    let after := workspace.step command
    after :: after.2.run commands

end Commands

end Workspace

end PriorityQueue
