import PriorityQueue.Element.Scalar
import PriorityQueue.Heap.Lemmas
import PriorityQueue.Operation
import PriorityQueue.Proofs.Split
import PriorityQueue.Workspace

/-!
# Walks from both ends

A heap lends its storage to a cursor that visits it, gives it up to one that drains it, and ends as
one that owns it. Whatever becomes of the elements, the walk is the same, and it is one of a split:
however its steps at the two ends alternate, it loses nothing and repeats nothing. Several cursors
at once, copies of each other, are asked in any order, and each answers as if it were alone.
-/

namespace PriorityQueue

universe u v

variable {α : Type u}

namespace Cursor

/-- What is asked of several cursors, which are numbered in the order in which they came about. -/
inductive Request where
  /-- Ask one of them for a step. -/
  | ask (number : Nat) (step : Step)
  /-- Make a copy of one of them as it is. -/
  | clone (number : Nat)
deriving DecidableEq

/-- The step that a request is for the cursor of a number, if it is one. -/
def Request.stepFor (number : Nat) : Request → Option Step
  | .ask asked step => if asked = number then some step else none
  | .clone _ => none

/-- The answers to requests made one after the other, each with the number of the cursor that was
asked. A request for a cursor that never came about is passed over. -/
def attend : List (Option (Cursor α)) → List Request → List (Nat × Report α)
  | _, [] => []
  | cursors, .ask number step :: requests =>
    match cursors[number]? with
    | some (some cursor) => (number, (cursor.respond step).1) ::
        attend (cursors.set number (cursor.respond step).2) requests
    | some none => (number, .consumed) :: attend cursors requests
    | none => attend cursors requests
  | cursors, .clone number :: requests =>
    match cursors[number]? with
    | some cursor => attend (cursors ++ [cursor]) requests
    | none => attend cursors requests

/-- The answers of the cursor of a number. -/
def answersOf (number : Nat) (answers : List (Nat × Report α)) : List (Report α) :=
  answers.filterMap fun answer => if answer.1 = number then some answer.2 else none

/-- What a cursor answers is what it answers alone to the steps that it is asked for itself. -/
theorem answersOf_attend {cursors : List (Option (Cursor α))} {number : Nat}
    {cursor : Option (Cursor α)} (present : cursors[number]? = some cursor)
    (requests : List Request) :
    answersOf number (attend cursors requests) =
      walk cursor (requests.filterMap (Request.stepFor number)) := by
  induction requests generalizing cursors cursor with
  | nil => cases cursor <;> rfl
  | cons request requests hypothesis =>
    cases request with
    | clone asked =>
      simp only [attend, List.filterMap_cons, Request.stepFor]
      cases cursors[asked]? with
      | none => exact hypothesis present
      | some copy =>
        apply hypothesis
        rw [List.getElem?_append_left (List.getElem?_eq_some_iff.1 present).1, present]
    | ask asked step =>
      by_cases mine : asked = number
      · subst mine
        cases cursor with
        | none => simp [attend, present, answersOf, Request.stepFor, walk, ← hypothesis present]
        | some cursor =>
          have within := (List.getElem?_eq_some_iff.1 present).1
          have after := hypothesis
            (show (cursors.set asked (cursor.respond step).2)[asked]? = _ from
              List.getElem?_set_self within)
          simp [attend, present, answersOf, Request.stepFor, walk, ← after]
      · have other : ∀ report (answers : List (Nat × Report α)),
            answersOf number ((asked, report) :: answers) = answersOf number answers := by
          intro report answers
          simp [answersOf, mine]
        have passed : (Request.ask asked step :: requests).filterMap (Request.stepFor number) =
            requests.filterMap (Request.stepFor number) := by
          simp [Request.stepFor, mine]
        rw [passed, attend]
        split
        · rw [other]
          exact hypothesis (by rw [List.getElem?_set_ne mine, present])
        · rw [other]
          exact hypothesis present
        · exact hypothesis present

end Cursor

open Cursor (Split)

/-- However steps at the two ends alternate, a walk over the storage of a heap loses nothing and
repeats nothing. As long as it goes on, what was taken off the front, what remains and what was
taken off the back make up the storage, and each step is answered as this split dictates; an ending
step is answered about exactly what remains, and after that nothing is answered; once nothing
remains, no step has anything to give. Visiting leaves the heap as it is, draining leaves it empty,
and owning the elements gives the same answers. Several elements are taken as if one at a time, and
a cursor and its copy, or copies of these, go on from where they are without regard to each other,
in whatever order they are asked. -/
theorem walks_lose_and_repeat_nothing {ρ : Type v} [Precedence ρ α] [Footprint α] (heap : Heap α ρ)
    {steps : List Cursor.Step} (going : ∀ step ∈ steps, step.ends = false) :
    ∃ (reports : List (Cursor.Report α)) (cursor : Cursor α),
      Split.Walks (.start heap.toList) steps reports cursor.split ∧
      cursor.split.whole = heap.toList ∧
      (∀ later,
        let all := reports ++ Cursor.walk (some cursor) later
        heap.step (.visit (steps ++ later)) = (.ok (.walk .visiting all), heap) ∧
        heap.step (.drain (steps ++ later)) = (.ok (.walk .draining all), heap.clear) ∧
        Workspace.conclude heap (.walk (steps ++ later)) = .walk .owning all) ∧
      heap.clear.toList = [] ∧
      (∀ ending report following, cursor.split.Concludes ending report →
        Cursor.walk (some cursor) (ending :: following) =
          report :: List.replicate following.length .consumed) ∧
      (cursor.split.window = [] → ∀ more, (∀ step ∈ more, step.ends = false) →
        Cursor.walk (some cursor) more = more.map Cursor.Step.vacant) ∧
      (∀ number,
        cursor.nth number = Cursor.nthBy Cursor.next number cursor ∧
        cursor.nthBack number = Cursor.nthBy Cursor.nextBack number cursor ∧
        cursor.take number = Cursor.takeBy Cursor.next number cursor ∧
        (Cursor.takeBy Cursor.nextBack number cursor).1 =
          cursor.split.window.reverse.take number) ∧
      ∀ requests,
        let answers := Cursor.attend [some cursor] (.clone 0 :: requests)
        Cursor.answersOf 0 answers =
          Cursor.walk (some cursor) (requests.filterMap (Cursor.Request.stepFor 0)) ∧
        Cursor.answersOf 1 answers =
          Cursor.walk (some cursor) (requests.filterMap (Cursor.Request.stepFor 1)) := by
  obtain ⟨cursor, same, walks, onward⟩ :=
    (Cursor.ofArray heap.storage).exists_walks_walk going
  rw [Cursor.split_ofArray] at walks
  refine ⟨_, cursor, walks, ?_, ?_, rfl, ?_, ?_, ?_, ?_⟩
  · rw [Cursor.whole_split, same]
    rfl
  · intro later all
    have whole : Cursor.walk (some (.ofArray heap.storage)) (steps ++ later) = all := onward later
    simp only [Heap.step, Heap.perform, Workspace.conclude, whole, and_self]
  · intro ending report following concludes
    rw [Cursor.walk, cursor.respond_concludes concludes, Cursor.walk_none]
  · intro exhausted more goingOn
    obtain ⟨after, -, further, -⟩ := cursor.exists_walks_walk goingOn
    exact (further.of_exhausted exhausted).1
  · intro number
    refine ⟨cursor.nth_eq_nthBy number, cursor.nthBack_eq_nthBy number, ?_, ?_⟩
    · exact (Cursor.peels_front.takeBy_eq cursor number).symm
    · exact congrArg Prod.fst (Cursor.peels_back.takeBy_eq cursor number)
  · intro requests
    exact ⟨Cursor.answersOf_attend rfl requests, Cursor.answersOf_attend rfl requests⟩

/-- A walk over five integers whose steps cross: at the back the last element is skipped and the one
before it taken, two of the three asked for then remain at the front, and the back finds nothing. -/
theorem crossing_walk_loses_nothing :
    let heap : Heap Int (Natural Int) := ⟨#[1, 2, 4, 3, 5], ⟨⟩, 0⟩
    let steps : List Cursor.Step := [.nthBack 1, .next, .bounds, .take 3, .nextBack]
    let reports : List (Cursor.Report Int) :=
      [.item (some 3), .item (some 1), .bounds 2 2, .items [2, 4], .item none]
    (∀ step ∈ steps, step.ends = false) ∧
      heap.step (.drain steps) = (.ok (.walk .draining reports), heap.clear) ∧
      ∃ split, Split.Walks (.start [1, 2, 4, 3, 5]) steps reports split ∧
        split.whole = [1, 2, 4, 3, 5] := by
  intro heap steps reports
  have going : ∀ step ∈ steps, step.ends = false := by decide
  obtain ⟨given, cursor, walks, whole, answers, -⟩ := walks_lose_and_repeat_nothing heap going
  have drained : heap.step (.drain steps) = (.ok (.walk .draining reports), heap.clear) := rfl
  have stated := (answers []).2.1
  rw [List.append_nil, drained] at stated
  obtain rfl : reports = given := by simpa [Cursor.walk] using stated
  exact ⟨going, drained, cursor.split, walks, whole⟩

end PriorityQueue
