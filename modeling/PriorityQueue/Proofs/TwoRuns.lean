import PriorityQueue.Element.Text
import PriorityQueue.Operation.Lemmas
import PriorityQueue.Proofs.Correspondence
import PriorityQueue.Workspace

/-!
# Two runs side by side

A heap learns of its elements only what its rule answers about them. So two heaps whose rules answer
alike about related elements, asked for the same with related elements, give related answers after
every step: the same elements up to the relation, in the same places and in the same order. Only
how much room storage can have depends on the type of the elements by itself.
-/

namespace PriorityQueue

universe u v w x

variable {α : Type u} {β : Type v} {ρ : Type w} {σ : Type x} {related : α → β → Prop}

/-- Two answers of one kind with related elements in the same places. No two answers about rules
are alike, because rules are not related. -/
inductive Answer.Alike (related : α → β → Prop) : Answer α ρ → Answer β σ → Prop
  | done : Alike related .done .done
  | element {element : α} {element' : β} (pair : related element element') :
      Alike related (.element element) (.element element')
  | item {element : Option α} {element' : Option β} (pair : Option.Rel related element element') :
      Alike related (.item element) (.item element')
  | items {elements : List α} {elements' : List β}
      (pairs : List.Forall₂ related elements elements') :
      Alike related (.items elements) (.items elements')
  | count (number : Nat) : Alike related (.count number) (.count number)
  | verdict (decision : Bool) : Alike related (.verdict decision) (.verdict decision)
  | walk (purpose : Cursor.Purpose) {reports : List (Cursor.Report α)}
      {reports' : List (Cursor.Report β)}
      (pairs : List.Forall₂ (Cursor.Report.Alike related) reports reports') :
      Alike related (.walk purpose reports) (.walk purpose reports')
  | contents (layout : Layout) {elements : List α} {elements' : List β}
      (pairs : List.Forall₂ related elements elements') :
      Alike related (.contents layout elements) (.contents layout elements')

/-- Alike heaps that are used up give alike answers. -/
theorem Heap.Alike.conclude [Precedence ρ α] [Precedence σ β] {heap : Heap α ρ} {other : Heap β σ}
    (alike : Heap.Alike related heap other) (ending : Ending) :
    Answer.Alike related (Workspace.conclude heap ending) (Workspace.conclude other ending) := by
  cases ending with
  | storage => exact .items alike.toList
  | sorted => exact .items alike.toSorted
  | walk steps => exact .walk .owning (Cursor.walk_alike (.some alike.ofArray) steps)

/-- Two outcomes that are alike answers or the same failure. -/
inductive OutcomesAlike (related : α → β → Prop) :
    Except Failure (Answer α ρ) → Except Failure (Answer β σ) → Prop
  | ok {answer : Answer α ρ} {answer' : Answer β σ} (answers : answer.Alike related answer') :
      OutcomesAlike related (.ok answer) (.ok answer')
  | error (failure : Failure) : OutcomesAlike related (.error failure) (.error failure)

/-- Two operations of one kind with related elements. The room they ask for may differ. Questions
about the rule and about the capacity, which are not about elements, have no counterpart. -/
inductive Operation.Alike (related : α → β → Prop) : Operation α → Operation β → Prop
  | push {element : α} {element' : β} (pair : related element element') :
      Alike related (.push element) (.push element')
  | extend {batch : Batch α} {batch' : Batch β}
      (pairs : List.Forall₂ related batch.elements batch'.elements) :
      Alike related (.extend batch) (.extend batch')
  | pop : Alike related .pop .pop
  | popAll : Alike related .popAll .popAll
  | clear : Alike related .clear .clear
  | drain (steps : List Cursor.Step) : Alike related (.drain steps) (.drain steps)
  | top : Alike related .top .top
  | peek : Alike related .peek .peek
  | size : Alike related .size .size
  | isEmpty : Alike related .isEmpty .isEmpty
  | storage : Alike related .storage .storage
  | visit (steps : List Cursor.Step) : Alike related (.visit steps) (.visit steps)
  | compare {left right : α} {left' right' : β} (lefts : related left left')
      (rights : related right right') : Alike related (.compare left right) (.compare left' right')
  | reserve (additional additional' : Nat) :
      Alike related (.reserve additional) (.reserve additional')
  | shrinkToFit : Alike related .shrinkToFit .shrinkToFit
  | describe (layout : Layout) : Alike related (.describe layout) (.describe layout)

namespace Operation

/-- The room that an operation asks for before it does anything. -/
def request : Operation α → Nat
  | .extend batch => batch.announced
  | .reserve additional => additional
  | _ => 0

/-- The elements that an operation brings with it. -/
def elements : Operation α → List α
  | .push element => [element]
  | .extend batch => batch.elements
  | .compare left right => [left, right]
  | _ => []

/-- The same operation with another element for each that it brings. -/
def map (f : α → β) : Operation α → Operation β
  | .push element => .push (f element)
  | .extend batch => .extend ⟨batch.elements.map f, batch.announced⟩
  | .pop => .pop
  | .popAll => .popAll
  | .clear => .clear
  | .drain steps => .drain steps
  | .top => .top
  | .peek => .peek
  | .size => .size
  | .isEmpty => .isEmpty
  | .storage => .storage
  | .visit steps => .visit steps
  | .compare left right => .compare (f left) (f right)
  | .reserve additional => .reserve additional
  | .shrinkToFit => .shrinkToFit
  | .holds minimum => .holds minimum
  | .describe layout => .describe layout
  | .describeRule layout => .describeRule layout

/-- Whether an operation is about elements, and not about the rule or the capacity. -/
def OfElements : Operation α → Prop
  | .holds _ => False
  | .describeRule _ => False
  | _ => True

/-- Keeping every element keeps the operation. -/
@[simp] theorem map_id : map (id : α → α) = id := by
  funext operation
  cases operation <;> simp [map]

/-- An operation about elements and the one with the images of its elements are alike, if each of
the elements is related to its image. -/
theorem alike_map {f : α → β} {operation : Operation α} (about : operation.OfElements)
    (pairs : ∀ element ∈ operation.elements, related element (f element)) :
    operation.Alike related (operation.map f) := by
  cases operation with
  | push element => exact .push (pairs element (by simp [elements]))
  | extend batch => exact .extend (List.forall₂_map_right_iff.2 (List.forall₂_same.2 pairs))
  | compare left right =>
    exact .compare (pairs left (by simp [elements])) (pairs right (by simp [elements]))
  | pop => exact .pop
  | popAll => exact .popAll
  | clear => exact .clear
  | drain steps => exact .drain steps
  | top => exact .top
  | peek => exact .peek
  | size => exact .size
  | isEmpty => exact .isEmpty
  | storage => exact .storage
  | visit steps => exact .visit steps
  | reserve additional => exact .reserve additional additional
  | shrinkToFit => exact .shrinkToFit
  | holds minimum => exact about.elim
  | describe layout => exact .describe layout
  | describeRule layout => exact about.elim

/-- Operations about elements and those with the images of their elements are alike, if each of
the elements is related to its image. -/
theorem forall₂_alike_map {f : α → β} {operations : List (Operation α)}
    (about : ∀ operation ∈ operations, operation.OfElements)
    (pairs : ∀ element ∈ operations.flatMap elements, related element (f element)) :
    List.Forall₂ (Alike related) operations (operations.map (map f)) := by
  rw [List.forall₂_map_right_iff, List.forall₂_same]
  intro operation member
  refine alike_map (about operation member) ?_
  intro element inside
  exact pairs element (List.mem_flatMap.2 ⟨operation, member, inside⟩)

end Operation

namespace Heap

variable [Precedence ρ α] [Precedence σ β] [Footprint α] [Footprint β]

/-- Whether an outcome is that storage can have no such room. -/
def lacksRoom : Except Failure (Answer α ρ) → Bool
  | .error .capacityOverflow => true
  | _ => false

/-- Room is no matter between two runs: both ask for the same and can have the same, or they are
refused room in the same steps, if in any. -/
def SameRoom (heap : Heap α ρ) (other : Heap β σ) (operations : List (Operation α))
    (others : List (Operation β)) : Prop :=
  (capacityLimit α = capacityLimit β ∧
    operations.map Operation.request = others.map Operation.request) ∨
  (heap.run operations).1.map lacksRoom = (other.run others).1.map lacksRoom

/-- Where room is no matter for two runs, it is none for their first steps and none for the rest. -/
theorem SameRoom.uncons {heap : Heap α ρ} {other : Heap β σ} {operation : Operation α}
    {operation' : Operation β} {operations : List (Operation α)} {others : List (Operation β)}
    (room : heap.SameRoom other (operation :: operations) (operation' :: others)) :
    heap.SameRoom other [operation] [operation'] ∧
      (heap.step operation).2.SameRoom (other.step operation').2 operations others := by
  rcases room with ⟨limits, requests⟩ | refusals
  · simp only [List.map_cons, List.cons.injEq] at requests
    exact ⟨.inl ⟨limits, by simpa using requests.1⟩, .inl ⟨limits, requests.2⟩⟩
  · simp only [run, List.map_cons, List.cons.injEq] at refusals
    exact ⟨.inr (by simpa [run] using refusals.1), .inr refusals.2⟩

/-- Room for a batch is lacking exactly if it announces more than storage can hold. -/
theorem lacksRoom_extend_iff {heap : Heap α ρ} {batch : Batch α} :
    lacksRoom (heap.step (.extend batch)).1 = true ↔
      capacityLimit α < heap.size + batch.announced := by
  by_cases fits : heap.size + batch.announced ≤ capacityLimit α
  · simp [step_extend_of_fits fits, lacksRoom, fits]
  · have exceeds := Nat.lt_of_not_le fits
    simp [step_extend_of_exceeds exceeds, lacksRoom, exceeds]

/-- Room that is asked for is lacking exactly if it is more than storage can have. -/
theorem lacksRoom_reserve_iff {heap : Heap α ρ} {additional : Nat} :
    lacksRoom (heap.step (.reserve additional)).1 = true ↔
      capacityLimit α < heap.size + additional := by
  by_cases fits : heap.size + additional ≤ capacityLimit α
  · simp [step_reserve_of_fits fits, lacksRoom, fits]
  · have exceeds := Nat.lt_of_not_le fits
    simp [step_reserve_of_exceeds exceeds, lacksRoom, exceeds]

namespace Alike

variable {heap : Heap α ρ} {other : Heap β σ}

/-- Where room is no matter, alike heaps grant the same requests. -/
theorem fits_iff (alike : Alike related heap other) {operation : Operation α}
    {operation' : Operation β} (room : heap.SameRoom other [operation] [operation'])
    (lacks : lacksRoom (heap.step operation).1 = true ↔
      capacityLimit α < heap.size + operation.request)
    (lacks' : lacksRoom (other.step operation').1 = true ↔
      capacityLimit β < other.size + operation'.request) :
    heap.size + operation.request ≤ capacityLimit α ↔
      other.size + operation'.request ≤ capacityLimit β := by
  have size := alike.size_eq
  rcases room with ⟨limits, requests⟩ | refusals
  · have request : operation.request = operation'.request := by simpa using requests
    rw [size, request, limits]
  · have same : lacksRoom (heap.step operation).1 = lacksRoom (other.step operation').1 := by
      simpa [run] using refusals
    rw [← Nat.not_lt, ← Nat.not_lt, ← lacks, ← lacks', same]

/-- Alike heaps answer alike operations alike, and stay alike. -/
theorem step (alike : Alike related heap other) {operation : Operation α}
    {operation' : Operation β} (asked : operation.Alike related operation')
    (room : heap.SameRoom other [operation] [operation']) :
    OutcomesAlike related (heap.step operation).1 (other.step operation').1 ∧
      Alike related (heap.step operation).2 (other.step operation').2 := by
  have size := alike.size_eq
  cases asked with
  | push pair => exact ⟨.ok .done, alike.push pair⟩
  | @extend batch batch' pairs =>
    have fits : heap.size + batch.announced ≤ capacityLimit α ↔
        other.size + batch'.announced ≤ capacityLimit β :=
      alike.fits_iff room lacksRoom_extend_iff lacksRoom_extend_iff
    by_cases within : heap.size + batch.announced ≤ capacityLimit α
    · rw [step_extend_of_fits within, step_extend_of_fits (fits.1 within)]
      exact ⟨.ok .done, (alike.room _ _).pushAll pairs⟩
    · have beyond := Nat.lt_of_not_le within
      have beyond' := Nat.lt_of_not_le (mt fits.2 within)
      rw [step_extend_of_exceeds beyond, step_extend_of_exceeds beyond']
      exact ⟨.error _, alike⟩
  | pop =>
    obtain ⟨vacant, vacant'⟩ | ⟨element, rest, element', rest', popped, popped', pair, remaining⟩ :=
      alike.pop?
    · rw [step_pop_of_none vacant, step_pop_of_none vacant']
      exact ⟨.ok (.item .none), alike⟩
    · rw [step_pop_of_some popped, step_pop_of_some popped']
      exact ⟨.ok (.item (.some pair)), remaining⟩
  | popAll => exact ⟨.ok (.items alike.toSorted), alike.popAll.2⟩
  | clear => exact ⟨.ok .done, alike.clear⟩
  | drain steps =>
    exact ⟨.ok (.walk .draining (Cursor.walk_alike (.some alike.ofArray) steps)), alike.clear⟩
  | top =>
    have shown := alike.peek?
    simp only [Heap.step, perform, Heap.top]
    generalize heap.peek? = first at shown ⊢
    generalize other.peek? = first' at shown ⊢
    cases shown with
    | none => exact ⟨.error _, alike⟩
    | some pair => exact ⟨.ok (.element pair), alike⟩
  | peek => exact ⟨.ok (.item alike.peek?), alike⟩
  | size =>
    simp only [Heap.step, perform, size]
    exact ⟨.ok (.count _), alike⟩
  | isEmpty =>
    have same : heap.isEmpty = other.isEmpty := by
      simp only [Heap.isEmpty, Array.isEmpty, alike.storage.size]
    simp only [Heap.step, perform, same]
    exact ⟨.ok (.verdict _), alike⟩
  | storage => exact ⟨.ok (.items alike.toList), alike⟩
  | visit steps =>
    exact ⟨.ok (.walk .visiting (Cursor.walk_alike (.some alike.ofArray) steps)), alike⟩
  | compare lefts rights =>
    simp only [Heap.step, perform, alike.rules _ _ _ _ lefts rights]
    exact ⟨.ok (.verdict _), alike⟩
  | reserve additional additional' =>
    have fits : heap.size + additional ≤ capacityLimit α ↔
        other.size + additional' ≤ capacityLimit β :=
      alike.fits_iff room lacksRoom_reserve_iff lacksRoom_reserve_iff
    by_cases within : heap.size + additional ≤ capacityLimit α
    · rw [step_reserve_of_fits within, step_reserve_of_fits (fits.1 within)]
      exact ⟨.ok .done, alike.room _ _⟩
    · have beyond := Nat.lt_of_not_le within
      have beyond' := Nat.lt_of_not_le (mt fits.2 within)
      rw [step_reserve_of_exceeds beyond, step_reserve_of_exceeds beyond']
      exact ⟨.error _, alike⟩
  | shrinkToFit => exact ⟨.ok .done, alike.room 0 0⟩
  | describe layout => exact ⟨.ok (.contents layout alike.toList), alike⟩

/-- Alike heaps go through alike operations with alike outcomes, and are alike at every point. -/
theorem run {heap : Heap α ρ} {other : Heap β σ} (alike : Alike related heap other)
    {operations : List (Operation α)} {others : List (Operation β)}
    (asked : List.Forall₂ (Operation.Alike related) operations others)
    (room : heap.SameRoom other operations others) :
    List.Forall₂ (OutcomesAlike related) (heap.run operations).1 (other.run others).1 ∧
      ∀ count, Alike related (heap.run (operations.take count)).2
        (other.run (others.take count)).2 := by
  -- The induction is on the operations, which go in pairs; both heaps change from step to step.
  induction asked generalizing heap other with
  | nil => exact ⟨.nil, fun count => by simpa [Heap.run] using alike⟩
  | cons first asked hypothesis =>
    obtain ⟨here, later⟩ := room.uncons
    obtain ⟨outcome, after⟩ := alike.step first here
    obtain ⟨outcomes, heaps⟩ := hypothesis after later
    refine ⟨.cons outcome outcomes, ?_⟩
    intro count
    cases count with
    | zero => exact alike
    | succ count => exact heaps count

end Alike

end Heap

/-- Two runs that correspond at every point. -/
structure RunsAlike [Precedence ρ α] [Precedence σ β] [Footprint α] [Footprint β]
    (related : α → β → Prop) (start : Heap α ρ) (other : Heap β σ)
    (operations : List (Operation α)) (others : List (Operation β)) : Prop where
  /-- The outcomes are alike, one by one. -/
  outcomes : List.Forall₂ (OutcomesAlike related) (start.run operations).1 (other.run others).1
  /-- After any number of steps related elements are stored in the same places. -/
  storage : ∀ count, List.Forall₂ related (start.run (operations.take count)).2.toList
    (other.run (others.take count)).2.toList
  /-- After any number of steps the heaps give alike answers when they are used up. -/
  endings : ∀ count ending,
    Answer.Alike related (Workspace.conclude (start.run (operations.take count)).2 ending)
      (Workspace.conclude (other.run (others.take count)).2 ending)

/-- Alike heaps that are asked for the same with related elements have runs that correspond. -/
theorem Heap.Alike.runsAlike [Precedence ρ α] [Precedence σ β] [Footprint α] [Footprint β]
    {start : Heap α ρ} {other : Heap β σ} (alike : Heap.Alike related start other)
    {operations : List (Operation α)} {others : List (Operation β)}
    (asked : List.Forall₂ (Operation.Alike related) operations others)
    (room : start.SameRoom other operations others) :
    RunsAlike related start other operations others where
  outcomes := (alike.run asked room).1
  storage count := ((alike.run asked room).2 count).toList
  endings count := ((alike.run asked room).2 count).conclude

/-- Runs that correspond by a function store the images of the elements. -/
theorem RunsAlike.storage_eq_map [Precedence ρ α] [Precedence σ β] [Footprint α] [Footprint β]
    {f : α → β} {start : Heap α ρ} {other : Heap β σ} {operations : List (Operation α)}
    {others : List (Operation β)}
    (runs : RunsAlike (fun element image => f element = image) start other operations others)
    (count : Nat) : (other.run (others.take count)).2.toList =
      (start.run (operations.take count)).2.toList.map f := by
  have images := runs.storage count
  rw [← List.forall₂_map_left_iff (R := (· = ·)), List.forall₂_eq_eq_eq] at images
  exact images.symm

/-- An element of a list and itself. -/
def SameAmong (elements : List α) (left right : α) : Prop := left = right ∧ left ∈ elements

section Twins

variable {related : α → α → Prop} (same : ∀ left right, related left right → left = right)
include same

/-- Lists are equal if only equal elements are related. -/
theorem eq_of_forall₂ {elements elements' : List α}
    (pairs : List.Forall₂ related elements elements') : elements = elements' := by
  have equals : List.Forall₂ (· = ·) elements elements' := pairs.imp same
  rwa [List.forall₂_eq_eq_eq] at equals

/-- Optional elements are equal if only equal elements are related. -/
theorem eq_of_optionRel {element element' : Option α}
    (pair : Option.Rel related element element') : element = element' := by
  cases pair with
  | none => rfl
  | some pair => rw [same _ _ pair]

/-- Alike reports are equal if only equal elements are related. -/
theorem Cursor.Report.Alike.eq {report report' : Report α} (alike : report.Alike related report') :
    report = report' := by
  cases alike with
  | item pair => rw [eq_of_optionRel same pair]
  | items pairs => rw [eq_of_forall₂ same pairs]
  | window layout pairs => rw [eq_of_forall₂ same pairs]
  | fork pair pairs => rw [eq_of_optionRel same pair, eq_of_forall₂ same pairs]
  | count | bounds | consumed => rfl

/-- Alike answers are equal if only equal elements are related. -/
theorem Answer.Alike.eq {answer answer' : Answer α ρ} (alike : answer.Alike related answer') :
    answer = answer' := by
  cases alike with
  | element pair => rw [same _ _ pair]
  | item pair => rw [eq_of_optionRel same pair]
  | items pairs => rw [eq_of_forall₂ same pairs]
  | walk purpose pairs =>
    rw [eq_of_forall₂ (fun _ _ alike => Cursor.Report.Alike.eq same alike) pairs]
  | contents layout pairs => rw [eq_of_forall₂ same pairs]
  | done | count | verdict => rfl

/-- Alike outcomes are equal if only equal elements are related. -/
theorem OutcomesAlike.eq {outcome outcome' : Except Failure (Answer α ρ)}
    (alike : OutcomesAlike related outcome outcome') : outcome = outcome' := by
  cases alike with
  | ok answers => rw [answers.eq same]
  | error failure => rfl

/-- Corresponding runs are equal if only equal elements are related. -/
theorem RunsAlike.eq [Precedence ρ α] [Footprint α] {start twin : Heap α ρ}
    {operations : List (Operation α)} (runs : RunsAlike related start twin operations operations) :
    (start.run operations).1 = (twin.run operations).1 ∧
      ∀ count,
        (start.run (operations.take count)).2.toList =
          (twin.run (operations.take count)).2.toList ∧
        ∀ ending, Workspace.conclude (start.run (operations.take count)).2 ending =
          Workspace.conclude (twin.run (operations.take count)).2 ending := by
  refine ⟨eq_of_forall₂ (fun _ _ alike => OutcomesAlike.eq same alike) runs.outcomes, ?_⟩
  intro count
  refine ⟨eq_of_forall₂ same (runs.storage count), ?_⟩
  intro ending
  exact (runs.endings count ending).eq same

end Twins

section Theorem

variable [Precedence ρ α] [Precedence σ β] [Footprint α] [Footprint β]

/-- The elements that a heap holds and those that operations bring with them. -/
def Heap.participants (heap : Heap α ρ) (operations : List (Operation α)) : List α :=
  heap.toList ++ operations.flatMap Operation.elements

/-- A run and the run with the images of its elements correspond by the function, if the rules
answer alike about elements and their images. -/
theorem Heap.runsAlike_map {start : Heap α ρ} {other : Heap β σ} {f : α → β}
    {operations : List (Operation α)}
    (rules : ∀ left right,
      precedes other.rule (f left) (f right) = precedes start.rule left right)
    (images : other.toList = start.toList.map f)
    (about : ∀ operation ∈ operations, operation.OfElements)
    (room : start.SameRoom other operations (operations.map (Operation.map f))) :
    RunsAlike (fun element image => f element = image) start other operations
      (operations.map (Operation.map f)) := by
  have agree : RulesAgree (fun element image => f element = image) (precedes start.rule)
      (precedes other.rule) := by
    rintro left right - - rfl rfl
    exact (rules left right).symm
  have aligned : List.Forall₂ (fun element image => f element = image) start.toList
      other.toList := by
    rw [images, List.forall₂_map_right_iff, List.forall₂_same]
    exact fun element _ => rfl
  have alike : Heap.Alike (fun element image => f element = image) start other :=
    ⟨agree, aligned_iff_forall₂.2 aligned⟩
  exact alike.runsAlike (Operation.forall₂_alike_map about fun element _ => rfl) room

/-- Runs over equal storage that are asked for the same correspond by equality if the rules agree on
all the elements that take part. -/
theorem Heap.runsAlike_of_agree {start twin : Heap α ρ} {operations : List (Operation α)}
    (shared : start.toList = twin.toList)
    (agree : ∀ left ∈ start.participants operations, ∀ right ∈ start.participants operations,
      precedes start.rule left right = precedes twin.rule left right)
    (about : ∀ operation ∈ operations, operation.OfElements) :
    RunsAlike (SameAmong (start.participants operations)) start twin operations operations := by
  have rules : RulesAgree (SameAmong (start.participants operations)) (precedes start.rule)
      (precedes twin.rule) := by
    rintro left right left' right' ⟨rfl, leftInside⟩ ⟨rfl, rightInside⟩
    exact agree left leftInside right rightInside
  have aligned : List.Forall₂ (SameAmong (start.participants operations)) start.toList
      twin.toList := by
    rw [← shared, List.forall₂_same]
    exact fun element inside => ⟨rfl, List.mem_append_left _ inside⟩
  -- Asking for the same is asking with the images under the identity.
  have asked : List.Forall₂ (Operation.Alike (SameAmong (start.participants operations)))
      operations (operations.map (Operation.map id)) :=
    Operation.forall₂_alike_map about fun element inside =>
      ⟨rfl, List.mem_append_right start.toList inside⟩
  rw [Operation.map_id, List.map_id] at asked
  have alike : Heap.Alike (SameAmong (start.participants operations)) start twin :=
    ⟨rules, aligned_iff_forall₂.2 aligned⟩
  exact alike.runsAlike asked (.inl ⟨rfl, rfl⟩)

/-- A heap depends on its elements only through what its rule answers about them. Two runs that are
asked for the same with related elements, under rules that answer alike about related elements, give
related elements and store related elements in the same places, step for step and when the heaps are
used up; a heap made of a batch is an empty heap that was extended. Hence a function of the elements
that carries one rule to the other carries the whole run along; two rules that agree on the elements
of a run cannot be told apart by it; and pairs under a rule that looks at their first parts only go
the way that the first parts go by themselves. -/
theorem runs_correspond (start : Heap α ρ) (other : Heap β σ) :
    (∀ (related : α → β → Prop) (operations : List (Operation α)) (others : List (Operation β)),
      RulesAgree related (precedes start.rule) (precedes other.rule) →
      List.Forall₂ related start.toList other.toList →
      List.Forall₂ (Operation.Alike related) operations others →
      start.SameRoom other operations others →
      RunsAlike related start other operations others) ∧
    (∀ (f : α → β) (operations : List (Operation α)),
      (∀ left right, precedes other.rule (f left) (f right) = precedes start.rule left right) →
      other.toList = start.toList.map f →
      (∀ operation ∈ operations, operation.OfElements) →
      start.SameRoom other operations (operations.map (Operation.map f)) →
      RunsAlike (fun element image => f element = image) start other operations
          (operations.map (Operation.map f)) ∧
        ∀ count, (other.run ((operations.map (Operation.map f)).take count)).2.toList =
          (start.run (operations.take count)).2.toList.map f) ∧
    (∀ (twin : Heap α ρ) (operations : List (Operation α)),
      start.toList = twin.toList →
      (∀ left ∈ start.participants operations, ∀ right ∈ start.participants operations,
        precedes start.rule left right = precedes twin.rule left right) →
      (∀ operation ∈ operations, operation.OfElements) →
      (start.run operations).1 = (twin.run operations).1 ∧
        ∀ count,
          (start.run (operations.take count)).2.toList =
            (twin.run (operations.take count)).2.toList ∧
          ∀ ending, Workspace.conclude (start.run (operations.take count)).2 ending =
            Workspace.conclude (twin.run (operations.take count)).2 ending) ∧
    ∀ {τ : Type v} {π : Type x} [Precedence π (α × τ)] [Footprint (α × τ)]
      (pairs : Heap (α × τ) π) (operations : List (Operation (α × τ))),
      (∀ left right, precedes pairs.rule left right = precedes start.rule left.1 right.1) →
      start.toList = pairs.toList.map Prod.fst →
      (∀ operation ∈ operations, operation.OfElements) →
      pairs.SameRoom start operations (operations.map (Operation.map Prod.fst)) →
      RunsAlike (fun pair key => pair.1 = key) pairs start operations
          (operations.map (Operation.map Prod.fst)) ∧
        ∀ count, (start.run ((operations.map (Operation.map Prod.fst)).take count)).2.toList =
          (pairs.run (operations.take count)).2.toList.map Prod.fst := by
  refine ⟨?_, ?_, ?_, ?_⟩
  · intro related operations others rules aligned asked room
    have alike : Heap.Alike related start other := ⟨rules, aligned_iff_forall₂.2 aligned⟩
    exact alike.runsAlike asked room
  · intro f operations rules images about room
    have runs := Heap.runsAlike_map rules images about room
    exact ⟨runs, runs.storage_eq_map⟩
  · intro twin operations shared agree about
    exact (Heap.runsAlike_of_agree shared agree about).eq fun _ _ pair => pair.1
  · intro τ π _ _ pairs operations rules keys about room
    have runs := Heap.runsAlike_map (fun left right => (rules left right).symm) keys about room
    exact ⟨runs, runs.storage_eq_map⟩

end Theorem

/-- Integers with texts attached, ranked by the integers, stand where the integers by themselves
stand, and equal integers keep their texts apart without them being looked at. -/
theorem tagged_keys_run_as_keys :
    let start : Heap Tagged (Tagged → Tagged → Bool) :=
      .empty fun left right => NaturalOrder.lt left.key right.key
    let keys : Heap Int (Natural Int) := .empty ⟨⟩
    let operations : List (Operation Tagged) :=
      [.extend ⟨[⟨2, "a"⟩, ⟨1, "b"⟩, ⟨2, "c"⟩], 3⟩, .push ⟨1, "d"⟩, .pop, .peek]
    RunsAlike (fun tagged key => tagged.key = key) start keys operations
        (operations.map (Operation.map Tagged.key)) ∧
      (start.run operations).2.toList = [⟨1, "d"⟩, ⟨2, "a"⟩, ⟨2, "c"⟩] ∧
      (keys.run (operations.map (Operation.map Tagged.key))).2.toList = [1, 2, 2] := by
  intro start keys operations
  have about : ∀ operation ∈ operations, operation.OfElements := by
    simp [operations, Operation.OfElements]
  -- A tagged key takes up more bytes than a bare one, but neither run asks for too many of them.
  have room : start.SameRoom keys operations (operations.map (Operation.map Tagged.key)) :=
    .inr (by decide +kernel)
  refine ⟨?_, by decide +kernel, by decide +kernel⟩
  exact ((runs_correspond start keys).2.1 Tagged.key operations (fun _ _ => rfl) rfl about room).1

end PriorityQueue
