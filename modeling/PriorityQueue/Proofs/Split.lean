import PriorityQueue.Proofs.WindowEnds

/-!
# How a walk splits its elements

A walk splits the elements that it began with: into those taken off the front, those that remain,
and those taken off the back. `Split` keeps the three parts in the order of taking, and
`Split.Answers` says of one step what it answers and how it moves elements between the parts. The
window of a cursor is the middle part of such a split, in each step and so in a whole walk, and the
parts always make up what the cursor began with.
-/

namespace PriorityQueue.Cursor

universe u

variable {α : Type u}

/-- The elements that a walk began with, by what became of them. -/
@[ext]
structure Split (α : Type u) where
  /-- The elements taken off the front, skipped ones included, in the order of taking. -/
  front : List α
  /-- The elements that remain, from the front. -/
  window : List α
  /-- The elements taken off the back, skipped ones included, in the order of taking. -/
  back : List α

namespace Split

/-- All elements in the order in which the walk found them. -/
def whole (split : Split α) : List α := split.front ++ split.window ++ split.back.reverse

/-- The split before anything is taken. -/
def start (elements : List α) : Split α := ⟨[], elements, []⟩

/-- The split as it is seen from the other end. -/
def mirror (split : Split α) : Split α := ⟨split.back, split.window.reverse, split.front⟩

/-- So many elements are taken off the front, or as many as remain if these are fewer. -/
structure Takes (before : Split α) (number : Nat) (taken : List α) (after : Split α) : Prop where
  /-- The elements were the first of those that remained. -/
  window : before.window = taken ++ after.window
  /-- They come after those taken off the front earlier. -/
  front : after.front = before.front ++ taken
  /-- What was taken off the back is of no account. -/
  back : after.back = before.back
  /-- No more are taken than asked for, and fewer only if fewer remain. -/
  number : taken.length = min number before.window.length

/-- What a step that does not end the walk answers, and the split after it. A step at the back is
one at the front of the mirror image. -/
inductive Answers (before : Split α) : Step → Report α → Split α → Prop
  | next {taken : List α} {after : Split α} (takes : before.Takes 1 taken after) :
      Answers before .next (.item taken[0]?) after
  | nextBack {taken : List α} {after : Split α} (takes : before.mirror.Takes 1 taken after.mirror) :
      Answers before .nextBack (.item taken[0]?) after
  | nth {number : Nat} {taken : List α} {after : Split α}
      (takes : before.Takes (number + 1) taken after) :
      Answers before (.nth number) (.item taken[number]?) after
  | nthBack {number : Nat} {taken : List α} {after : Split α}
      (takes : before.mirror.Takes (number + 1) taken after.mirror) :
      Answers before (.nthBack number) (.item taken[number]?) after
  | take {number : Nat} {taken : List α} {after : Split α}
      (takes : before.Takes number taken after) : Answers before (.take number) (.items taken) after
  | size : Answers before .size (.count before.window.length) before
  | bounds : Answers before .bounds (.bounds before.window.length before.window.length) before
  | describe (layout : Layout) : Answers before (.describe layout) (.window layout before.window)
      before
  | fork : Answers before .fork (.fork before.window.head? before.window.tail) before

/-- What the steps of a walk that goes on answer, and the split after the last. -/
inductive Walks : Split α → List Step → List (Report α) → Split α → Prop
  | nil (split : Split α) : Walks split [] [] split
  | cons {before between after : Split α} {step : Step} {report : Report α} {steps : List Step}
      {reports : List (Report α)} (answers : Answers before step report between)
      (later : Walks between steps reports after) :
      Walks before (step :: steps) (report :: reports) after

/-- What a step that ends the walk answers: something about exactly the elements that remain. -/
inductive Concludes (split : Split α) : Step → Report α → Prop
  | last : Concludes split .last (.item split.window.getLast?)
  | count : Concludes split .count (.count split.window.length)
  | collect : Concludes split .collect (.items split.window)
  | reverse : Concludes split .reverse (.items split.window.reverse)

/-- Seen from the other end of the other end, a split is as it is. -/
@[simp] theorem mirror_mirror (split : Split α) : split.mirror.mirror = split := by
  simp only [mirror, List.reverse_reverse]

/-- Seen from the other end, the elements come in the opposite order. -/
theorem whole_mirror (split : Split α) : split.mirror.whole = split.whole.reverse := by
  simp [whole, mirror]

/-- If the whole stays as it is and so does the back, then what the window lacks at its front has
come to the front. -/
theorem front_eq_of_whole {before after : Split α} {taken : List α}
    (same : after.whole = before.whole) (window : before.window = taken ++ after.window)
    (back : after.back = before.back) : after.front = before.front ++ taken := by
  unfold whole at same
  rw [window, back] at same
  have joined : after.front ++ (after.window ++ before.back.reverse) =
      before.front ++ taken ++ (after.window ++ before.back.reverse) := by
    simpa only [List.append_assoc] using same
  exact List.append_cancel_right joined

/-- When nothing remains, nothing is taken. -/
theorem Takes.of_exhausted {before after : Split α} {number : Nat} {taken : List α}
    (takes : before.Takes number taken after) (exhausted : before.window = []) :
    taken = [] ∧ after = before := by
  obtain ⟨window, front, back, -⟩ := takes
  obtain ⟨rfl, left⟩ := List.append_eq_nil_iff.1 (window.symm.trans exhausted)
  rw [List.append_nil] at front
  exact ⟨rfl, Split.ext front (left.trans exhausted.symm) back⟩

end Split

/-- Whether a step uses the cursor up. -/
def Step.ends : Step → Bool
  | .last | .count | .collect | .reverse => true
  | _ => false

/-- What a step answers when nothing remains. -/
def Step.vacant : Step → Report α
  | .next | .nextBack | .nth _ | .nthBack _ | .last => .item none
  | .take _ | .collect | .reverse => .items []
  | .size | .count => .count 0
  | .bounds => .bounds 0 0
  | .describe layout => .window layout []
  | .fork => .fork none []

namespace Split

/-- When nothing remains, a step has nothing to give and changes nothing. -/
theorem Answers.of_exhausted {before after : Split α} {step : Step} {report : Report α}
    (answers : before.Answers step report after) (exhausted : before.window = []) :
    report = step.vacant ∧ after = before := by
  cases answers with
  | next takes | nth takes | take takes =>
    obtain ⟨rfl, same⟩ := takes.of_exhausted exhausted
    exact ⟨rfl, same⟩
  | nextBack takes | nthBack takes =>
    obtain ⟨rfl, same⟩ := takes.of_exhausted (by rw [mirror, exhausted, List.reverse_nil])
    exact ⟨rfl, by simpa using congrArg mirror same⟩
  | size | bounds | describe | fork => simp [exhausted, Step.vacant]

/-- Once nothing remains, every step has nothing to give. -/
theorem Walks.of_exhausted {before after : Split α} {steps : List Step}
    {reports : List (Report α)} (walks : before.Walks steps reports after)
    (exhausted : before.window = []) : reports = steps.map Step.vacant ∧ after = before := by
  induction walks with
  | nil => exact ⟨rfl, rfl⟩
  | cons answers later hypothesis =>
    obtain ⟨rfl, rfl⟩ := answers.of_exhausted exhausted
    obtain ⟨rfl, rfl⟩ := hypothesis exhausted
    exact ⟨rfl, rfl⟩

end Split

/-- The split that a cursor stands for: the elements before, in and behind its window. -/
def split (cursor : Cursor α) : Split α :=
  ⟨cursor.items.toList.take cursor.front, cursor.remaining,
    (cursor.items.toList.drop cursor.back).reverse⟩

/-- The parts make up what the cursor began with. -/
theorem whole_split (cursor : Cursor α) : cursor.split.whole = cursor.items.toList := by
  simp only [split, Split.whole, List.reverse_reverse, take_append_remaining_append_drop]

/-- A new cursor has taken nothing. -/
theorem split_ofArray (items : Array α) : (ofArray items).split = .start items.toList := by
  simp only [split, Split.start, remaining_ofArray]
  simp [ofArray]

/-- Skipping at the front takes the elements that are first in the window. -/
theorem takes_skip (cursor : Cursor α) (number : Nat) :
    cursor.split.Takes number (cursor.remaining.take number) (cursor.skip number).split := by
  have window : cursor.remaining =
      cursor.remaining.take number ++ (cursor.skip number).remaining := by
    rw [remaining_skip, List.take_append_drop]
  have same : (cursor.skip number).split.whole = cursor.split.whole := by
    rw [whole_split, whole_split]
    rfl
  exact ⟨window, Split.front_eq_of_whole same window rfl, rfl, List.length_take⟩

/-- Skipping at the back takes the elements that are first in the window as seen from there. -/
theorem takes_skipBack (cursor : Cursor α) (number : Nat) :
    cursor.split.mirror.Takes number (cursor.remaining.reverse.take number)
      (cursor.skipBack number).split.mirror := by
  have window : cursor.remaining.reverse =
      cursor.remaining.reverse.take number ++ (cursor.skipBack number).remaining.reverse := by
    rw [peels_back.drops, List.take_append_drop]
  have same : (cursor.skipBack number).split.mirror.whole = cursor.split.mirror.whole := by
    rw [Split.whole_mirror, Split.whole_mirror, whole_split, whole_split]
    rfl
  exact ⟨window, Split.front_eq_of_whole same window rfl, rfl, List.length_take⟩

/-- A step that does not end the walk gives what the split dictates, and leaves a cursor on the same
elements. -/
theorem respond_answers (cursor : Cursor α) {step : Step} (going : step.ends = false) :
    ∃ after, (cursor.respond step).2 = some after ∧ after.items = cursor.items ∧
      cursor.split.Answers step (cursor.respond step).1 after.split := by
  have atFront := fun number => peels_front.item_skip cursor number
  have atBack := fun number => peels_back.item_skip cursor number
  cases step with
  | next =>
    refine ⟨_, rfl, rfl, ?_⟩
    have answers := Split.Answers.next (cursor.takes_skip 1)
    rwa [List.getElem?_take_of_lt Nat.one_pos, ← atFront 0, peels_front.zero] at answers
  | nextBack =>
    refine ⟨_, rfl, rfl, ?_⟩
    have answers := Split.Answers.nextBack (cursor.takes_skipBack 1)
    rwa [List.getElem?_take_of_lt Nat.one_pos, ← atBack 0, peels_back.zero] at answers
  | nth number =>
    refine ⟨_, rfl, rfl, ?_⟩
    have answers := Split.Answers.nth (cursor.takes_skip (number + 1))
    rwa [List.getElem?_take_of_lt (Nat.lt_succ_self number), ← atFront number,
      ← peels_front.again] at answers
  | nthBack number =>
    refine ⟨_, rfl, rfl, ?_⟩
    have answers := Split.Answers.nthBack (cursor.takes_skipBack (number + 1))
    rwa [List.getElem?_take_of_lt (Nat.lt_succ_self number), ← atBack number,
      ← peels_back.again] at answers
  | take number => exact ⟨_, rfl, rfl, .take (cursor.takes_skip number)⟩
  | size =>
    refine ⟨cursor, rfl, rfl, ?_⟩
    have answers : cursor.split.Answers .size _ _ := .size
    rwa [show cursor.split.window.length = cursor.size from cursor.length_remaining] at answers
  | bounds =>
    refine ⟨cursor, rfl, rfl, ?_⟩
    have answers : cursor.split.Answers .bounds _ _ := .bounds
    rwa [show cursor.split.window.length = cursor.size from cursor.length_remaining] at answers
  | describe layout => exact ⟨cursor, rfl, rfl, .describe layout⟩
  | fork =>
    refine ⟨cursor, rfl, rfl, ?_⟩
    have answers : cursor.split.Answers .fork _ _ := .fork
    have next : cursor.split.window.head? = cursor.first? := (first?_eq_head? cursor).symm
    have rest : cursor.split.window.tail = (cursor.skip 1).remaining := by
      rw [remaining_skip, List.drop_one]
      rfl
    rwa [next, rest] at answers
  | last | count | collect | reverse => cases going

/-- A step that ends the walk is answered about exactly the elements that remain. -/
theorem respond_concludes (cursor : Cursor α) {step : Step} {report : Report α}
    (concludes : cursor.split.Concludes step report) : cursor.respond step = (report, none) := by
  cases concludes with
  | last => exact congrArg (fun item => (Report.item item, none)) (last?_eq_getLast? cursor)
  | count => exact congrArg (fun number => (Report.count number, none)) cursor.length_remaining.symm
  | collect | reverse => rfl

/-- After its end a walk only answers that it has ended. -/
theorem walk_none (steps : List Step) :
    walk (none : Option (Cursor α)) steps = List.replicate steps.length .consumed := by
  induction steps with
  | nil => rfl
  | cons step steps hypothesis =>
    rw [walk, hypothesis, List.length_cons, List.replicate_succ]

/-- A walk that goes on is one of its split, and further steps are made by the cursor after it. -/
theorem exists_walks_walk (cursor : Cursor α) {steps : List Step}
    (going : ∀ step ∈ steps, step.ends = false) :
    ∃ after, after.items = cursor.items ∧
      cursor.split.Walks steps (walk (some cursor) steps) after.split ∧
      ∀ later, walk (some cursor) (steps ++ later) =
        walk (some cursor) steps ++ walk (some after) later := by
  induction steps generalizing cursor with
  | nil => exact ⟨cursor, rfl, .nil _, fun later => rfl⟩
  | cons step steps hypothesis =>
    obtain ⟨between, goes, same, answers⟩ :=
      cursor.respond_answers (going step List.mem_cons_self)
    obtain ⟨after, same', walks, onward⟩ :=
      hypothesis between fun step member => going step (List.mem_cons_of_mem _ member)
    refine ⟨after, same'.trans same, ?_, fun later => ?_⟩
    · rw [walk, goes]
      exact .cons answers walks
    · rw [List.cons_append, walk, goes, onward, walk, goes, List.cons_append]

end PriorityQueue.Cursor
