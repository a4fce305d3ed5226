/-!
# Kinds of strict order

Properties that a decided relation `less` may have. A strict weak order is the strongest one
needed of a rule: it ranks the elements, with ties. A strict partial order may leave pairs
undecided in a way that is not a ranking, as proper divisibility does.
-/

namespace PriorityQueue

universe u

variable {α : Type u}

/-- Neither element precedes the other. -/
def Tied (less : α → α → Bool) (left right : α) : Prop :=
  less left right = false ∧ less right left = false

/-- No element precedes itself, and precedence is carried along chains. -/
structure StrictPartialOrder (less : α → α → Bool) : Prop where
  /-- No element precedes itself. -/
  irreflexive : ∀ element, less element element = false
  /-- What precedes a predecessor precedes. -/
  transitive : ∀ first second third,
    less first second = true → less second third = true → less first third = true

/-- A strict partial order whose ties are carried along chains, so that it ranks the elements. -/
structure StrictWeakOrder (less : α → α → Bool) : Prop extends StrictPartialOrder less where
  /-- Ties are carried along chains. -/
  tiesTransitive : ∀ first second third,
    Tied less first second → Tied less second third → Tied less first third

/-- Distinct elements are never tied. -/
def Decisive (less : α → α → Bool) : Prop :=
  ∀ left right, Tied less left right → left = right

/-- A relation that answers as an order does about every pair that the order tells apart. What it
answers about tied pairs is left open. -/
structure AgreesUpToTies (order less : α → α → Bool) : Prop where
  /-- What comes first in the order comes first. -/
  before : ∀ left right, order left right = true → less left right = true
  /-- What comes first does not come later in the order. -/
  notAfter : ∀ left right, less left right = true → order right left = false

/-- No later element of the list precedes an earlier one. -/
def NonDecreasing (less : α → α → Bool) (elements : List α) : Prop :=
  elements.Pairwise fun earlier later => less later earlier = false

/-- A predecessor is never preceded by what it precedes. -/
theorem StrictPartialOrder.asymmetric {less : α → α → Bool} (order : StrictPartialOrder less)
    {left right : α} (before : less left right = true) : less right left = false := by
  cases back : less right left with
  | false => rfl
  | true =>
    have loop := order.transitive left right left before back
    rw [order.irreflexive left] at loop
    exact absurd loop (by decide)

/-- What does not come first in a relation that agrees up to ties does not in the order either. -/
theorem AgreesUpToTies.not_before {order less : α → α → Bool} (agrees : AgreesUpToTies order less)
    {left right : α} (stays : less left right = false) : order left right = false := by
  cases before : order left right with
  | false => rfl
  | true =>
    rw [agrees.before left right before] at stays
    exact absurd stays (by decide)

/-- An asymmetric relation agrees with itself. -/
theorem StrictPartialOrder.agreesUpToTies {less : α → α → Bool}
    (order : StrictPartialOrder less) : AgreesUpToTies less less where
  before _ _ before := before
  notAfter _ _ before := order.asymmetric before

/-- In a strict weak order a failure to precede is carried along chains. -/
theorem StrictWeakOrder.not_less_trans {less : α → α → Bool} (order : StrictWeakOrder less)
    {first second third : α} (upper : less first second = false)
    (lower : less second third = false) : less first third = false := by
  cases outer : less first third with
  | false => rfl
  | true =>
    cases back : less second first with
    | true =>
      have across := order.transitive second first third back outer
      rw [lower] at across
      exact absurd across (by decide)
    | false =>
      cases forth : less third second with
      | true =>
        have across := order.transitive first third second outer forth
        rw [upper] at across
        exact absurd across (by decide)
      | false =>
        have tied := order.tiesTransitive first second third ⟨upper, back⟩ ⟨lower, forth⟩
        rw [tied.1] at outer
        exact absurd outer (by decide)

/-- In a strict weak order what precedes an element precedes whatever does not precede it. -/
theorem StrictWeakOrder.less_of_not_less {less : α → α → Bool} (order : StrictWeakOrder less)
    {first second third : α} (before : less first third = true)
    (behind : less second third = false) : less first second = true := by
  cases ahead : less first second with
  | true => rfl
  | false =>
    have never := order.not_less_trans ahead behind
    rw [before] at never
    exact absurd never (by decide)

end PriorityQueue
