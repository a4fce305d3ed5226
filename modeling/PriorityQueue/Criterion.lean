import PriorityQueue.Precedence

/-!
# Named criteria

A criterion is a rule of precedence with a name. Seven criteria exist for every naturally ordered
type; a type may add criteria of its own to its catalogue. A criterion need not be a strict weak
order, nor any order at all.
-/

namespace PriorityQueue

universe u

/-- A rule of precedence that is known by a name. -/
structure Criterion (α : Type u) where
  /-- The name. -/
  name : String
  /-- Whether the first element must leave before the second. -/
  holds : α → α → Bool

instance instPrecedenceCriterion {α : Type u} : Precedence (Criterion α) α where
  precedes criterion := criterion.holds

instance instDescribeCriterion {α : Type u} : Describe (Criterion α) where
  outline criterion := .word criterion.name

/-- The criteria that only one type has. -/
class Catalogue (α : Type u) where
  /-- The criteria of this type beyond those that every type has. -/
  special : List (Criterion α) := []

namespace Criterion

/-- A criterion that compares a natural-ordered measure of the elements. -/
def measuring {α : Type u} {β : Type u} [NaturalOrder β] (name : String) (measure : α → β) :
    Criterion α :=
  ⟨name, fun left right => NaturalOrder.lt (measure left) (measure right)⟩

/-- The criteria that every naturally ordered type has. -/
def general (α : Type u) [NaturalOrder α] : List (Criterion α) := [
  ⟨"lt", NaturalOrder.lt⟩,
  ⟨"gt", fun left right => NaturalOrder.lt right left⟩,
  ⟨"le", NaturalOrder.le⟩,
  ⟨"ge", fun left right => NaturalOrder.le right left⟩,
  ⟨"ne", fun left right => !NaturalOrder.same left right⟩,
  ⟨"true", fun _ _ => true⟩,
  ⟨"false", fun _ _ => false⟩]

/-- The criterion of a name, if the type has one. -/
def named? {α : Type u} [NaturalOrder α] [Catalogue α] (name : String) : Option (Criterion α) :=
  (general α ++ Catalogue.special).find? fun criterion => criterion.name == name

end Criterion

end PriorityQueue
