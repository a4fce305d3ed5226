/-!
# The natural order of a type

A natural order is a decided strict order together with a decided equality. The two are separate
because they may disagree: a value that is incomparable to itself is neither before nor the same
as itself. Optional values, lists and products of steps build on the order of their parts.
-/

namespace PriorityQueue

universe u

/-- The customary order of a type, as two decisions on a pair of values. -/
class NaturalOrder (α : Type u) where
  /-- Whether the first value is strictly smaller than the second. -/
  lt : α → α → Bool
  /-- Whether the two values count as equal. -/
  same : α → α → Bool

namespace NaturalOrder

/-- Smaller or the same; false for an incomparable pair. -/
def le {α : Type u} [NaturalOrder α] (left right : α) : Bool := lt left right || same left right

/-- Dictionary order: the first difference decides, and a proper beginning comes first. -/
def listLt {α : Type u} [NaturalOrder α] : List α → List α → Bool
  | _, [] => false
  | [], _ :: _ => true
  | left :: lefts, right :: rights =>
    lt left right || (same left right && listLt lefts rights)

/-- Lists are the same when they have one length and agree place by place. -/
def listSame {α : Type u} [NaturalOrder α] : List α → List α → Bool
  | [], [] => true
  | left :: lefts, right :: rights => same left right && listSame lefts rights
  | _, _ => false

/-- Nothing comes before something, and two present values compare by themselves. -/
def optionLt {α : Type u} [NaturalOrder α] : Option α → Option α → Bool
  | _, none => false
  | none, some _ => true
  | some left, some right => lt left right

/-- Optional values are the same when both are absent or both hold the same value. -/
def optionSame {α : Type u} [NaturalOrder α] : Option α → Option α → Bool
  | none, none => true
  | some left, some right => same left right
  | _, _ => false

end NaturalOrder

instance instNaturalOrderList {α : Type u} [NaturalOrder α] : NaturalOrder (List α) where
  lt := NaturalOrder.listLt
  same := NaturalOrder.listSame

instance instNaturalOrderOption {α : Type u} [NaturalOrder α] : NaturalOrder (Option α) where
  lt := NaturalOrder.optionLt
  same := NaturalOrder.optionSame

end PriorityQueue
