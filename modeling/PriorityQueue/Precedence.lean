import PriorityQueue.NaturalOrder
import PriorityQueue.Outline

/-!
# Rules of precedence

A queue is ruled by a decision on pairs of its elements: whether the first must leave before the
second. Any Boolean function of two elements is a rule. `Natural` follows the natural order of
the element type, and `Reversed` swaps the arguments of the rule it wraps, so that a queue that
gave its least element first gives its greatest first. No law is required of a rule.
-/

namespace PriorityQueue

universe u v

/-- The values of `ρ` are rules that decide which of two elements leaves a queue first. -/
class Precedence (ρ : Type v) (α : outParam (Type u)) where
  /-- Whether the first element must leave before the second. -/
  precedes : ρ → α → α → Bool

export Precedence (precedes)

instance instPrecedenceFunction {α : Type u} : Precedence (α → α → Bool) α where
  precedes rule := rule

/-- A function used as a rule decides by itself. -/
@[simp] theorem precedes_function {α : Type u} (less : α → α → Bool) (left right : α) :
    precedes less left right = less left right := rfl

/-- The rule of the natural order: the smaller element leaves first. -/
structure Natural (α : Type u) where
deriving DecidableEq, Inhabited

instance instPrecedenceNatural {α : Type u} [NaturalOrder α] : Precedence (Natural α) α where
  precedes _ := NaturalOrder.lt

/-- The natural rule is the strict natural order. -/
@[simp] theorem precedes_natural {α : Type u} [NaturalOrder α] (rule : Natural α)
    (left right : α) : precedes rule left right = NaturalOrder.lt left right := rfl

instance instDescribeNatural {α : Type u} : Describe (Natural α) where
  outline _ := .word "OrdLess"

/-- A wrapped value whose direction is turned around. -/
structure Reversed (ρ : Type v) where
  /-- The value before it is turned around. -/
  inner : ρ
deriving DecidableEq, Inhabited

instance instPrecedenceReversed {α : Type u} {ρ : Type v} [Precedence ρ α] :
    Precedence (Reversed ρ) α where
  precedes rule left right := precedes rule.inner right left

/-- A reversed rule asks the wrapped rule about the swapped pair. -/
@[simp] theorem precedes_reversed {α : Type u} {ρ : Type v} [Precedence ρ α]
    (rule : Reversed ρ) (left right : α) :
    precedes rule left right = precedes rule.inner right left := rfl

instance instDescribeReversed {ρ : Type v} [Describe ρ] : Describe (Reversed ρ) where
  outline rule := .labelled "Reversed" [outline rule.inner]

end PriorityQueue
