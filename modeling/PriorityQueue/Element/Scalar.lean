import PriorityQueue.Criterion
import PriorityQueue.Heap.Basic

/-!
# Values without parts as elements

Each element type here has its natural order, the bytes that an element takes up in storage, and
criteria of its own. False comes before true, and the only value of the one-value type never
precedes itself and takes up no space. Integers, of 64 or 128 bits, and natural numbers are in
numeric order. The criteria of the integers rank them by size without sign, by last digit or by the
digits before it, or relate them without ranking them: divisibility is a strict partial order only,
and the cyclic criterion has no least element.

A double is its 64 bits: a sign above a magnitude. Magnitudes order the nonnegative numbers, so
all comparisons are comparisons of integers and none needs floating-point arithmetic. In the
numeric order both zeros are the same and a value that is not a number is comparable to nothing,
itself included; the total order ranks every pair of distinct bit patterns.
-/

namespace PriorityQueue

instance instNaturalOrderBool : NaturalOrder Bool where
  lt left right := !left && right
  same left right := left == right

instance instFootprintBool : Footprint Bool where
  width := 1

instance instCatalogueBool : Catalogue Bool where

instance instNaturalOrderUnit : NaturalOrder Unit where
  lt _ _ := false
  same _ _ := true

instance instFootprintUnit : Footprint Unit where
  width := 0

instance instCatalogueUnit : Catalogue Unit where

instance instNaturalOrderInt : NaturalOrder Int where
  lt left right := decide (left < right)
  same left right := decide (left = right)

instance instNaturalOrderNat : NaturalOrder Nat where
  lt left right := decide (left < right)
  same left right := decide (left = right)

instance instFootprintInt : Footprint Int where
  width := 8

instance instFootprintNat : Footprint Nat where
  width := 8

/-- Whether an integer leaves a remainder when halved. -/
def isOdd (number : Int) : Bool := decide (number % 2 = 1)

/-- Whether the first integer is a divisor of the second other than zero and the second itself. -/
def properlyDivides (divisor number : Int) : Bool :=
  decide (divisor ≠ 0) && decide (divisor ≠ number) && decide (number % divisor = 0)

/-- Whether the first integer beats the second when integers are taken in a circle of three, in
which each beats the one before it. -/
def beatsInCircle (left right : Int) : Bool := decide ((left - right) % 3 = 1)

instance instCatalogueInt : Catalogue Int where
  special := [
    .measuring "abs" Int.natAbs,
    .measuring "mod10" fun number => number % 10,
    .measuring "div10" fun number => number / 10,
    ⟨"rps", beatsInCircle⟩,
    ⟨"divides", properlyDivides⟩,
    ⟨"even_first", fun left right => !isOdd left && isOdd right⟩,
    ⟨"left_odd", fun left _ => isOdd left⟩,
    ⟨"right_odd", fun _ right => isOdd right⟩]

instance instCatalogueNat : Catalogue Nat where

/-- An integer of 128 bits, kept apart from `Int` because it takes up twice the space. -/
structure Wide where
  /-- The number. -/
  value : Int
deriving DecidableEq

instance instNaturalOrderWide : NaturalOrder Wide where
  lt left right := decide (left.value < right.value)
  same left right := decide (left.value = right.value)

instance instDescribeWide : Describe Wide where
  outline wide := outline wide.value

instance instFootprintWide : Footprint Wide where
  width := 16

instance instCatalogueWide : Catalogue Wide where

/-- A double-precision number, given by its bits. -/
structure Double where
  /-- Sign, exponent and fraction, from the highest bit down. -/
  bits : UInt64
deriving DecidableEq

namespace Double

/-- The bits below the sign, as a number. -/
def magnitude (double : Double) : Nat := double.bits.toNat % 0x8000000000000000

/-- Whether the sign bit is set. -/
def isNegative (double : Double) : Bool := decide (0x8000000000000000 ≤ double.bits.toNat)

/-- Whether the bits stand for no number: the exponent is full and the fraction is not zero. -/
def isNaN (double : Double) : Bool := decide (0x7ff0000000000000 < double.magnitude)

/-- The place of a number in numeric order; both zeros have place zero. -/
def numericRank (double : Double) : Int :=
  if double.isNegative then -double.magnitude else double.magnitude

/-- The place of a bit pattern in total order; distinct patterns have distinct places. -/
def totalRank (double : Double) : Int :=
  if double.isNegative then -double.magnitude - 1 else double.magnitude

/-- Whether both bit patterns stand for numbers. -/
def areNumbers (left right : Double) : Bool := !left.isNaN && !right.isNaN

/-- The same number without its sign. -/
def abs (double : Double) : Double := ⟨UInt64.ofNat double.magnitude⟩

/-- The digits of the bits in base sixteen, always sixteen of them. -/
def toHex (double : Double) : String :=
  let digits := Nat.toDigits 16 double.bits.toNat
  String.ofList (List.replicate (16 - digits.length) '0' ++ digits)

/-- The value of a small digit in base sixteen. -/
def hexDigit? (char : Char) : Option Nat :=
  if 0x30 ≤ char.toNat ∧ char.toNat ≤ 0x39 then some (char.toNat - 0x30)
  else if 0x61 ≤ char.toNat ∧ char.toNat ≤ 0x66 then some (char.toNat - 0x57)
  else none

/-- The double whose bits are given by exactly sixteen digits. -/
def ofHex? (text : String) : Option Double :=
  if text.toList.length = 16 then
    (text.toList.foldlM (fun value char => (hexDigit? char).map (16 * value + ·)) 0).map
      fun value => ⟨UInt64.ofNat value⟩
  else none

end Double

instance instNaturalOrderDouble : NaturalOrder Double where
  lt left right := left.areNumbers right && decide (left.numericRank < right.numericRank)
  same left right := left.areNumbers right && decide (left.numericRank = right.numericRank)

instance instDescribeDouble : Describe Double where
  outline double := .word ("0x" ++ double.toHex)

instance instFootprintDouble : Footprint Double where
  width := 8

instance instCatalogueDouble : Catalogue Double where
  special := [
    ⟨"total", fun left right => decide (left.totalRank < right.totalRank)⟩,
    .measuring "abs" Double.abs,
    ⟨"not_ge", fun left right => !NaturalOrder.le right left⟩]

end PriorityQueue
