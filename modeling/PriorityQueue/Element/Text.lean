import PriorityQueue.Element.Scalar

/-!
# Text as elements

Characters are ordered by code point, and strings as dictionaries order sequences of characters,
which is also the order of their bytes in UTF-8. The criteria of strings compare lengths in bytes
or in characters, look at the last character only, ignore the case of ASCII letters, or ask for
a proper beginning.

A tagged key is an integer with a text that says where it came from. The natural order ranks by key
and then by tag; the criteria look at one of the two, or at both the other way round.
-/

namespace PriorityQueue

instance instNaturalOrderChar : NaturalOrder Char where
  lt left right := decide (left.toNat < right.toNat)
  same left right := decide (left.toNat = right.toNat)

instance instFootprintChar : Footprint Char where
  width := 4

instance instCatalogueChar : Catalogue Char where

instance instNaturalOrderString : NaturalOrder String where
  lt left right := NaturalOrder.listLt left.toList right.toList
  same left right := NaturalOrder.listSame left.toList right.toList

instance instFootprintString : Footprint String where
  width := 24

/-- A character with the capital letters of ASCII made small. -/
def lowerAscii (char : Char) : Char :=
  if 0x41 ≤ char.toNat ∧ char.toNat ≤ 0x5a then Char.ofNat (char.toNat + 0x20) else char

/-- Whether a list begins with another. -/
def beginsWith {α : Type} [NaturalOrder α] : List α → List α → Bool
  | _, [] => true
  | [], _ :: _ => false
  | char :: text, start :: starts => NaturalOrder.same char start && beginsWith text starts

/-- Whether the first string is a beginning of the second other than the second itself. -/
def properlyBegins (start text : String) : Bool :=
  !NaturalOrder.same start text && beginsWith text.toList start.toList

instance instCatalogueString : Catalogue String where
  special := [
    ⟨"bytes", fun left right => decide (left.utf8ByteSize < right.utf8ByteSize)⟩,
    ⟨"chars", fun left right => decide (left.toList.length < right.toList.length)⟩,
    ⟨"ci", fun left right =>
      NaturalOrder.listLt (left.toList.map lowerAscii) (right.toList.map lowerAscii)⟩,
    ⟨"last", fun left right =>
      NaturalOrder.optionLt left.toList.getLast? right.toList.getLast?⟩,
    ⟨"prefix", properlyBegins⟩]

/-- An integer key with a text attached. -/
structure Tagged where
  /-- The number that usually decides. -/
  key : Int
  /-- The text that tells equal keys apart. -/
  tag : String
deriving DecidableEq

instance instNaturalOrderTagged : NaturalOrder Tagged where
  lt left right :=
    NaturalOrder.lt left.key right.key ||
      (NaturalOrder.same left.key right.key && NaturalOrder.lt left.tag right.tag)
  same left right :=
    NaturalOrder.same left.key right.key && NaturalOrder.same left.tag right.tag

instance instDescribeTagged : Describe Tagged where
  outline tagged := .labelled "" [outline tagged.key, outline tagged.tag]

instance instFootprintTagged : Footprint Tagged where
  width := 32

instance instCatalogueTagged : Catalogue Tagged where
  special := [
    .measuring "key" Tagged.key,
    ⟨"key_desc", fun left right => NaturalOrder.lt right.key left.key⟩,
    ⟨"key_le", fun left right => NaturalOrder.le left.key right.key⟩,
    .measuring "tag" Tagged.tag,
    ⟨"tag_key_desc", fun left right =>
      NaturalOrder.lt left.tag right.tag ||
        (NaturalOrder.same left.tag right.tag && NaturalOrder.lt right.key left.key)⟩]

end PriorityQueue
