import PriorityQueue.Element.Scalar

/-!
# Values with parts as elements

An absent integer comes before every present one, and lists are in dictionary order. The criteria
of lists compare length, sum, first member or last member; an empty list has no first or last
member and comes before the lists that do.

A tree is a leaf with an integer or a node with a list of trees. Every leaf comes before every
node; leaves compare by their integers and nodes by their children, in dictionary order. The
criterion of depth counts the nodes on the longest branch.

Heaps are ordered as the lists of their elements in level order. Their criteria compare the
elements that leave next, an empty heap coming first, or the numbers of elements.
-/

namespace PriorityQueue

universe u v

instance instFootprintOptionInt : Footprint (Option Int) where
  width := 16

instance instCatalogueOptionInt : Catalogue (Option Int) where

instance instFootprintList {α : Type u} : Footprint (List α) where
  width := 24

instance instCatalogueListInt : Catalogue (List Int) where
  special := [
    .measuring "len" List.length,
    .measuring "sum" fun members => members.foldl (· + ·) 0,
    .measuring "first" List.head?,
    .measuring "last" List.getLast?]

/-- A leaf with an integer, or a node with any number of children in order. -/
inductive Tree where
  /-- A leaf. -/
  | leaf (value : Int)
  /-- A node. -/
  | node (children : List Tree)

namespace Tree

mutual
/-- Leaves before nodes, leaves by value, nodes by the first child that differs. -/
def lt : Tree → Tree → Bool
  | .leaf left, .leaf right => NaturalOrder.lt left right
  | .leaf _, .node _ => true
  | .node _, .leaf _ => false
  | .node lefts, .node rights => childrenLt lefts rights

/-- Dictionary order on lists of children. -/
def childrenLt : List Tree → List Tree → Bool
  | _, [] => false
  | [], _ :: _ => true
  | left :: lefts, right :: rights =>
    lt left right || (same left right && childrenLt lefts rights)

/-- Whether two trees have one shape and the same values. -/
def same : Tree → Tree → Bool
  | .leaf left, .leaf right => NaturalOrder.same left right
  | .node lefts, .node rights => childrenSame lefts rights
  | _, _ => false

/-- Whether two lists of children are the same place by place. -/
def childrenSame : List Tree → List Tree → Bool
  | [], [] => true
  | left :: lefts, right :: rights => same left right && childrenSame lefts rights
  | _, _ => false
end

mutual
/-- The number of nodes on the longest branch. -/
def depth : Tree → Nat
  | .leaf _ => 0
  | .node children => 1 + greatestDepth children

/-- The greatest depth among trees, zero if there are none. -/
def greatestDepth : List Tree → Nat
  | [] => 0
  | child :: children => max child.depth (greatestDepth children)
end

mutual
/-- The outline of a tree. -/
def toOutline : Tree → Outline
  | .leaf value => .labelled "Leaf" [outline value]
  | .node children => .labelled "Node" [.sequence (childrenOutlines children)]

/-- The outlines of several trees. -/
def childrenOutlines : List Tree → List Outline
  | [] => []
  | child :: children => child.toOutline :: childrenOutlines children
end

end Tree

instance instNaturalOrderTree : NaturalOrder Tree where
  lt := Tree.lt
  same := Tree.same

instance instDescribeTree : Describe Tree where
  outline := Tree.toOutline

instance instFootprintTree : Footprint Tree where
  width := 24

instance instCatalogueTree : Catalogue Tree where
  special := [.measuring "depth" Tree.depth]

instance instNaturalOrderHeap {α : Type u} {ρ : Type v} [NaturalOrder α] : NaturalOrder (Heap α ρ) where
  lt left right := NaturalOrder.lt left.toList right.toList
  same left right := NaturalOrder.same left.toList right.toList

instance instFootprintHeap {α : Type u} : Footprint (Heap α (Natural α)) where
  width := 24

instance instCatalogueHeap : Catalogue (Heap Int (Natural Int)) where
  special := [
    .measuring "peek" Heap.peek?,
    .measuring "len" Heap.size]

end PriorityQueue
