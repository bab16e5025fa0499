/-!
# Search trees

A search tree keeps items in the order of a comparison that the caller gives. A node is a row of at
most eleven items with a subtree on either side of each. A new item is compared with the items of a
row from the left; it goes behind those that it follows, into the subtree in front of the first
one that it precedes. A row that grows beyond eleven items is halved, and the item between the
halves moves up. The comparison need not be transitive: what a row does not hold is not compared, so
the order in which items stand is that of the tree.
-/

namespace Workflow

mutual

/-- A search tree. -/
inductive SearchTree (α : Type) where
  /-- A tree without items. -/
  | empty
  /-- A node. -/
  | node (row : SearchRow α)

/-- The row of a node. -/
inductive SearchRow (α : Type) where
  /-- The subtree at the right end. -/
  | last (child : SearchTree α)
  /-- An item with the subtree on its left. -/
  | cons (child : SearchTree α) (item : α) (rest : SearchRow α)

end

namespace SearchTree

/-- The most items that a row holds. -/
def capacity : Nat := 11

/-- A tree to which an item was added. -/
inductive Grown (α : Type) where
  /-- The tree stays one. -/
  | whole (tree : SearchTree α)
  /-- The tree falls into two, and an item stands between them. -/
  | halves (left : SearchTree α) (item : α) (right : SearchTree α)

/-- A row to which an item was added, with the position of the item that the row itself gained. -/
structure Widened (α : Type) where
  /-- The row. -/
  row : SearchRow α
  /-- The position of the new item of the row, if it has one. -/
  position : Option Nat

/-- The number of items of a row, those of its subtrees left out. -/
def width {α : Type} : SearchRow α → Nat
  | .last _ => 0
  | .cons _ _ rest => width rest + 1

/-- Cut a row at the item in the given position, or at the last one if it has fewer. -/
def cut {α : Type} : Nat → SearchRow α → Grown α
  | _, .last child => .whole (.node (.last child))
  | 0, .cons child item rest => .halves (.node (.last child)) item (.node rest)
  | n + 1, .cons child item rest =>
    match cut n rest with
    | .halves (.node left) middle right =>
      .halves (.node (.cons child item left)) middle right
    | .halves .empty middle right => .halves (.node (.cons child item (.last .empty))) middle right
    | .whole _ => .whole (.node (.cons child item rest))

/-- The position at which a row is halved that has become too wide: one of the two in the middle,
and never that of the new item. -/
def middle (position : Nat) : Nat :=
  if position < 5 ∨ position = 6 then 5 else 6

/-- The node of a widened row; a row beyond the capacity is halved. -/
def settle {α : Type} (widened : Widened α) : Grown α :=
  match widened.position with
  | some position =>
    if width widened.row ≤ capacity then .whole (.node widened.row)
    else cut (middle position) widened.row
  | none => .whole (.node widened.row)

/-- Put a grown subtree at the right end of a row. -/
def endWith {α : Type} : Grown α → Widened α
  | .whole tree => ⟨.last tree, none⟩
  | .halves left item right => ⟨.cons left item (.last right), some 0⟩

/-- Put a grown subtree in front of an item. -/
def before {α : Type} (item : α) (rest : SearchRow α) : Grown α → Widened α
  | .whole tree => ⟨.cons tree item rest, none⟩
  | .halves left new right => ⟨.cons left new (.cons right item rest), some 0⟩

mutual

/-- Add an item to a tree; `none` if the comparison calls it equal to one that it meets. -/
def grow? {α : Type} (compare : α → α → Ordering) (new : α) : SearchTree α → Option (Grown α)
  | empty => some (.halves .empty new .empty)
  | node row => (widen? compare new row).map settle
termination_by structural tree => tree

/-- Add an item to a row or to the subtree where it belongs. -/
def widen? {α : Type} (compare : α → α → Ordering) (new : α) : SearchRow α → Option (Widened α)
  | .last child => (grow? compare new child).map endWith
  | .cons child item rest =>
    match compare new item with
    | .lt => (grow? compare new child).map (before item rest)
    | .eq => none
    | .gt =>
      (widen? compare new rest).map fun widened =>
        ⟨.cons child item widened.row, widened.position.map (· + 1)⟩
termination_by structural row => row

end

/-- Add an item; `none` if the comparison calls it equal to one that it meets. -/
def insert? {α : Type} (compare : α → α → Ordering) (tree : SearchTree α) (new : α) :
    Option (SearchTree α) :=
  (grow? compare new tree).map fun
    | .whole tree => tree
    | .halves left item right => .node (.cons left item (.last right))

mutual

/-- The items from the left to the right. -/
def toList {α : Type} : SearchTree α → List α
  | empty => []
  | node row => rowList row

/-- The items of a row and its subtrees from the left to the right. -/
def rowList {α : Type} : SearchRow α → List α
  | .last child => toList child
  | .cons child item rest => toList child ++ item :: rowList rest

end

/-- Items put in order one after the other; `none` if one of them is there already. -/
def order? {α : Type} (compare : α → α → Ordering) (items : List α) : Option (List α) :=
  (items.foldlM (insert? compare) empty).map toList

end SearchTree

end Workflow
