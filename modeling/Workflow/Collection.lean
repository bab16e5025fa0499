/-!
# Collections in order

A collection is brought into order one item after the other: a new item moves to the left past those
that it precedes and stops behind the first one that it does not precede. Of equal items that then
stand side by side the last one stays. The comparison need not be transitive: an item is compared
only with those that it meets, so equal items may stay apart.
-/

namespace Workflow

namespace Collection

/-- Move a new item to the left. The items in front of it are listed from the right. -/
def moveLeft {α : Type} (compare : α → α → Ordering) (new : α) : List α → List α
  | [] => [new]
  | item :: items =>
    match compare new item with
    | .lt => item :: moveLeft compare new items
    | _ => new :: item :: items

/-- The items in order, listed from the right. -/
def sortFromRight {α : Type} (compare : α → α → Ordering) (items : List α) : List α :=
  items.foldl (fun sorted new => moveLeft compare new sorted) []

/-- Put an item in front of others unless the first of them equals it. -/
def putBefore {α : Type} (compare : α → α → Ordering) (item : α) : List α → List α
  | [] => [item]
  | next :: items =>
    match compare item next with
    | .eq => next :: items
    | _ => item :: next :: items

/-- The items in order, without those that equal the item behind them. -/
def arrange {α : Type} (compare : α → α → Ordering) (items : List α) : List α :=
  (sortFromRight compare items).foldl (fun kept item => putBefore compare item kept) []

end Collection

end Workflow
