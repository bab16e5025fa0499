import Workflow.Environment
import Workflow.Fault

/-!
# Work items and the work queue

Everything that an executor does is a work item. Items wait in a queue ordered by priority and, in
one priority, by arrival; the next item stands at the front.
-/

namespace Workflow

/-- How urgent a work item is. -/
inductive Priority where
  /-- It waits for all normal work. -/
  | low
  /-- It is done in turn. -/
  | normal
deriving DecidableEq

/-- A unit of work. -/
inductive WorkItem where
  /-- Run the body of an instance. -/
  | execute (id : InstanceId)
  /-- Tell a parent that a child has completed. -/
  | completion (parent child : InstanceId)
  /-- Ask a parent to handle the fault of a child. -/
  | fault (handler child : InstanceId) (callback : CallbackTag) (fault : Fault)
  /-- Ask an instance to cancel. -/
  | cancel (id : InstanceId)
  /-- Pass a value to the owner of a bookmark; `releases` if the owner stops waiting for it. -/
  | bookmark (owner : InstanceId) (b : Bookmark) (callback : Option CallbackTag) (v : Value)
      (releases : Bool)
  /-- Complete an operation. -/
  | operation (operation : OperationId) (result : Except ActivityError Value)

namespace WorkItem

/-- The instance that an item acts on. -/
def target? : WorkItem → Option InstanceId
  | execute id => some id
  | completion parent _ => some parent
  | fault handler _ _ _ => some handler
  | cancel id => some id
  | bookmark owner _ _ _ _ => some owner
  | operation _ _ => none

/-- The name of an item's kind. -/
def label : WorkItem → String
  | execute _ => "execute"
  | completion _ _ => "completion"
  | fault _ _ _ _ => "fault"
  | cancel _ => "cancel"
  | bookmark _ _ _ _ _ => "bookmark"
  | operation _ _ => "async-completion"

end WorkItem

/-- A work item in the queue. -/
structure QueuedItem where
  /-- Its priority. -/
  priority : Priority
  /-- Its number in the order of arrival. -/
  arrival : Nat
  /-- The item. -/
  item : WorkItem

/-- Whether one queued item is done before another. -/
def QueuedItem.precedes (a b : QueuedItem) : Bool :=
  match a.priority, b.priority with
  | .normal, .low => true
  | .low, .normal => false
  | _, _ => decide (a.arrival < b.arrival)

namespace QueuedItem

/-- An item that came later precedes another only by its priority, and then all that the other
precedes. -/
theorem precedes_of_precedes {q p r : QueuedItem} (hq : q.precedes p = true)
    (hp : p.precedes r = true) (ha : p.arrival < q.arrival) : q.precedes r = true := by
  unfold precedes at *
  cases hqp : q.priority <;> cases hpp : p.priority <;> cases hrp : r.priority <;>
    simp_all <;> omega

/-- An item that came later either precedes another or is preceded by it. -/
theorem precedes_of_not_precedes {q p : QueuedItem} (hq : ¬ q.precedes p = true)
    (ha : p.arrival < q.arrival) : p.precedes q = true := by
  unfold precedes at *
  cases hqp : q.priority <;> cases hpp : p.priority <;> simp_all

end QueuedItem

namespace WorkQueue

/-- Put an item in its place among ordered items. -/
def insert (q : QueuedItem) : List QueuedItem → List QueuedItem
  | [] => [q]
  | p :: rest => if q.precedes p then q :: p :: rest else p :: insert q rest

/-- Insertion adds one item. -/
theorem insert_perm (q : QueuedItem) (items : List QueuedItem) :
    (insert q items).Perm (q :: items) := by
  induction items with
  | nil => exact .refl _
  | cons p rest ih =>
    unfold insert
    split
    · exact .refl _
    · exact (ih.cons p).trans (.swap q p rest)

/-- Insertion of an item that came last keeps the order. -/
theorem insert_ordered {q : QueuedItem} {items : List QueuedItem}
    (ho : items.Pairwise fun a b => a.precedes b = true)
    (ha : ∀ p ∈ items, p.arrival < q.arrival) :
    (insert q items).Pairwise fun a b => a.precedes b = true := by
  induction items with
  | nil => exact List.pairwise_singleton _ _
  | cons p rest ih =>
    obtain ⟨hp, hr⟩ := List.pairwise_cons.mp ho
    have hpa : p.arrival < q.arrival := ha p List.mem_cons_self
    unfold insert
    split
    · next hq =>
      refine List.pairwise_cons.mpr ⟨fun r hm => ?_, ho⟩
      rcases List.mem_cons.mp hm with rfl | hm
      · exact hq
      · exact QueuedItem.precedes_of_precedes hq (hp r hm) hpa
    · next hq =>
      refine List.pairwise_cons.mpr ⟨fun r hm => ?_, ih hr fun r hm => ha r (List.mem_cons_of_mem p hm)⟩
      rcases List.mem_cons.mp ((insert_perm q rest).mem_iff.mp hm) with rfl | hm
      · exact QueuedItem.precedes_of_not_precedes hq hpa
      · exact hp r hm

end WorkQueue

/-- The waiting work. -/
structure WorkQueue where
  /-- The items, the next one first. -/
  items : List QueuedItem := []
  /-- The arrival number of the next item. -/
  nextArrival : Nat := 0
  /-- Items stand in the order in which they are done. -/
  ordered : items.Pairwise fun a b => a.precedes b = true := by exact .nil
  /-- Every item has arrived. -/
  numbered : ∀ q ∈ items, q.arrival < nextArrival := by exact fun _ h => nomatch h

namespace WorkQueue

/-- The queue without items. -/
def empty : WorkQueue := {}

/-- Add an item. -/
def push (q : WorkQueue) (item : WorkItem) (priority : Priority := .normal) : WorkQueue where
  items := insert ⟨priority, q.nextArrival, item⟩ q.items
  nextArrival := q.nextArrival + 1
  ordered := insert_ordered q.ordered q.numbered
  numbered p hp := by
    rcases List.mem_cons.mp ((insert_perm _ _).mem_iff.mp hp) with rfl | hp
    · exact Nat.lt_succ_self _
    · exact Nat.lt_succ_of_lt (q.numbered p hp)

/-- The next item and the queue without it. -/
def pop? : WorkQueue → Option (WorkItem × WorkQueue)
  | ⟨[], _, _, _⟩ => none
  | ⟨p :: rest, next, ho, hn⟩ =>
    some (p.item, ⟨rest, next, ho.of_cons, fun r hr => hn r (List.mem_cons_of_mem p hr)⟩)

/-- Drop every item. -/
def clear (q : WorkQueue) : WorkQueue :=
  { nextArrival := q.nextArrival }

/-- The number of items. -/
def size (q : WorkQueue) : Nat :=
  q.items.length

/-- Whether no item waits. -/
def isEmpty (q : WorkQueue) : Bool :=
  q.items.isEmpty

/-- Whether an item waits. -/
def hasWork (q : WorkQueue) : Bool :=
  !q.isEmpty

/-- Whether an item of normal priority waits. -/
def hasNormalWork (q : WorkQueue) : Bool :=
  q.items.head?.any (·.priority == .normal)

end WorkQueue

end Workflow
