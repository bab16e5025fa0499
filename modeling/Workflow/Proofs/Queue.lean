import Workflow.WorkQueue
import Mathlib.Data.List.Perm.Basic

/-!
# What a queue holds

The work of a queue as a list of items. Adding an item adds it once, and taking the next item takes
it away once.

Waiting work is kept as one list, ordered by priority and arrival. It acts like two lines, one for each
priority, that are joined at the end and served at the front, the one of low priority only while the
other is empty. Any heap that takes the greatest item by the same order acts like the two lines as well,
in whatever order it keeps the items.
-/

namespace Workflow

open scoped List

namespace WorkItem

/-- The parent and the child of an item that tells of a completed or faulted child. -/
def report? : WorkItem → Option (InstanceId × InstanceId)
  | completion parent child => some (parent, child)
  | fault handler child _ _ => some (handler, child)
  | _ => none

/-- Whether an item tells of a child. -/
def tellsOf (child : InstanceId) (w : WorkItem) : Bool :=
  w.report?.any (·.2 == child)

/-- Whether an item passes a value to an instance. -/
def resumes (owner : InstanceId) : WorkItem → Bool
  | bookmark o _ _ _ _ => o == owner
  | _ => false

/-- Whether the owner of a bookmark stops waiting for it when the item is done. -/
def releases (owner : InstanceId) : WorkItem → Bool
  | bookmark o _ _ _ releases => releases && o == owner
  | _ => false

theorem resumes_of_releases {owner : InstanceId} {w : WorkItem} (h : w.releases owner = true) :
    w.resumes owner = true := by
  cases w with
  | bookmark o b callback v releases => exact (Bool.and_eq_true_iff.mp h).2
  | _ => exact absurd h Bool.false_ne_true

end WorkItem

namespace WorkQueue

/-- The items of a queue, the next one first. -/
def work (q : WorkQueue) : List WorkItem :=
  q.items.map (·.item)

/-- Adding an item adds it once. -/
theorem work_push_perm (q : WorkQueue) (w : WorkItem) (p : Priority) :
    (q.push w p).work.Perm (w :: q.work) :=
  (insert_perm ⟨p, q.nextArrival, w⟩ q.items).map QueuedItem.item

@[simp]
theorem mem_work_push {q : WorkQueue} {w v : WorkItem} {p : Priority} :
    v ∈ (q.push w p).work ↔ v = w ∨ v ∈ q.work := by
  rw [(q.work_push_perm w p).mem_iff, List.mem_cons]

@[simp]
theorem countP_work_push (q : WorkQueue) (w : WorkItem) (p : Priority) (f : WorkItem → Bool) :
    (q.push w p).work.countP f = q.work.countP f + if f w then 1 else 0 := by
  rw [(q.work_push_perm w p).countP_eq, List.countP_cons]

/-- The next item stands first. -/
theorem work_of_pop? {q r : WorkQueue} {w : WorkItem} (h : q.pop? = some (w, r)) :
    q.work = w :: r.work := by
  rcases q with ⟨_ | ⟨p, rest⟩, n, ho, hn⟩
  · exact absurd h (Option.some_ne_none _ ·.symm)
  · obtain ⟨rfl, rfl⟩ := Prod.mk.inj (Option.some.inj h)
    rfl

/-- There is a next item unless the queue holds nothing. -/
theorem work_of_pop?_none {q : WorkQueue} (h : q.pop? = none) : q.work = [] := by
  rcases q with ⟨_ | ⟨p, rest⟩, n, ho, hn⟩
  · rfl
  · exact absurd h (Option.some_ne_none _)

theorem isEmpty_iff {q : WorkQueue} : q.isEmpty = true ↔ q.work = [] := by
  rw [isEmpty, work, List.isEmpty_iff, List.map_eq_nil_iff]

end WorkQueue

/-! ### Calls -/

/-- What a queue may be asked for. -/
inductive QueueCall where
  /-- Add an item. -/
  | push (w : WorkItem) (p : Priority)
  /-- Hand out the next item. -/
  | pop
  /-- Drop every item. -/
  | clear

/-- What can be seen of waiting work without taking any. -/
structure QueueView where
  /-- The number of items. -/
  size : Nat
  /-- Whether no item waits. -/
  isEmpty : Bool
  /-- Whether an item waits. -/
  hasWork : Bool
  /-- Whether an item of normal priority waits. -/
  hasNormalWork : Bool

namespace QueueCall

/-- The item that a call adds. -/
def pushed? : QueueCall → Option WorkItem
  | push w _ => some w
  | _ => none

/-- Serve one call after another: for each the item that was handed out and what can be seen then, and
what there is at the end. -/
def serveAll {α : Type} (serve : α → QueueCall → Option WorkItem × α) (view : α → QueueView) (a : α) :
    List QueueCall → List (Option WorkItem × QueueView) × α
  | [] => ([], a)
  | c :: rest =>
    let (item, a) := serve a c
    let (answers, last) := serveAll serve view a rest
    ((item, view a) :: answers, last)

end QueueCall

namespace WorkQueue

/-- Serve a call. -/
def serve (q : WorkQueue) : QueueCall → Option WorkItem × WorkQueue
  | .push w p => (none, q.push w p)
  | .pop =>
    match q.pop? with
    | some (w, q) => (some w, q)
    | none => (none, q)
  | .clear => (none, q.clear)

/-- What can be seen of a queue. -/
def view (q : WorkQueue) : QueueView :=
  ⟨q.size, q.isEmpty, q.hasWork, q.hasNormalWork⟩

end WorkQueue

/-- Two lines of waiting work, the oldest item of each first. -/
structure Lines where
  /-- The items of normal priority. -/
  normal : List WorkItem := []
  /-- The items of low priority. -/
  low : List WorkItem := []

namespace Lines

/-- Join a line at its end. -/
def push (l : Lines) (w : WorkItem) : Priority → Lines
  | .normal => { l with normal := l.normal ++ [w] }
  | .low => { l with low := l.low ++ [w] }

/-- All items, those of normal priority first. -/
def work (l : Lines) : List WorkItem :=
  l.normal ++ l.low

/-- Serve a call. -/
def serve : Lines → QueueCall → Option WorkItem × Lines
  | l, .push w p => (none, l.push w p)
  | ⟨w :: normal, low⟩, .pop => (some w, ⟨normal, low⟩)
  | ⟨[], w :: low⟩, .pop => (some w, ⟨[], low⟩)
  | ⟨[], []⟩, .pop => (none, {})
  | _, .clear => (none, {})

/-- What can be seen of the lines. -/
def view (l : Lines) : QueueView :=
  ⟨l.normal.length + l.low.length, l.work.isEmpty, !l.work.isEmpty, !l.normal.isEmpty⟩

/-- The items that a call drops. -/
def droppedBy (l : Lines) : QueueCall → List WorkItem
  | .clear => l.work
  | _ => []

/-- The items that are dropped in the course of several calls. -/
def dropped : Lines → List QueueCall → List WorkItem
  | _, [] => []
  | l, c :: rest => l.droppedBy c ++ dropped (l.serve c).2 rest

end Lines

/-! ### The queue as two lines -/

namespace WorkQueue

variable {q : WorkQueue} {ns ls : List QueuedItem} {n : Nat} {w : WorkItem}

/-- A new item of normal priority stands behind the others of its priority. -/
theorem insert_normal (hn : ∀ a ∈ ns, a.priority = .normal ∧ a.arrival < n)
    (hl : ∀ a ∈ ls, a.priority = .low) :
    insert ⟨.normal, n, w⟩ (ns ++ ls) = ns ++ ⟨.normal, n, w⟩ :: ls := by
  induction ns with
  | nil =>
    cases ls with
    | nil => rfl
    | cons a rest =>
      refine if_pos ?_
      rw [QueuedItem.precedes, hl a List.mem_cons_self]
  | cons a rest ih =>
    obtain ⟨hp, ha⟩ := hn a List.mem_cons_self
    have behind : ¬ QueuedItem.precedes ⟨.normal, n, w⟩ a = true := by
      rw [QueuedItem.precedes, hp]
      exact fun h => Nat.lt_asymm ha (of_decide_eq_true h)
    rw [List.cons_append, insert, if_neg behind, ih fun b hb => hn b (List.mem_cons_of_mem _ hb)]
    rfl

/-- A new item of low priority stands behind all others. -/
theorem insert_low {items : List QueuedItem} (hn : ∀ a ∈ items, a.arrival < n) :
    insert ⟨.low, n, w⟩ items = items ++ [⟨.low, n, w⟩] := by
  induction items with
  | nil => rfl
  | cons a rest ih =>
    have behind : ¬ QueuedItem.precedes ⟨.low, n, w⟩ a = true := by
      have ha := hn a List.mem_cons_self
      cases hp : a.priority with
      | normal => rw [QueuedItem.precedes, hp]; exact Bool.false_ne_true
      | low =>
        rw [QueuedItem.precedes, hp]
        exact fun h => Nat.lt_asymm ha (of_decide_eq_true h)
    rw [insert, if_neg behind, ih fun b hb => hn b (List.mem_cons_of_mem _ hb)]
    rfl

/-- The two lines in a queue. -/
def lines (q : WorkQueue) : Lines where
  normal := (q.items.filter (·.priority = .normal)).map (·.item)
  low := (q.items.filter (·.priority = .low)).map (·.item)

/-- Items of normal priority before items of low priority are the two lines. -/
theorem lines_eq (h : q.items = ns ++ ls) (hn : ∀ a ∈ ns, a.priority = .normal)
    (hl : ∀ a ∈ ls, a.priority = .low) : q.lines = ⟨ns.map (·.item), ls.map (·.item)⟩ := by
  have normals : q.items.filter (·.priority = .normal) = ns := by
    rw [h, List.filter_append, List.filter_eq_self.mpr fun a ha => decide_eq_true (hn a ha),
      List.filter_eq_nil_iff.mpr fun a ha => by simp [hl a ha], List.append_nil]
  have lows : q.items.filter (·.priority = .low) = ls := by
    rw [h, List.filter_append, List.filter_eq_nil_iff.mpr fun a ha => by simp [hn a ha],
      List.filter_eq_self.mpr fun a ha => decide_eq_true (hl a ha), List.nil_append]
  rw [lines, normals, lows]

/-- Behind an item of low priority all others are of low priority. -/
theorem exists_append {items : List QueuedItem}
    (h : items.Pairwise fun a b => a.precedes b = true) :
    ∃ ns ls, items = ns ++ ls ∧ (∀ a ∈ ns, a.priority = .normal) ∧ ∀ a ∈ ls, a.priority = .low := by
  induction items with
  | nil => exact ⟨[], [], rfl, List.forall_mem_nil _, List.forall_mem_nil _⟩
  | cons a rest ih =>
    obtain ⟨first, ordered⟩ := List.pairwise_cons.mp h
    cases hp : a.priority with
    | normal =>
      obtain ⟨ns, ls, rfl, normals, lows⟩ := ih ordered
      exact ⟨a :: ns, ls, rfl, List.forall_mem_cons.mpr ⟨hp, normals⟩, lows⟩
    | low =>
      refine ⟨[], a :: rest, rfl, List.forall_mem_nil _, List.forall_mem_cons.mpr ⟨hp, fun b hb => ?_⟩⟩
      have precedes := first b hb
      cases hq : b.priority with
      | normal => rw [QueuedItem.precedes, hp, hq] at precedes; exact absurd precedes Bool.false_ne_true
      | low => rfl

/-- The items of a queue are those of its two lines, the one of normal priority first. -/
theorem exists_lines (q : WorkQueue) : ∃ ns ls, q.items = ns ++ ls ∧
    (∀ a ∈ ns, a.priority = .normal) ∧ (∀ a ∈ ls, a.priority = .low) ∧
      q.lines = ⟨ns.map (·.item), ls.map (·.item)⟩ := by
  obtain ⟨ns, ls, items, normals, lows⟩ := exists_append q.ordered
  exact ⟨ns, ls, items, normals, lows, lines_eq items normals lows⟩

theorem work_eq_lines (q : WorkQueue) : q.work = q.lines.work := by
  obtain ⟨ns, ls, items, -, -, lines⟩ := q.exists_lines
  rw [work, items, List.map_append, lines, Lines.work]

/-- An item joins the line of its priority. -/
theorem lines_push (q : WorkQueue) (w : WorkItem) (p : Priority) :
    (q.push w p).lines = q.lines.push w p := by
  obtain ⟨ns, ls, items, normals, lows, lines⟩ := q.exists_lines
  have joined {l : List QueuedItem} (hl : ∀ a ∈ l, a.priority = p) :
      ∀ a ∈ l ++ [⟨p, q.nextArrival, w⟩], a.priority = p := by
    intro a ha
    rcases List.mem_append.mp ha with ha | ha
    · exact hl a ha
    · rw [List.mem_singleton.mp ha]
  rw [lines]
  cases p with
  | normal =>
    have numbered : ∀ a ∈ ns, a.priority = .normal ∧ a.arrival < q.nextArrival := fun a ha =>
      ⟨normals a ha, q.numbered a (items ▸ List.mem_append_left ls ha)⟩
    have pushed : (q.push w .normal).items = (ns ++ [⟨.normal, q.nextArrival, w⟩]) ++ ls := by
      rw [List.append_assoc]
      exact (congrArg (insert _) items).trans (insert_normal numbered lows)
    rw [lines_eq pushed (joined normals) lows, List.map_append]
    rfl
  | low =>
    have pushed : (q.push w .low).items = ns ++ (ls ++ [⟨.low, q.nextArrival, w⟩]) := by
      rw [← List.append_assoc, ← items]
      exact insert_low q.numbered
    rw [lines_eq pushed normals (joined lows), List.map_append]
    rfl

/-- The first item is handed out. -/
theorem serve_pop {a : QueuedItem} {rest : List QueuedItem} (h : q.items = a :: rest) :
    (q.serve .pop).1 = some a.item ∧ (q.serve .pop).2.items = rest ∧
      (q.serve .pop).2.nextArrival = q.nextArrival := by
  obtain ⟨items, next, ordered, numbered⟩ := q
  obtain rfl : items = a :: rest := h
  exact ⟨rfl, rfl, rfl⟩

theorem serve_pop_nil (h : q.items = []) : q.serve .pop = (none, q) := by
  obtain ⟨items, next, ordered, numbered⟩ := q
  obtain rfl : items = [] := h
  rfl

/-- The queue serves a call as its two lines do. -/
theorem serve_lines (q : WorkQueue) (c : QueueCall) :
    (q.serve c).1 = (q.lines.serve c).1 ∧ (q.serve c).2.lines = (q.lines.serve c).2 := by
  cases c with
  | push w p => exact ⟨rfl, q.lines_push w p⟩
  | clear => exact ⟨rfl, rfl⟩
  | pop =>
    obtain ⟨ns, ls, items, normals, lows, lines⟩ := q.exists_lines
    rw [lines]
    match ns, ls with
    | a :: ns, ls =>
      obtain ⟨handed, left, -⟩ := serve_pop items
      exact ⟨handed, lines_eq left (List.forall_mem_of_forall_mem_cons normals) lows⟩
    | [], a :: ls =>
      obtain ⟨handed, left, -⟩ := serve_pop items
      refine ⟨handed, lines_eq ?_ normals (List.forall_mem_of_forall_mem_cons lows)⟩
      exact left
    | [], [] =>
      rw [serve_pop_nil items]
      exact ⟨rfl, lines⟩

/-- The queue looks like its two lines. -/
theorem view_lines (q : WorkQueue) : q.view = q.lines.view := by
  obtain ⟨ns, ls, items, normals, lows, lines⟩ := q.exists_lines
  rw [view, size, isEmpty, hasWork, isEmpty, hasNormalWork, items, lines]
  match ns, ls with
  | a :: ns, ls =>
    simp [Lines.view, Lines.work, normals a List.mem_cons_self, Nat.add_right_comm]
  | [], a :: ls => simp [Lines.view, Lines.work, lows a List.mem_cons_self]
  | [], [] => rfl

/-- Over several calls the queue answers and looks like its two lines. -/
theorem serveAll_lines (q : WorkQueue) (calls : List QueueCall) :
    (QueueCall.serveAll serve view q calls).1 =
        (QueueCall.serveAll Lines.serve Lines.view q.lines calls).1 ∧
      (QueueCall.serveAll serve view q calls).2.lines =
        (QueueCall.serveAll Lines.serve Lines.view q.lines calls).2 := by
  induction calls generalizing q with
  | nil => exact ⟨rfl, rfl⟩
  | cons c rest ih =>
    obtain ⟨handed, lines⟩ := q.serve_lines c
    obtain ⟨answers, last⟩ := ih (q.serve c).2
    have looks := (q.serve c).2.view_lines
    rw [lines] at answers last looks
    unfold QueueCall.serveAll
    dsimp only
    rw [answers, handed, looks]
    exact ⟨rfl, last⟩

/-- Only an item that is added takes a number. -/
theorem nextArrival_serveAll (q : WorkQueue) (calls : List QueueCall) :
    (QueueCall.serveAll serve view q calls).2.nextArrival =
      q.nextArrival + (calls.filterMap QueueCall.pushed?).length := by
  induction calls generalizing q with
  | nil => rfl
  | cons c rest ih =>
    refine (ih (q.serve c).2).trans ?_
    cases c with
    | push w p => exact (Nat.add_right_comm _ 1 _).trans (Nat.add_assoc _ _ 1)
    | clear => rfl
    | pop =>
      have kept : (q.serve .pop).2.nextArrival = q.nextArrival := by
        cases items : q.items with
        | nil => rw [serve_pop_nil items]
        | cons a rest => exact (serve_pop items).2.2
      rw [kept]
      rfl

end WorkQueue

/-! ### Nothing is lost -/

namespace Lines

/-- What a call finds and adds is what it hands out, drops or leaves. -/
theorem serve_perm (l : Lines) (c : QueueCall) :
    (l.work ++ c.pushed?.toList).Perm
      ((l.serve c).1.toList ++ (l.droppedBy c ++ (l.serve c).2.work)) := by
  cases c with
  | push w p =>
    cases p with
    | normal =>
      change (l.normal ++ l.low ++ [w]).Perm (l.normal ++ [w] ++ l.low)
      rw [List.append_assoc, List.append_assoc]
      exact List.perm_append_comm.append_left l.normal
    | low => exact .of_eq (List.append_assoc l.normal l.low [w])
  | clear => exact .refl _
  | pop =>
    refine (List.Perm.of_eq (List.append_nil _)).trans ?_
    match l with
    | ⟨w :: normal, low⟩ | ⟨[], w :: low⟩ | ⟨[], []⟩ => exact .refl _

/-- What several calls find and add is what they hand out, drop or leave. -/
theorem serveAll_perm (l : Lines) (calls : List QueueCall) :
    (l.work ++ calls.filterMap QueueCall.pushed?).Perm
      ((QueueCall.serveAll serve view l calls).1.filterMap (·.1) ++
        (l.dropped calls ++ (QueueCall.serveAll serve view l calls).2.work)) := by
  induction calls generalizing l with
  | nil => exact .of_eq (List.append_nil _)
  | cons c rest ih =>
    have added : (c :: rest).filterMap QueueCall.pushed? =
        c.pushed?.toList ++ rest.filterMap QueueCall.pushed? := by
      cases c <;> rfl
    unfold QueueCall.serveAll
    rw [added, dropped]
    dsimp only
    have later := ih (l.serve c).2
    generalize QueueCall.serveAll serve view (l.serve c).2 rest = last at later ⊢
    obtain ⟨answers, l'⟩ := last
    have handed : (((l.serve c).1, (l.serve c).2.view) :: answers).filterMap (·.1) =
        (l.serve c).1.toList ++ answers.filterMap (·.1) := by
      cases (l.serve c).1 <;> rfl
    rw [handed]
    calc l.work ++ (c.pushed?.toList ++ rest.filterMap QueueCall.pushed?)
      _ = l.work ++ c.pushed?.toList ++ rest.filterMap QueueCall.pushed? :=
        (List.append_assoc _ _ _).symm
      _ ~ (l.serve c).1.toList ++ (l.droppedBy c ++ (l.serve c).2.work) ++
          rest.filterMap QueueCall.pushed? := (l.serve_perm c).append_right _
      _ = (l.serve c).1.toList ++ (l.droppedBy c ++
          ((l.serve c).2.work ++ rest.filterMap QueueCall.pushed?)) := by
        simp only [List.append_assoc]
      _ ~ (l.serve c).1.toList ++ (l.droppedBy c ++ (answers.filterMap (·.1) ++
          (dropped (l.serve c).2 rest ++ l'.work))) := (later.append_left _).append_left _
      _ ~ (l.serve c).1.toList ++ (answers.filterMap (·.1) ++ (l.droppedBy c ++
          (dropped (l.serve c).2 rest ++ l'.work))) :=
        List.perm_append_comm_assoc _ _ _ |>.append_left _
      _ = (l.serve c).1.toList ++ answers.filterMap (·.1) ++ (l.droppedBy c ++
          dropped (l.serve c).2 rest ++ l'.work) := by
        simp only [List.append_assoc]

end Lines

/-! ### Heaps -/

/-- Queued items in any order, and the number of the next one. -/
structure Heap where
  /-- The items. -/
  items : List QueuedItem
  /-- The arrival number of the next item. -/
  nextArrival : Nat

namespace Heap

/-- Nothing precedes an item. -/
def IsGreatest (a : QueuedItem) (items : List QueuedItem) : Prop :=
  a ∈ items ∧ ∀ b ∈ items, b.precedes a = false

/-- A heap serves a call. It hands out an item that nothing precedes, and keeps the others in any
order. -/
inductive Serves : Heap → QueueCall → Option WorkItem → Heap → Prop
  | push {items items' : List QueuedItem} {n : Nat} {w : WorkItem} {p : Priority}
      (h : items'.Perm (⟨p, n, w⟩ :: items)) :
      Serves ⟨items, n⟩ (.push w p) none ⟨items', n + 1⟩
  | pop {items items' : List QueuedItem} {n : Nat} {a : QueuedItem}
      (h : items.Perm (a :: items')) (greatest : IsGreatest a items) :
      Serves ⟨items, n⟩ .pop (some a.item) ⟨items', n⟩
  | empty {n : Nat} : Serves ⟨[], n⟩ .pop none ⟨[], n⟩
  | clear {items : List QueuedItem} {n : Nat} : Serves ⟨items, n⟩ .clear none ⟨[], n⟩

/-- What can be seen of a heap, whose greatest item can be looked at. -/
structure Shows (h : Heap) (v : QueueView) : Prop where
  size : v.size = h.items.length
  isEmpty : v.isEmpty = h.items.isEmpty
  hasWork : v.hasWork = !h.items.isEmpty
  hasNormalWork : v.hasNormalWork = true ↔ ∃ a, IsGreatest a h.items ∧ a.priority = .normal

/-- A heap serves one call after another. -/
inductive ServesAll : Heap → List QueueCall → List (Option WorkItem × QueueView) → Heap → Prop
  | nil (h : Heap) : ServesAll h [] [] h
  | cons {h m h' : Heap} {c : QueueCall} {rest : List QueueCall} {item : Option WorkItem}
      {v : QueueView} {answers : List (Option WorkItem × QueueView)} (served : Serves h c item m)
      (shows : Shows m v) (later : ServesAll m rest answers h') :
      ServesAll h (c :: rest) ((item, v) :: answers) h'

end Heap

namespace WorkQueue

variable {q : WorkQueue} {h h' : Heap} {c : QueueCall} {item : Option WorkItem}

/-- The queue as a heap. -/
def heap (q : WorkQueue) : Heap :=
  ⟨q.items, q.nextArrival⟩

/-- A heap holds the items of a queue. -/
def Fills (q : WorkQueue) (h : Heap) : Prop :=
  h.items.Perm q.items ∧ h.nextArrival = q.nextArrival

theorem precedes_irrefl (a : QueuedItem) : a.precedes a = false := by
  unfold QueuedItem.precedes
  cases a.priority <;> simp

theorem precedes_asymm {a b : QueuedItem} (h : a.precedes b = true) : b.precedes a = false := by
  unfold QueuedItem.precedes at *
  cases ha : a.priority <;> cases hb : b.priority <;> simp_all <;> omega

/-- The first item of a queue is the only one that nothing precedes. -/
theorem isGreatest_iff {a b : QueuedItem} {rest items : List QueuedItem}
    (h : q.items = a :: rest) (hp : items.Perm q.items) : Heap.IsGreatest b items ↔ b = a := by
  have ordered := q.ordered
  rw [h, List.pairwise_cons] at ordered
  rw [Heap.IsGreatest, hp.mem_iff, h]
  constructor
  · rintro ⟨hb, greatest⟩
    rcases List.mem_cons.mp hb with rfl | hb
    · rfl
    · have first := greatest a (hp.mem_iff.mpr (h ▸ List.mem_cons_self))
      rw [ordered.1 b hb] at first
      cases first
  · rintro rfl
    refine ⟨List.mem_cons_self, fun c hc => ?_⟩
    rcases List.mem_cons.mp (h ▸ hp.mem_iff.mp hc) with rfl | hc
    · exact precedes_irrefl c
    · exact precedes_asymm (ordered.1 c hc)

/-- A heap with the items of a queue serves a call like the queue. -/
theorem Fills.serves (hf : q.Fills h) (hs : h.Serves c item h') :
    item = (q.serve c).1 ∧ (q.serve c).2.Fills h' := by
  obtain ⟨same, next⟩ := hf
  cases hs with
  | push kept =>
    dsimp only at same next
    subst next
    exact ⟨rfl, kept.trans ((same.cons _).trans (insert_perm _ _).symm), rfl⟩
  | clear => exact ⟨rfl, .refl _, next⟩
  | empty =>
    have none : q.items = [] := List.nil_perm.mp same
    rw [serve_pop_nil none]
    exact ⟨rfl, same, next⟩
  | @pop items items' n a kept greatest =>
    cases hq : q.items with
    | nil => exact absurd (hq ▸ same.mem_iff.mp greatest.1) List.not_mem_nil
    | cons b rest =>
      obtain rfl := (isGreatest_iff hq same).mp greatest
      obtain ⟨handed, left, number⟩ := serve_pop hq
      refine ⟨handed.symm, ?_, next.trans number.symm⟩
      rw [left]
      exact (kept.symm.trans (hq ▸ same)).cons_inv

/-- Whether an item of normal priority waits is told by the greatest item. -/
theorem exists_isGreatest_iff {items : List QueuedItem} (hp : items.Perm q.items) :
    (∃ a, Heap.IsGreatest a items ∧ a.priority = .normal) ↔ q.hasNormalWork = true := by
  rw [hasNormalWork]
  cases hq : q.items with
  | nil =>
    rw [hq] at hp
    rw [List.perm_nil.mp hp]
    exact ⟨fun ⟨a, ha, _⟩ => absurd ha.1 List.not_mem_nil, fun h => absurd h Bool.false_ne_true⟩
  | cons a rest => simp [isGreatest_iff hq hp]

/-- A heap with the items of a queue looks like the queue. -/
theorem Fills.shows_iff (hf : q.Fills h) {v : QueueView} : h.Shows v ↔ v = q.view := by
  obtain ⟨same, -⟩ := hf
  have size : h.items.length = q.size := same.length_eq
  have isEmpty : h.items.isEmpty = q.isEmpty := by
    rw [WorkQueue.isEmpty, Bool.eq_iff_iff, List.isEmpty_iff_length_eq_zero,
      List.isEmpty_iff_length_eq_zero, same.length_eq]
  constructor
  · rintro ⟨hs, he, hw, hn⟩
    obtain ⟨vs, ve, vw, vn⟩ := v
    rw [exists_isGreatest_iff same, ← Bool.eq_iff_iff] at hn
    rw [size] at hs
    rw [isEmpty] at he hw
    dsimp only at hs he hw hn
    rw [hs, he, hw, hn]
    rfl
  · rintro rfl
    exact ⟨size.symm, isEmpty.symm, congrArg (!·) isEmpty.symm, (exists_isGreatest_iff same).symm⟩

/-- A heap with the items of a queue may go on as the queue does. -/
theorem Fills.serves_heap (hf : q.Fills h) (c : QueueCall) :
    h.Serves c (q.serve c).1 (q.serve c).2.heap := by
  obtain ⟨items, next⟩ := h
  obtain ⟨same, number⟩ := hf
  obtain rfl : next = q.nextArrival := number
  cases c with
  | push w p => exact .push ((insert_perm _ _).trans (same.symm.cons _))
  | clear => exact .clear
  | pop =>
    cases hq : q.items with
    | nil =>
      obtain rfl : items = [] := List.perm_nil.mp (hq ▸ same)
      rw [serve_pop_nil hq, heap, hq]
      exact .empty
    | cons a rest =>
      obtain ⟨handed, left, number⟩ := serve_pop hq
      rw [heap, handed, left, number]
      exact .pop (hq ▸ same) ((isGreatest_iff hq same).mpr rfl)

theorem fills_heap (q : WorkQueue) : q.Fills q.heap :=
  ⟨.refl _, rfl⟩

/-- A heap with the items of a queue serves any calls. -/
theorem Fills.exists_servesAll (hf : q.Fills h) (calls : List QueueCall) :
    ∃ h', h.ServesAll calls (QueueCall.serveAll serve view q calls).1 h' := by
  induction calls generalizing q h with
  | nil => exact ⟨h, .nil h⟩
  | cons c rest ih =>
    obtain ⟨h', later⟩ := ih (q.serve c).2.fills_heap
    exact ⟨h', .cons (hf.serves_heap c) ((q.serve c).2.fills_heap.shows_iff.mpr rfl) later⟩

/-- Every heap with the items of a queue answers several calls like the queue. -/
theorem Fills.servesAll (hf : q.Fills h) {calls : List QueueCall}
    {answers : List (Option WorkItem × QueueView)} (hs : h.ServesAll calls answers h') :
    answers = (QueueCall.serveAll serve view q calls).1 ∧
      (QueueCall.serveAll serve view q calls).2.Fills h' := by
  induction hs generalizing q with
  | nil h => exact ⟨rfl, hf⟩
  | @cons h m h' c rest item v answers served shows _ ih =>
    obtain ⟨handed, left⟩ := hf.serves served
    obtain ⟨later, last⟩ := ih left
    rw [left.shows_iff] at shows
    unfold QueueCall.serveAll
    dsimp only
    rw [handed, shows, later]
    exact ⟨rfl, last⟩

/-- Over any calls the queue answers and looks like two lines: what is handed out is the oldest item of
normal priority, or if there is none the oldest of low priority, or nothing. What is added is handed out,
dropped or left, each item once. Every item that is added takes the next number, also after a clear. A
heap by priority and number that has the same items, in any order, answers the same. -/
theorem acts_like_lines (q : WorkQueue) (calls : List QueueCall) :
    let (answers, last) := QueueCall.serveAll serve view q calls
    let (expected, stood) := QueueCall.serveAll Lines.serve Lines.view q.lines calls
    answers = expected ∧ last.lines = stood ∧ last.work = stood.normal ++ stood.low ∧
      (q.work ++ calls.filterMap QueueCall.pushed?).Perm
        (answers.filterMap (·.1) ++ (q.lines.dropped calls ++ last.work)) ∧
      last.nextArrival = q.nextArrival + (calls.filterMap QueueCall.pushed?).length ∧
      ∀ h, q.Fills h → (∃ h', h.ServesAll calls expected h') ∧
        ∀ answers' h', h.ServesAll calls answers' h' → answers' = expected ∧ last.Fills h' := by
  obtain ⟨same, lines⟩ := q.serveAll_lines calls
  have kept := q.lines.serveAll_perm calls
  rw [← same, ← lines, ← work_eq_lines, ← work_eq_lines] at kept
  refine ⟨same, lines, ?_, kept, q.nextArrival_serveAll calls, fun h hf => ?_⟩
  · rw [← lines]
    exact work_eq_lines _
  · rw [← same]
    exact ⟨hf.exists_servesAll calls, fun _ _ hs => hf.servesAll hs⟩

/-- A heap that keeps an item of low priority before one of normal priority hands out the latter
first. -/
theorem acts_like_lines_unsorted : ∃ (q : WorkQueue) (h h' : Heap)
    (answers : List (Option WorkItem × QueueView)), q.Fills h ∧
      h.items.map (·.item.target?) = [some ⟨1⟩, some ⟨2⟩] ∧
      h.ServesAll [.pop, .clear, .push (.execute ⟨3⟩) .low, .pop] answers h' ∧
      answers.map (fun a => a.1.bind (·.target?)) = [some ⟨2⟩, none, none, some ⟨3⟩] := by
  let q : WorkQueue := (WorkQueue.empty.push (.execute ⟨1⟩) .low).push (.execute ⟨2⟩)
  let h : Heap := ⟨[⟨.low, 0, .execute ⟨1⟩⟩, ⟨.normal, 1, .execute ⟨2⟩⟩], 2⟩
  have fills : q.Fills h := ⟨.swap _ _ _, rfl⟩
  obtain ⟨-, -, -, -, -, heaps⟩ :=
    q.acts_like_lines [.pop, .clear, .push (.execute ⟨3⟩) .low, .pop]
  obtain ⟨⟨h', served⟩, -⟩ := heaps h fills
  exact ⟨q, h, h', _, fills, rfl, served, rfl⟩

end WorkQueue

end Workflow
