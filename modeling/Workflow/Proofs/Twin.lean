import Workflow.Proofs.Lifecycle

/-!
# Twins

An executor has a guise: what its workflow does not depend on. That is the mailbox of its operations,
the receivers of records, the report of a change that is still to be made, and the numbers under which
work has arrived. A bond says how the guises of two executors may differ and go on to differ. Whatever
is asked of executors that are bonded, they answer the same and stay bonded. The loosest bond is that
of twins, who have the same work waiting; the receivers of their records may be any.
-/

namespace Workflow

namespace WorkQueue

variable {q r : WorkQueue}

/-- The waiting work with its priorities, the next item first. -/
def lanes (q : WorkQueue) : List (Priority × WorkItem) :=
  q.items.map fun i => (i.priority, i.item)

/-- Put an item of a priority behind the items that are as urgent. -/
def enter (p : Priority) (w : WorkItem) : List (Priority × WorkItem) → List (Priority × WorkItem)
  | [] => [(p, w)]
  | a :: rest => if p = .normal ∧ a.1 = .low then (p, w) :: a :: rest else a :: enter p w rest

/-- A new item stands behind the items that are as urgent. -/
theorem lanes_insert {p : Priority} {w : WorkItem} {n : Nat} {items : List QueuedItem}
    (h : ∀ i ∈ items, i.arrival < n) :
    (insert ⟨p, n, w⟩ items).map (fun i => (i.priority, i.item)) =
      enter p w (items.map fun i => (i.priority, i.item)) := by
  induction items with
  | nil => rfl
  | cons i rest ih =>
    obtain ⟨hi, hr⟩ := List.forall_mem_cons.mp h
    have hp : QueuedItem.precedes ⟨p, n, w⟩ i = true ↔ p = .normal ∧ i.priority = .low := by
      unfold QueuedItem.precedes
      cases p <;> cases i.priority <;> simp [Nat.le_of_lt hi]
    unfold insert
    rw [List.map_cons, enter]
    by_cases hc : p = .normal ∧ i.priority = .low
    · rw [if_pos (hp.mpr hc), if_pos hc]
      rfl
    · rw [if_neg (mt hp.mp hc), if_neg hc, List.map_cons, ih hr]

theorem lanes_push (q : WorkQueue) (w : WorkItem) (p : Priority) :
    (q.push w p).lanes = enter p w q.lanes :=
  lanes_insert q.numbered

/-- The work is what stands in the lanes. -/
theorem work_eq_lanes (q : WorkQueue) : q.work = q.lanes.map Prod.snd := by
  rw [work, lanes, List.map_map]
  rfl

theorem isEmpty_eq_lanes (q : WorkQueue) : q.isEmpty = q.lanes.isEmpty := by
  rw [isEmpty, lanes, List.isEmpty_map]

/-- The next item is the first one. -/
theorem pop?_eq_lanes (q : WorkQueue) :
    q.pop?.map (fun n => (n.1, n.2.lanes)) =
      match q.lanes with
      | [] => none
      | a :: rest => some (a.2, rest) := by
  obtain ⟨items, next, ho, hn⟩ := q
  cases items <;> rfl

end WorkQueue

/-- What a workflow does not depend on. -/
structure Guise where
  mailbox : Nat
  tracking : TrackingProvider
  announcement : Option LifecycleEvent
  queue : WorkQueue

namespace Guise

/-- A guise after a report. -/
def emit (g : Guise) (workflow : WorkflowId) (event : TrackingEvent) : Guise :=
  { g with tracking := g.tracking.emit workflow event }

/-- A guise after the report of the change that was waiting, and with a start that of the root. -/
def announce (g : Guise) (workflow : WorkflowId) (root : Option TrackingEvent) : Guise :=
  match g.announcement with
  | none => g
  | some event =>
    let g := { g with announcement := none }.emit workflow (.lifecycle event)
    if event = .started then (root.map (g.emit workflow)).getD g else g

end Guise

/-- How the guises of two executors of a workflow may differ, so that they still differ in that way
when the same is done to both. -/
structure Bond where
  /-- The two guises may differ so. -/
  holds : WorkflowId → Guise → Guise → Prop
  /-- The same work waits. -/
  lanes {w : WorkflowId} {g g' : Guise} : holds w g g' → g'.queue.lanes = g.queue.lanes
  /-- The same is reported. -/
  emit {w : WorkflowId} {g g' : Guise} :
    holds w g g' → ∀ event, holds w (g.emit w event) (g'.emit w event)
  /-- The changes that are waiting to be reported are reported. -/
  announce {w : WorkflowId} {g g' : Guise} :
    holds w g g' → ∀ root, holds w (g.announce w root) (g'.announce w root)
  /-- The same item is queued. -/
  push {w : WorkflowId} {g g' : Guise} : holds w g g' → ∀ item p,
    holds w { g with queue := g.queue.push item p } { g' with queue := g'.queue.push item p }
  /-- The next item is taken. -/
  pop {w : WorkflowId} {g g' : Guise} {item : WorkItem} {q q' : WorkQueue} : holds w g g' →
    g.queue.pop? = some (item, q) → g'.queue.pop? = some (item, q') →
      holds w { g with queue := q } { g' with queue := q' }
  /-- All work is dropped. -/
  clear {w : WorkflowId} {g g' : Guise} : holds w g g' →
    holds w { g with queue := g.queue.clear } { g' with queue := g'.queue.clear }

/-- Reports leave the work as it is. -/
theorem Guise.queue_announce (g : Guise) (w : WorkflowId) (root : Option TrackingEvent) :
    (g.announce w root).queue = g.queue := by
  unfold announce
  split
  · rfl
  · split
    · cases root <;> rfl
    · rfl

/-- The same work waits, and no more is asked. -/
def Bond.loose : Bond where
  holds _ g g' := g'.queue.lanes = g.queue.lanes
  lanes h := h
  emit h _ := h
  announce {_ g g'} h root := by rw [g'.queue_announce, g.queue_announce, h]
  push {_ g g'} h item p := by
    change (g'.queue.push item p).lanes = (g.queue.push item p).lanes
    rw [WorkQueue.lanes_push, WorkQueue.lanes_push, h]
  pop {_ g g' item q q'} h hq hq' := by
    have he := WorkQueue.pop?_eq_lanes g.queue
    rw [← h, ← WorkQueue.pop?_eq_lanes g'.queue, hq, hq'] at he
    exact (Prod.mk.inj (Option.some.inj he)).2.symm
  clear _ := rfl

namespace Executor

variable {e r : Executor} {g : Guise} {x k : InstanceId} {B : Bond}

/-- The guise of an executor. -/
def guise (e : Executor) : Guise :=
  ⟨e.mailbox, e.tracking, e.announcement, e.queue⟩

/-- An executor in another guise. -/
def inGuise (e : Executor) (g : Guise) : Executor :=
  { e with
    mailbox := g.mailbox
    tracking := g.tracking
    announcement := g.announcement
    queue := g.queue }

/-- One executor is another one in a guise, with the same work waiting. -/
def Twin (e r : Executor) : Prop :=
  ∃ g : Guise, g.queue.lanes = e.queue.lanes ∧ r = e.inGuise g

/-- Two executors answer the same and are twins. -/
def Agree {α : Type} (a b : α × Executor) : Prop :=
  b.1 = a.1 ∧ Twin a.2 b.2

/-- One executor is another one in a guise that a bond allows. -/
def Bonded (B : Bond) (e r : Executor) : Prop :=
  ∃ g : Guise, B.holds e.workflow e.guise g ∧ r = e.inGuise g

/-- Twins are bonded as loosely as can be. -/
theorem twin_iff : Twin e r ↔ Bonded .loose e r :=
  .rfl

/-- Two executors answer the same and are bonded. -/
def Accord (B : Bond) {α : Type} (a b : α × Executor) : Prop :=
  b.1 = a.1 ∧ Bonded B a.2 b.2

/-- What the two are that accord. -/
theorem Accord.cases {α : Type} {a b : α × Executor} (h : Accord B a b) :
    ∃ (answer : α) (e r : Executor), a = (answer, e) ∧ b = (answer, r) ∧ Bonded B e r := by
  obtain ⟨answer, e⟩ := a
  obtain ⟨answer', r⟩ := b
  obtain ⟨rfl, ht⟩ := h
  exact ⟨_, e, r, rfl, rfl, ht⟩

/-- A report that is waiting changes the guise only. -/
theorem announce_eq (e : Executor) : e.announce =
    e.inGuise (e.guise.announce e.workflow ((e.info? e.root).map (.scheduled none))) := by
  obtain ⟨w, d, t, ni, root, q, b, o, no, s, oc, m, ib, hs, x, tr, pr, an, j, sc, ih, od⟩ := e
  cases an with
  | none => rfl
  | some event =>
    unfold announce Guise.announce trackLifecycle trackScheduled
    dsimp only [guise, track, info?, instance?]
    split
    · cases t[root]? <;> rfl
    · rfl

namespace Bonded

/-! ### What they have in common -/

section Common

variable (h : Bonded B e r)
include h

theorem workflow : r.workflow = e.workflow := by
  obtain ⟨g, -, rfl⟩ := h
  rfl

theorem definition : r.definition = e.definition := by
  obtain ⟨g, -, rfl⟩ := h
  rfl

theorem instances : r.instances = e.instances := by
  obtain ⟨g, -, rfl⟩ := h
  rfl

theorem root : r.root = e.root := by
  obtain ⟨g, -, rfl⟩ := h
  rfl

theorem lanes : r.queue.lanes = e.queue.lanes := by
  obtain ⟨g, hq, rfl⟩ := h
  exact B.lanes hq

theorem bookmarks : r.bookmarks = e.bookmarks := by
  obtain ⟨g, -, rfl⟩ := h
  rfl

theorem operations : r.operations = e.operations := by
  obtain ⟨g, -, rfl⟩ := h
  rfl

theorem state : r.state = e.state := by
  obtain ⟨g, -, rfl⟩ := h
  rfl

theorem outcome : r.outcome = e.outcome := by
  obtain ⟨g, -, rfl⟩ := h
  rfl

theorem inbox : r.inbox = e.inbox := by
  obtain ⟨g, -, rfl⟩ := h
  rfl

theorem handles : r.handles = e.handles := by
  obtain ⟨g, -, rfl⟩ := h
  rfl

theorem instance? (k : InstanceId) : r.instance? k = e.instance? k := by
  rw [Executor.instance?, h.instances]
  rfl

theorem isLive (k : InstanceId) : r.isLive k = e.isLive k := by
  rw [Executor.isLive, h.instance?]
  rfl

theorem nodeOf (k : InstanceId) : r.nodeOf k = e.nodeOf k := by
  rw [Executor.nodeOf, h.instance?, h.definition]
  rfl

theorem climb (n : Nat) (o : Option InstanceId) : r.climb n o = e.climb n o := by
  induction n generalizing o with
  | zero => rfl
  | succ n ih =>
    cases o with
    | none => rfl
    | some k => rw [Executor.climb, Executor.climb, h.instance?, ih]

theorem lineage (k : InstanceId) : r.lineage k = e.lineage k := by
  rw [Executor.lineage, h.climb, h.instances]
  rfl

theorem resolve? (k : InstanceId) (name : String) : r.resolve? k name = e.resolve? k name := by
  rw [Executor.resolve?, h.lineage]
  simp only [h.instance?]
  rfl

theorem property? (k : InstanceId) (name : String) : r.property? k name = e.property? k name := by
  rw [Executor.property?, h.lineage]
  simp only [h.instance?]
  rfl

theorem isAncestorOrSelf (a k : InstanceId) : r.isAncestorOrSelf a k = e.isAncestorOrSelf a k := by
  rw [Executor.isAncestorOrSelf, h.lineage]
  rfl

theorem descend (n : Nat) (k : InstanceId) : r.descend n k = e.descend n k := by
  induction n generalizing k with
  | zero => rfl
  | succ n ih =>
    have hd : r.descend n = e.descend n := funext ih
    rw [Executor.descend, Executor.descend, h.instance?, hd]

theorem descendants (k : InstanceId) : r.descendants k = e.descendants k := by
  have hd : r.descend r.instances.size = e.descend e.instances.size := by
    rw [h.instances]
    exact funext (h.descend _)
  rw [Executor.descendants, hd, h.instance?]
  rfl

theorem info? (k : InstanceId) : r.info? k = e.info? k := by
  rw [Executor.info?, h.instance?, h.definition]
  rfl

end Common

/-! ### What is done to both -/

section Alike

variable (h : Bonded B e r)
include h

theorem modify (k : InstanceId) (f : Instance → Instance) : Bonded B (e.modify k f) (r.modify k f) := by
  obtain ⟨g, hq, rfl⟩ := h
  exact ⟨g, hq, rfl⟩

theorem release (k : InstanceId) (n : Nat) : Bonded B (e.release k n) (r.release k n) := by
  obtain ⟨g, hq, rfl⟩ := h
  exact ⟨g, hq, rfl⟩

theorem log (entry : JournalEntry) : Bonded B (e.log entry) (r.log entry) := by
  obtain ⟨g, hq, rfl⟩ := h
  exact ⟨g, hq, rfl⟩

/-- Both queue an item. -/
theorem push (w : WorkItem) (p : Priority) :
    Bonded B { e with queue := e.queue.push w p } { r with queue := r.queue.push w p } := by
  obtain ⟨g, hq, rfl⟩ := h
  exact ⟨{ g with queue := g.queue.push w p }, B.push hq w p, rfl⟩

theorem enqueue (w : WorkItem) : Bonded B (e.enqueue w) (r.enqueue w) :=
  h.push w .normal

theorem track (event : TrackingEvent) : Bonded B (e.track event) (r.track event) := by
  obtain ⟨g, hq, rfl⟩ := h
  exact ⟨g.emit e.workflow event, B.emit hq event, rfl⟩

theorem trackState (k : InstanceId) (s : ActivityState) :
    Bonded B (e.trackState k s) (r.trackState k s) := by
  unfold Executor.trackState
  rw [h.info?]
  cases e.info? k with
  | none => exact h
  | some info => exact h.track _

theorem trackScheduled (parent : Option ActivityInfo) (k : InstanceId) :
    Bonded B (e.trackScheduled parent k) (r.trackScheduled parent k) := by
  unfold Executor.trackScheduled
  rw [h.info?]
  cases e.info? k with
  | none => exact h
  | some info => exact h.track _

theorem trackResumed (b : Bookmark) (k : InstanceId) :
    Bonded B (e.trackResumed b k) (r.trackResumed b k) := by
  unfold Executor.trackResumed
  rw [h.info?]
  cases e.info? k with
  | none => exact h
  | some info => exact h.track _

theorem trackFault (f : Fault) (handler : Option InstanceId) :
    Bonded B (e.trackFault f handler) (r.trackFault f handler) := by
  have hi : r.info? = e.info? := funext h.info?
  unfold Executor.trackFault
  rw [h.definition, hi]
  exact h.track _

/-- Both report the change that was still to be reported. -/
theorem announce : Bonded B e.announce r.announce := by
  have hi := h.info? e.root
  have hr := h.root
  obtain ⟨g, hq, rfl⟩ := h
  rw [announce_eq, announce_eq (e.inGuise g), hr, hi]
  exact ⟨_, B.announce hq _, rfl⟩

end Alike

/-! ### Scheduling -/

section Scheduling

variable (h : Bonded B e r)
include h

theorem checkSchedule (parent : InstanceId) (node : NodeId) (options : ScheduleOptions) :
    r.checkSchedule parent node options = e.checkSchedule parent node options := by
  obtain ⟨g, -, rfl⟩ := h
  rfl

theorem newChild (parent : InstanceId) (node : NodeId) (scope : Scope) (options : ScheduleOptions) :
    r.newChild parent node scope options = e.newChild parent node scope options := by
  have hv : r.visibleValue? parent = e.visibleValue? parent := funext fun name => by
    rw [visibleValue?, visibleValue?, h.resolve?]
    simp only [h.instance?]
  have ha : r.firstArgument parent options.arguments = e.firstArgument parent options.arguments :=
    funext fun a => by rw [firstArgument, firstArgument, hv]
  have hn : r.nextInstance = e.nextInstance := by
    obtain ⟨g, -, rfl⟩ := h
    rfl
  rw [Executor.newChild, Executor.newChild, hn, h.definition, ha]

theorem adopt (parent : InstanceId) (child : Instance) :
    Bonded B (e.adopt parent child) (r.adopt parent child) := by
  have hi : Bonded B
      { e with nextInstance := e.nextInstance + 1, instances := e.instances.insert child.id child }
      { r with nextInstance := r.nextInstance + 1, instances := r.instances.insert child.id child } := by
    obtain ⟨g, hq, rfl⟩ := h
    exact ⟨g, hq, rfl⟩
  exact (hi.modify _ _).enqueue _

theorem addChild (parent : InstanceId) (node : NodeId) (scope : Scope) (options : ScheduleOptions) :
    Accord B (e.addChild parent node scope options) (r.addChild parent node scope options) := by
  unfold Executor.addChild
  rw [h.newChild]
  have ha := h.adopt parent (e.newChild parent node scope options)
  dsimp only
  rw [ha.info?]
  exact ⟨rfl, ha.trackScheduled _ _⟩

theorem scheduleChild (parent : InstanceId) (node : NodeId) (options : ScheduleOptions) :
    Accord B (e.scheduleChild parent node options) (r.scheduleChild parent node options) := by
  unfold Executor.scheduleChild
  rw [h.checkSchedule]
  cases e.checkSchedule parent node options with
  | error v => exact ⟨rfl, h⟩
  | ok p =>
    obtain ⟨hid, ht⟩ := h.addChild parent node p.2 options
    exact ⟨congrArg Except.ok hid, ht⟩

theorem cancelChild (parent child : InstanceId) :
    Accord B (e.cancelChild parent child) (r.cancelChild parent child) := by
  unfold Executor.cancelChild
  rw [h.instance?]
  cases e.instance? parent with
  | none => exact ⟨rfl, h⟩
  | some p =>
    dsimp only
    split
    · exact ⟨rfl, h.enqueue _⟩
    · exact ⟨rfl, h⟩

theorem cancelChildren (parent : InstanceId) :
    Bonded B (e.cancelChildren parent) (r.cancelChildren parent) := by
  unfold Executor.cancelChildren
  rw [h.instance?]
  generalize ((e.instance? parent).map (·.children)).getD [] = children
  induction children generalizing e r with
  | nil => exact h
  | cons c rest ih => exact ih (h.enqueue _)

theorem markCanceled (k : InstanceId) : Accord B (e.markCanceled k) (r.markCanceled k) := by
  unfold Executor.markCanceled
  rw [h.instance?]
  cases e.instance? k with
  | none => exact ⟨rfl, h⟩
  | some i =>
    dsimp only
    split
    · exact ⟨rfl, h.modify _ _⟩
    · exact ⟨rfl, h⟩

/-- Both get the same bookmarks. -/
theorem setBookmarks (g : Registry) : Bonded B { e with bookmarks := g } { r with bookmarks := g } := by
  obtain ⟨g, hq, rfl⟩ := h
  exact ⟨g, hq, rfl⟩

/-- Both get the same operations. -/
theorem setOperations (t : Std.ExtTreeMap OperationId InstanceId) :
    Bonded B { e with operations := t } { r with operations := t } := by
  obtain ⟨g, hq, rfl⟩ := h
  exact ⟨g, hq, rfl⟩

/-- Both get the same state. -/
theorem setState (s : WorkflowState) : Bonded B { e with state := s } { r with state := s } := by
  obtain ⟨g, hq, rfl⟩ := h
  exact ⟨g, hq, rfl⟩

/-- Both get the same inbox. -/
theorem setInbox (news : List OperationCompletion) :
    Bonded B { e with inbox := news } { r with inbox := news } := by
  obtain ⟨g, hq, rfl⟩ := h
  exact ⟨g, hq, rfl⟩

theorem createBookmark (g : Registration) : Accord B (e.createBookmark g) (r.createBookmark g) := by
  unfold Executor.createBookmark
  rw [h.isLive, h.bookmarks]
  split
  · cases e.bookmarks.register g with
    | error _ => exact ⟨rfl, h⟩
    | ok p =>
      dsimp only
      split
      · exact ⟨rfl, (h.setBookmarks _).modify _ _⟩
      · exact ⟨rfl, h.setBookmarks _⟩
  · exact ⟨rfl, h⟩

theorem removeBookmark (owner : InstanceId) (b : Bookmark) :
    Accord B (e.removeBookmark owner b) (r.removeBookmark owner b) := by
  unfold Executor.removeBookmark
  rw [h.bookmarks]
  cases e.bookmarks.resolve? b with
  | none => exact ⟨rfl, h⟩
  | some g =>
    dsimp only
    split
    · refine ⟨rfl, ?_⟩
      dsimp only
      split
      · exact (h.setBookmarks _).release _ _
      · exact h.setBookmarks _
    · exact ⟨rfl, h⟩

theorem removeAllBookmarks (owner : InstanceId) :
    Bonded B (e.removeAllBookmarks owner) (r.removeAllBookmarks owner) := by
  unfold Executor.removeAllBookmarks
  rw [h.bookmarks]
  exact (h.setBookmarks _).release _ _

theorem createScope (owner : InstanceId) : Accord B (e.createScope owner) (r.createScope owner) := by
  have hc : r.scopeCount = e.scopeCount := by
    obtain ⟨g, -, rfl⟩ := h
    rfl
  unfold Executor.createScope
  rw [h.instance?, hc, h.bookmarks]
  cases e.instance? owner with
  | none => exact ⟨rfl, h⟩
  | some i =>
    dsimp only
    split
    · refine ⟨rfl, ?_⟩
      obtain ⟨g, hq, rfl⟩ := h
      exact ⟨g, hq, rfl⟩
    · exact ⟨rfl, h⟩

theorem createdScope? (n : Nat) : r.createdScope? n = e.createdScope? n := by
  obtain ⟨g, -, rfl⟩ := h
  rfl

theorem resumeBookmark (b : Bookmark) (v : Value) (p : Priority) :
    Accord B (e.resumeBookmark b v p) (r.resumeBookmark b v p) := by
  unfold Executor.resumeBookmark
  rw [h.state, h.bookmarks]
  split
  · exact ⟨rfl, h⟩
  · cases e.bookmarks.resolve? b with
    | none => exact ⟨rfl, h⟩
    | some g =>
      have once := (h.setBookmarks
        (if (!g.options.multipleResume) = true then e.bookmarks.unregister b else e.bookmarks)).push
          (.bookmark g.owner b g.callback v (!g.options.multipleResume && g.options.isBlocking)) p
      exact ⟨rfl, once.setState (if e.state = .idle then .runnable else e.state)⟩

theorem bookmarkInfos : r.bookmarkInfos = e.bookmarkInfos := by
  obtain ⟨g, -, rfl⟩ := h
  rfl

theorem beginOperation (owner : InstanceId) :
    Accord B (e.beginOperation owner) (r.beginOperation owner) := by
  obtain ⟨g, hq, rfl⟩ := h
  exact ⟨rfl, g, hq, rfl⟩

theorem abandonOperations (owner : InstanceId) :
    Bonded B (e.abandonOperations owner) (r.abandonOperations owner) := by
  unfold Executor.abandonOperations
  rw [h.operations]
  exact (h.setOperations _).release _ _

theorem post (news : OperationCompletion) : Bonded B (e.post news) (r.post news) := by
  obtain ⟨g, hq, rfl⟩ := h
  exact ⟨g, hq, rfl⟩

/-- Each completes an operation by its own handle. -/
theorem completeHandle (o : OperationId) (result : Except ActivityError Value) :
    Accord B (e.completeHandle (e.handleOf o) result) (r.completeHandle (r.handleOf o) result) := by
  unfold Executor.completeHandle
  rw [if_pos (show (e.handleOf o).mailbox = e.mailbox from rfl),
    if_pos (show (r.handleOf o).mailbox = r.mailbox from rfl)]
  exact ⟨rfl, h.post _⟩

/-- Both queue the same completions. -/
theorem pushAll (news : List OperationCompletion) :
    Bonded B { e with queue := queueAll e.queue news } { r with queue := queueAll r.queue news } := by
  induction news generalizing e r with
  | nil => exact h
  | cons n rest ih => exact ih (h.push (.operation n.operation n.result) .normal)

theorem drainInbox : Accord B e.drainInbox r.drainInbox := by
  unfold Executor.drainInbox
  rw [h.inbox, h.state]
  exact ⟨rfl, ((h.pushAll e.inbox).setState _).setInbox []⟩

end Scheduling

end Bonded

end Executor

end Workflow
