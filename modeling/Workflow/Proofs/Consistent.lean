import Workflow.Proofs.Ledger
import Workflow.Proofs.Tree

/-!
# Consistent executors

The invariant of an executor whose workflow has not completed. The instances form a tree, resources
have live owners, every count is right, and nothing is forgotten: a completed child is told of once
in the queue, an instance that has not run is queued, and one that has run waits for something. A set
of instances may be exempt from the last part while work is done on them.
-/

namespace Workflow

namespace ActivityState

/-- Outside the application of a fault an instance is live or has completed. -/
theorem isLive_eq_not {s : ActivityState} (h : s ≠ .faulting) : s.isLive = !s.isTerminal := by
  cases s <;> simp_all [isLive, isTerminal]

theorem not_terminal_of_isLive {s : ActivityState} (h : s.isLive = true) : s.isTerminal = false := by
  cases s <;> simp_all [isLive, isTerminal]

theorem isLive_of_not_terminal {s : ActivityState} (h : s ≠ .faulting) (ht : s.isTerminal = false) :
    s.isLive = true := by
  rw [isLive_eq_not h, ht]
  rfl

end ActivityState

namespace Executor

variable {e e' e'' : Executor} {X Y : InstanceId → Prop}

theorem isLive_iff {k : InstanceId} :
    e.isLive k = true ↔ ∃ i, e.instances[k]? = some i ∧ i.state.isLive = true := by
  rw [isLive, instance?, Option.any_eq_true]

/-- The places of the instances and the work that is queued for them. -/
structure Placed (e : Executor) (X : InstanceId → Prop) : Prop where
  /-- The instances form a tree. -/
  tree : IsTree e.definition e.root e.nextInstance e.instances
  /-- The root is live. -/
  rootLive : e.isLive e.root = true
  /-- An item tells of a completed child to its parent, and a live parent still has the child. -/
  reported : ∀ {w : WorkItem} {p c : InstanceId}, w ∈ e.queue.work → w.report? = some (p, c) →
    p.number < e.nextInstance ∧ c.number < e.nextInstance ∧
      (∀ i, e.instances[c]? = some i → i.state.isTerminal = true ∧ i.parent = some p) ∧
      (e.isLive p = true → ∃ i, e.instances[c]? = some i)
  /-- A resumption is for an instance that has been created. -/
  created : ∀ {w : WorkItem} {o : InstanceId}, w ∈ e.queue.work → w.resumes o = true →
    o.number < e.nextInstance
  /-- A queued fault comes from a node of the definition. -/
  sourced : ∀ {h c : InstanceId} {tag : CallbackTag} {f : Fault},
    WorkItem.fault h c tag f ∈ e.queue.work → (e.definition.get? f.sourceNode).isSome = true
  /-- A completed child is told of once. -/
  told : ∀ {k p : InstanceId} {i : Instance}, e.instances[k]? = some i →
    i.state.isTerminal = true → i.parent = some p → ¬ X k →
    e.queue.work.countP (·.tellsOf k) = 1
  /-- An exempt completed child is not told of. -/
  untold : ∀ {k p : InstanceId} {i : Instance}, e.instances[k]? = some i →
    i.state.isTerminal = true → i.parent = some p → X k → e.queue.work.countP (·.tellsOf k) = 0
  /-- A live instance that has run waits for something. -/
  waiting : ∀ {k : InstanceId} {i : Instance}, e.instances[k]? = some i → i.state.isLive = true →
    ¬ X k → i.executed = true → i.busy ≠ 0
  /-- A live instance that has not run waits for nothing and is queued. -/
  queued : ∀ {k : InstanceId} {i : Instance}, e.instances[k]? = some i → i.state.isLive = true →
    ¬ X k → i.executed = false →
    i.state = .executing ∧ i.busy = 0 ∧ WorkItem.execute k ∈ e.queue.work

/-- The owners of bookmarks, scopes and operations. -/
structure Owned (e : Executor) : Prop where
  /-- Registrations stand under their bookmarks. -/
  filed : ∀ {b : Bookmark} {g : Registration}, e.bookmarks.registrations[b]? = some g →
    g.bookmark = b
  /-- Bookmarks have live owners. -/
  bookmark : ∀ {b : Bookmark} {g : Registration}, e.bookmarks.registrations[b]? = some g →
    e.isLive g.owner = true
  /-- Scopes have live owners. -/
  scope : ∀ {s : Uuid} {o : InstanceId}, e.bookmarks.scopes[s]? = some o → e.isLive o = true
  /-- Operations have live owners that run asynchronous activities. -/
  operation : ∀ {o : OperationId} {k : InstanceId}, e.operations[o]? = some k →
    e.isLive k = true ∧ (e.nodeOf k).body.kind = .async
  /-- Operations have been begun. -/
  begun : ∀ {o : OperationId} {k : InstanceId}, e.operations[o]? = some k →
    o.number < e.nextOperation

/-- Bookmarks and resumptions are for instances that have run. -/
structure Awake (e : Executor) (X : InstanceId → Prop) : Prop where
  registered : ∀ {b : Bookmark} {g : Registration} {i : Instance},
    e.bookmarks.registrations[b]? = some g → e.instances[g.owner]? = some i →
    i.state.isLive = true → ¬ X g.owner → i.executed = true
  resumed : ∀ {w : WorkItem} {o : InstanceId} {i : Instance}, w ∈ e.queue.work →
    w.resumes o = true → e.instances[o]? = some i → i.state.isLive = true → ¬ X o →
    i.executed = true

/-- The invariant of an executor whose workflow has not completed. -/
structure Consistent (e : Executor) (X : InstanceId → Prop) : Prop where
  placed : e.Placed X
  owned : e.Owned
  awake : e.Awake X
  balanced : e.Balanced
  /-- The workflow has no outcome. -/
  opened : e.outcome = none
  /-- No instance stopped waiting for something while it waited for nothing. -/
  sober : e.isOverdrawn = false
  /-- Work is being done. -/
  running : e.state = .runnable

/-- Executors that differ only in what work does not depend on: records, the journal, handles, the
inbox and the services of the host. -/
structure SameCore (e e' : Executor) : Prop where
  definition : e'.definition = e.definition := by rfl
  instances : e'.instances = e.instances := by rfl
  nextInstance : e'.nextInstance = e.nextInstance := by rfl
  root : e'.root = e.root := by rfl
  queue : e'.queue = e.queue := by rfl
  bookmarks : e'.bookmarks = e.bookmarks := by rfl
  operations : e'.operations = e.operations := by rfl
  nextOperation : e'.nextOperation = e.nextOperation := by rfl
  state : e'.state = e.state := by rfl
  outcome : e'.outcome = e.outcome := by rfl
  isOverdrawn : e'.isOverdrawn = e.isOverdrawn := by rfl

theorem SameCore.refl (e : Executor) : SameCore e e :=
  {}

theorem SameCore.of_eq (h : e' = e) : SameCore e e' :=
  h ▸ .refl e'

theorem SameCore.trans (h : SameCore e e') (h' : SameCore e' e'') : SameCore e e'' := by
  constructor
  · exact h'.definition.trans h.definition
  · exact h'.instances.trans h.instances
  · exact h'.nextInstance.trans h.nextInstance
  · exact h'.root.trans h.root
  · exact h'.queue.trans h.queue
  · exact h'.bookmarks.trans h.bookmarks
  · exact h'.operations.trans h.operations
  · exact h'.nextOperation.trans h.nextOperation
  · exact h'.state.trans h.state
  · exact h'.outcome.trans h.outcome
  · exact h'.isOverdrawn.trans h.isOverdrawn

/-- What work does not depend on does not matter for the invariant. -/
theorem SameCore.consistent (h : SameCore e e') (hc : e.Consistent X) : e'.Consistent X := by
  obtain ⟨h1, h2, h3, h4, h5, h6, h7, h8, h9, h10, h11⟩ := h
  cases e
  cases e'
  dsimp only at h1 h2 h3 h4 h5 h6 h7 h8 h9 h10 h11
  subst h1 h2 h3 h4 h5 h6 h7 h8 h9 h10 h11
  obtain ⟨⟨p1, p2, p3, p4, p5, p6, p7, p8, p9⟩, ⟨o1, o2, o3, o4, o5⟩, ⟨a1, a2⟩, hb, hn, hs, hr⟩ := hc
  exact ⟨⟨p1, p2, p3, p4, p5, p6, p7, p8, p9⟩, ⟨o1, o2, o3, o4, o5⟩, ⟨a1, a2⟩, hb, hn, hs, hr⟩

theorem sameCore_log (entry : JournalEntry) : SameCore e (e.log entry) :=
  {}

theorem sameCore_track (event : TrackingEvent) : SameCore e (e.track event) :=
  {}

theorem sameCore_trackState (k : InstanceId) (s : ActivityState) :
    SameCore e (e.trackState k s) := by
  unfold trackState
  split
  · exact sameCore_track _
  · exact .refl e

theorem sameCore_trackScheduled (parent : Option ActivityInfo) (k : InstanceId) :
    SameCore e (e.trackScheduled parent k) := by
  unfold trackScheduled
  split
  · exact sameCore_track _
  · exact .refl e

theorem sameCore_trackResumed (b : Bookmark) (owner : InstanceId) :
    SameCore e (e.trackResumed b owner) := by
  unfold trackResumed
  split
  · exact sameCore_track _
  · exact .refl e

theorem sameCore_trackFault (f : Fault) (handler : Option InstanceId) :
    SameCore e (e.trackFault f handler) :=
  sameCore_track _

theorem sameCore_announce : SameCore e e.announce := by
  unfold announce
  split
  · exact .refl e
  · dsimp only
    split
    · refine SameCore.trans ?_ (sameCore_trackScheduled _ _)
      exact {}
    · exact {}

end Executor

end Workflow
