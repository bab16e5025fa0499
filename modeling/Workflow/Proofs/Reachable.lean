import Workflow.Proofs.Alike
import Workflow.Proofs.Restoring

/-!
# Reachable executors

An executor is created from an activity tree or restored from the image of another one. Its host
calls it, in any order, and a call may stop after any item of work. Whatever the bodies do, every
executor that is reached is regular.
-/

namespace Workflow

/-- What a host may call an executor for. -/
inductive ExecutorCall where
  /-- Run until the workflow completes or waits, doing at most the given number of items. -/
  | run (limit : Nat)
  /-- Do one item. -/
  | runOneStep
  /-- Resume a bookmark. -/
  | resumeBookmark (b : Bookmark) (v : Value) (p : Priority)
  /-- Cancel the workflow. -/
  | cancel
  /-- Fault the workflow. -/
  | terminate (reason : String)
  /-- Tear the workflow down. -/
  | abort (reason : String)
  /-- Complete an operation by the handle that the executor gave out for it. -/
  | complete (operation : OperationId) (result : Except ActivityError Value)
  /-- Queue the completions that have arrived. -/
  | drainInbox
  /-- List the bookmarks. -/
  | listBookmarks
  /-- Take the journal. -/
  | takeJournal
  /-- Take the handles that were given out. -/
  | takeHandles
  /-- Take the request to save the workflow. -/
  | takePersistRequest
  /-- Report an event of the host's own. -/
  | track (event : TrackingEvent)
  /-- Change the services. -/
  | withExtensions (x : Extensions)
  /-- Change the receivers of records. -/
  | withTracking (t : TrackingProvider)

namespace ExecutorCall

/-- What an answer to a call is. -/
abbrev Response : ExecutorCall → Type
  | run _ => Except EngineError Outcome
  | runOneStep => Except EngineError Bool
  | resumeBookmark _ _ _ => Resumption
  | cancel => Except ContractViolation Unit
  | terminate _ => Except ContractViolation Unit
  | abort _ => Unit
  | complete _ _ => Except ContractViolation Unit
  | drainInbox => Nat
  | listBookmarks => List BookmarkInfo
  | takeJournal => List JournalEntry
  | takeHandles => List OperationId
  | takePersistRequest => Bool
  | track _ => Unit
  | withExtensions _ => Unit
  | withTracking _ => Unit

/-- Serve a call. -/
def serve (e : Executor) : (c : ExecutorCall) → c.Response × Executor
  | run limit => e.run limit
  | runOneStep => e.runOneStep
  | resumeBookmark b v p => e.resumeBookmark b v p
  | cancel => e.cancelWorkflow
  | terminate reason => e.terminate reason
  | abort reason => ((), e.abort reason)
  | complete operation result => e.completeHandle (e.handleOf operation) result
  | drainInbox => e.drainInbox
  | listBookmarks => (e.bookmarkInfos, e)
  | takeJournal => e.takeJournal
  | takeHandles => (e.takeHandles.1.map (·.operation), e.takeHandles.2)
  | takePersistRequest => e.takePersistRequest
  | track event => ((), e.track event)
  | withExtensions x => ((), e.withExtensions x)
  | withTracking t => ((), e.withTracking t)

/-- Serve one call after another; the answers and the executor at the end. -/
def converse (e : Executor) : List ExecutorCall → List ((c : ExecutorCall) × c.Response) × Executor
  | [] => ([], e)
  | c :: rest =>
    let (answer, e) := c.serve e
    let (answers, e) := converse e rest
    (⟨c, answer⟩ :: answers, e)

end ExecutorCall

/-- What is sound in a definition is sound in one that is alike. -/
theorem Instance.Sound.alike {d d' : Definition} {i : Instance} (h : i.Sound d)
    (ha : d.Alike d') : i.Sound d' :=
  ⟨ha.isSome_get? i.node ▸ h.known, h.ascending, h.childless, h.steady, h.faulted,
    fun f hf => ha.isSome_get? f.sourceNode ▸ h.sourced f hf⟩

/-- A tree of instances is a tree in a definition that is alike. -/
theorem IsTree.alike {d d' : Definition} {root : InstanceId} {next : Nat} {t : InstanceTable}
    (h : IsTree d root next t) (ha : d.Alike d') : IsTree d' root next t where
  runnable := ha.runnable h.runnable
  keyed := h.keyed
  below := h.below
  sound hi := (h.sound hi).alike ha
  rooted := h.rooted
  orphan := h.orphan
  listed := h.listed
  linked := h.linked
  older := h.older
  declared hi hp hq := ha.isDeclaredChild _ _ ▸ h.declared hi hp hq

namespace Executor

variable {e e' r : Executor} {d : Definition} {X : InstanceId → Prop}

/-- The executors that hosts and bodies can bring about. -/
inductive Reachable : Executor → Prop
  /-- A new executor. -/
  | created {e : Executor} {workflow : WorkflowId} {a : Activity} {inputs : Environment}
      {mailbox : Nat} (h : create workflow a.prepare inputs mailbox = .ok e) : Reachable e
  /-- An executor that is restored from the image of another one. -/
  | restored {e r : Executor} {now : Timestamp} {s : Snapshot} {a : Activity} {mailbox : Nat}
      (h : Reachable e) (hc : e.capture now = .ok s) (hr : s.restore a.prepare mailbox = .ok r) :
      Reachable r
  /-- A call of the host has been served. -/
  | served {e : Executor} (h : Reachable e) (c : ExecutorCall) : Reachable (c.serve e).2
  /-- A run has begun and done no work yet. -/
  | entered {e : Executor} (h : Reachable e) (ho : e.outcome = none) (ha : e.state ≠ .aborted) :
      Reachable { e.announce with state := .runnable }
  /-- A run has done one more item. -/
  | stepped {e e' : Executor} (h : Reachable e) (ho : e.outcome = none) (ha : e.state ≠ .aborted)
      (hs : e.step? = some e') : Reachable e'
  /-- The host has created scopes elsewhere, or an application now hosts the workflow. -/
  | hosted {e : Executor} (h : Reachable e) {n : Nat} (hn : e.scopeCount ≤ n) (isHosted : Bool) :
      Reachable { e with scopeCount := n, isHosted }
  /-- Bodies that keep a state of their own have changed it. -/
  | altered {e : Executor} {d : Definition} (h : Reachable e) (ha : e.definition.Alike d) :
      Reachable { e with definition := d }

/-! ### New executors -/

/-- The instance of a whole definition, before anything happens to it. -/
def newRoot (d : Definition) (inputs : Environment) : Instance where
  id := ⟨1⟩
  node := .root
  parent := none
  scope := .default
  environment := firstValues d.root (rootArgument inputs)

/-- The executor of a new workflow. -/
def fresh (workflow : WorkflowId) (d : Definition) (inputs : Environment) (mailbox : Nat) :
    Executor where
  workflow := workflow
  definition := d
  instances := (∅ : InstanceTable).insert ⟨1⟩ (newRoot d inputs)
  nextInstance := 2
  queue := WorkQueue.empty.push (.execute ⟨1⟩)
  mailbox := mailbox
  announcement := some .started

/-- When a new workflow is accepted and what is made for it. -/
theorem create_eq_ok {workflow : WorkflowId} {inputs : Environment} {mailbox : Nat} :
    create workflow d inputs mailbox = .ok e ↔
      d.ensureValid = .ok () ∧ d.checkInputs inputs = .ok () ∧ e = fresh workflow d inputs mailbox := by
  unfold create
  cases d.ensureValid with
  | error _ => exact ⟨fun h => (by cases h), fun ⟨h, _⟩ => (by cases h)⟩
  | ok =>
    cases d.checkInputs inputs with
    | error _ => exact ⟨fun h => (by cases h), fun ⟨_, h, _⟩ => (by cases h)⟩
    | ok => exact ⟨fun h => ⟨rfl, rfl, (Except.ok.inj h).symm⟩, fun h => congrArg Except.ok h.2.2.symm⟩

section NewRoot

variable (d : Definition) (inputs : Environment)

/-- The table that has the root only. -/
def rootOnly : InstanceTable :=
  (∅ : InstanceTable).insert ⟨1⟩ (newRoot d inputs)

variable {d inputs} in
/-- Only the root is in it. -/
theorem lookup_rootOnly {k : InstanceId} {i : Instance} :
    (rootOnly d inputs)[k]? = some i ↔ k = ⟨1⟩ ∧ i = newRoot d inputs := by
  rw [rootOnly, Table.lookup_insert]
  split
  · next hk => rw [Option.some.injEq, eq_comm, and_iff_right hk.symm]
  · next hk => simp [Ne.symm hk]

/-- The root by itself is sound. -/
theorem newRoot_sound : (newRoot d inputs).Sound d where
  known := rfl
  ascending := .nil
  childless _ := rfl
  steady := ActivityState.noConfusion
  faulted := ⟨fun h => absurd h Bool.false_ne_true, fun h => ActivityState.noConfusion h⟩
  sourced f hf := absurd hf.symm (Option.some_ne_none f)

/-- The root by itself is a tree. -/
theorem rootOnly_isTree (hd : d.Runnable) : IsTree d ⟨1⟩ 2 (rootOnly d inputs) := by
  have nobody : ∀ {k p : InstanceId} {i : Instance}, (rootOnly d inputs)[k]? = some i →
      i.parent ≠ some p := by
    intro k p i hi
    obtain ⟨-, rfl⟩ := lookup_rootOnly.mp hi
    exact (Option.some_ne_none p).symm
  refine ⟨hd, ?_, ?_, ?_, ⟨_, lookup_rootOnly.mpr ⟨rfl, rfl⟩, rfl, rfl⟩, ?_, fun hi hp => (nobody hi hp).elim,
    ?_, fun hi hp => (nobody hi hp).elim, fun hi hp _ => (nobody hi hp).elim⟩
  · intro k i hi
    obtain ⟨rfl, rfl⟩ := lookup_rootOnly.mp hi
    rfl
  · intro k i hi
    obtain ⟨rfl, -⟩ := lookup_rootOnly.mp hi
    exact Nat.one_lt_two
  · intro k i hi
    obtain ⟨-, rfl⟩ := lookup_rootOnly.mp hi
    exact newRoot_sound d inputs
  · intro k i hi _
    exact (lookup_rootOnly.mp hi).1
  · intro p c q hq hc
    obtain ⟨-, rfl⟩ := lookup_rootOnly.mp hq
    exact absurd hc List.not_mem_nil

end NewRoot

/-- A new executor has its root queued and nothing else. -/
theorem create_consistent (hd : d.WellFormed) {workflow : WorkflowId} {inputs : Environment}
    {mailbox : Nat} (h : create workflow d inputs mailbox = .ok e) : e.Consistent Nobody := by
  obtain ⟨hv, -, rfl⟩ := create_eq_ok.mp h
  have only : ∀ {k : InstanceId} {i : Instance}, (rootOnly d inputs)[k]? = some i →
      k = ⟨1⟩ ∧ i = newRoot d inputs := fun hi => lookup_rootOnly.mp hi
  have mem : ∀ {w : WorkItem}, w ∈ (WorkQueue.empty.push (.execute ⟨1⟩)).work →
      w = .execute ⟨1⟩ := fun hw => by
    rcases WorkQueue.mem_work_push.mp hw with hw | hw
    · exact hw
    · exact absurd hw List.not_mem_nil
  refine ⟨⟨rootOnly_isTree d inputs ⟨hd, hv⟩, isLive_iff.mpr ⟨_, lookup_rootOnly.mpr ⟨rfl, rfl⟩, rfl⟩,
    fun hw hr => ?_, fun hw hr => ?_, fun hw => ?_, fun hi ht _ _ => ?_, fun _ _ _ hX => hX.elim,
    fun hi _ _ hx => ?_, fun hi _ _ _ => ?_⟩, ⟨fun hg => ?_, fun hg => ?_, fun hs => ?_, fun ho => ?_,
      fun ho => ?_⟩, ⟨fun hg => ?_, fun hw hr => ?_⟩, fun k i hi _ => ?_, rfl, rfl, rfl⟩
  · cases mem hw
    cases hr
  · cases mem hw
    cases hr
  · cases mem hw
  · obtain ⟨-, rfl⟩ := only hi
    cases ht
  · obtain ⟨-, rfl⟩ := only hi
    cases hx
  · obtain ⟨rfl, rfl⟩ := only hi
    exact ⟨rfl, rfl, WorkQueue.mem_work_push.mpr (.inl rfl)⟩
  · simp [fresh] at hg
  · simp [fresh] at hg
  · simp [fresh] at hs
  · simp [fresh] at ho
  · simp [fresh] at ho
  · simp [fresh] at hg
  · cases mem hw
    cases hr
  · obtain ⟨rfl, rfl⟩ := only hi
    rfl

/-! ### Bodies with a state -/

/-- A workflow goes on as it was when bodies change their state. -/
theorem Consistent.alike (h : e.Consistent X) (ha : e.definition.Alike d) :
    Consistent { e with definition := d } X := by
  obtain ⟨⟨p1, p2, p3, p4, p5, p6, p7, p8, p9⟩, ⟨o1, o2, o3, o4, o5⟩, ⟨a1, a2⟩, b, n, s, r⟩ := h
  refine ⟨⟨p1.alike ha, p2, p3, p4, fun hw => ?_, p6, p7, p8, p9⟩,
    ⟨o1, o2, o3, fun ho => ⟨(o4 ho).1, ?_⟩, o5⟩, ⟨a1, a2⟩, b, n, s, r⟩
  · rw [← ha.isSome_get?]
    exact p5 hw
  · exact (ha.kind _).symm.trans (o4 ho).2

/-- The end of a workflow does not depend on the state of bodies. -/
theorem ending?_alike (ha : e.definition.Alike d) :
    ending? { e with definition := d } = e.ending? := by
  have hr : d.root.arguments = e.definition.root.arguments :=
    (ha.apply_root (f := (·.arguments)) fun _ => rfl).symm
  rw [ending?, ending?, outputs, outputs, hr]
  rfl

/-- An executor stays regular when bodies change their state. -/
theorem Regular.alike (h : e.Regular) (ha : e.definition.Alike d) :
    Regular { e with definition := d } := by
  cases h with
  | working h => exact .working (h.alike ha)
  | resting h => exact .resting ⟨h.state, h.work, h.consistent.alike ha⟩
  | finished h =>
    refine .finished ⟨h.tree.alike ha, h.ended, h.bookmarks, h.operations, ?_, h.sober, h.late⟩
    rw [ending?_alike ha]
    exact h.ending
  | aborted h => exact .aborted ⟨h.state, h.instances, h.bookmarks, h.operations, h.sober⟩

/-! ### Every reachable executor -/

/-- An operation is completed by the handle that the executor gave out for it. -/
theorem completeHandle_own (o : OperationId) (result : Except ActivityError Value) :
    e.completeHandle (e.handleOf o) result = (.ok (), e.post ⟨o, result⟩) :=
  if_pos rfl

/-- Every call leads to a regular executor. -/
theorem Regular.serve (h : e.Regular) (c : ExecutorCall) : (c.serve e).2.Regular := by
  cases c with
  | run limit => exact h.run limit
  | runOneStep => exact h.runOneStep
  | resumeBookmark b v p => exact h.resumeBookmark b v p
  | cancel => exact h.cancelWorkflow
  | terminate reason => exact h.terminate reason
  | abort reason => exact h.abort reason
  | complete operation result =>
    rw [ExecutorCall.serve, completeHandle_own]
    exact SameCore.regular (e := e) {} h
  | drainInbox => exact h.drainInbox
  | listBookmarks => exact h
  | track event => exact (sameCore_track event).regular h
  | takeJournal | takeHandles | takePersistRequest | withExtensions | withTracking =>
    refine SameCore.regular (e := e) ?_ h
    exact {}

/-- Every executor that hosts and bodies can bring about is regular. -/
theorem Reachable.regular (h : e.Reachable) : e.Regular := by
  induction h with
  | created h => exact .working (create_consistent (Activity.prepare_wellFormed _) h)
  | restored _ hc hr ih => exact ih.restore hc (Activity.prepare_wellFormed _) hr
  | served _ c ih => exact ih.serve c
  | entered _ ho ha ih =>
    exact .working (ih.enter (sameCore_announce.outcome.trans ho) (sameCore_announce.state.symm ▸ ha))
  | stepped _ ho ha hs ih => exact (ih.step ho ha hs).regular
  | @hosted e _ _ _ _ ih =>
    refine SameCore.regular (e := e) ?_ ih
    exact {}
  | altered _ ha ih => exact ih.alike ha

/-- Every conversation with a host leads to a reachable executor. -/
theorem Reachable.converse (h : e.Reachable) (calls : List ExecutorCall) :
    (ExecutorCall.converse e calls).2.Reachable := by
  induction calls generalizing e with
  | nil => exact h
  | cons c rest ih => exact ih (h.served c)

/-! ### Small workflows -/

end Executor

namespace Activity

/-- An activity that has a native body. -/
def ofNative (name : String) (body : NativeBody) (children : List Activity) : Activity :=
  .mk name ⟨name, name, fun _ => [], .native body⟩ children [] []

/-- An activity that schedules its children at once. -/
def parallel (children : List Activity) : Activity :=
  ofNative "parallel" { execute := do
    let nodes ← Program.scheduling .children
    nodes.forM fun node => discard <| Program.scheduling (.schedule node {}) } children

/-- An activity that waits at a bookmark. -/
def waitAt (name : String) : Activity :=
  ofNative name { execute := do
    discard <| Program.scheduling (.createBookmark name none none .once) } []

end Activity

namespace Executor

/-- A new executor for a workflow that needs no inputs. -/
def begun (a : Activity) : Executor :=
  fresh ⟨.ofNat 1⟩ a.prepare ∅ 0

/-- Whatever is said of an instance that is not there is true. -/
theorem forall_of_isNone {e : Executor} {P : Instance → Prop} {k : InstanceId}
    (h : e.instances[k]?.isNone = true) : ∀ i, e.instances[k]? = some i → P i := by
  intro i hi
  rw [Option.isNone_iff_eq_none.mp h] at hi
  exact absurd hi.symm (Option.some_ne_none i)

/-- Valid workflows can begin. -/
theorem Reachable.begun {a : Activity} (hv : a.prepare.ensureValid = .ok ())
    (hi : a.prepare.checkInputs ∅ = .ok ()) : (begun a).Reachable :=
  .created (create_eq_ok.mpr ⟨hv, hi, rfl⟩)

end Executor

end Workflow
