import Workflow.Definition
import Workflow.Instance
import Workflow.Journal
import Workflow.Registry
import Workflow.Tracking
import Workflow.WorkQueue

/-!
# Executors

An executor holds one workflow: its instances, its waiting work, its bookmarks and its outstanding
operations. This module has the record itself, the lookups along the parent links and the reports.
-/

namespace Workflow

/-- How a run of a workflow ends. -/
inductive Outcome where
  /-- The root closed, with its result and the values of its outgoing arguments. -/
  | completed (result : Option Value) (outputs : Environment)
  /-- The root faulted. -/
  | faulted (f : Fault)
  /-- The root was canceled. -/
  | canceled
  /-- The workflow waits for bookmarks or operations. -/
  | idle

/-- Whether the root has completed. -/
def Outcome.isCompleted : Outcome → Bool
  | idle => false
  | _ => true

/-- The news that an operation has completed. -/
structure OperationCompletion where
  /-- The operation. -/
  operation : OperationId
  /-- Its value or error. -/
  result : Except ActivityError Value

/-- The scheduler of one workflow. -/
structure Executor where
  /-- The workflow. -/
  workflow : WorkflowId
  /-- Its definition. -/
  definition : Definition
  /-- Its instances. -/
  instances : Std.ExtTreeMap InstanceId Instance := ∅
  /-- The number of the next instance. -/
  nextInstance : Nat := 1
  /-- The instance of the whole definition. -/
  root : InstanceId := ⟨1⟩
  /-- The waiting work. -/
  queue : WorkQueue := .empty
  /-- The bookmarks and scopes. -/
  bookmarks : Registry := {}
  /-- The owners of the outstanding operations. -/
  operations : Std.ExtTreeMap OperationId InstanceId := ∅
  /-- The number of the next operation. -/
  nextOperation : Nat := 1
  /-- The state of the workflow. -/
  state : WorkflowState := .runnable
  /-- How the workflow completed, once it has. -/
  outcome : Option Outcome := none
  /-- The mailbox that tells this executor from others of the same workflow. -/
  mailbox : Nat
  /-- Completions that have arrived and are not queued yet. -/
  inbox : List OperationCompletion := []
  /-- The operations whose handles were given out and not used yet, in the order of beginning. -/
  handles : List OperationId := []
  /-- The services of the host. -/
  extensions : Extensions := {}
  /-- The receivers of records. -/
  tracking : TrackingProvider := {}
  /-- An activity has asked to save the workflow. -/
  persistRequested : Bool := false
  /-- A change to be reported before the next work. -/
  announcement : Option LifecycleEvent := none
  /-- The calls and lines since the journal was last taken. -/
  journal : List JournalEntry := []
  /-- How many scopes have been created, here or elsewhere. -/
  scopeCount : Nat := 0
  /-- Whether an application hosts the workflow. -/
  isHosted : Bool := false
  /-- Whether an instance ever stopped waiting for something while it waited for nothing. -/
  isOverdrawn : Bool := false

namespace Executor

variable (e : Executor)

/-- The instance of an identifier. -/
def instance? (id : InstanceId) : Option Instance :=
  e.instances[id]?

/-- Change an instance if it is there. -/
def modify (id : InstanceId) (f : Instance → Instance) : Executor :=
  { e with instances := e.instances.modify id f }

/-- Let an instance wait for so many things less. Waiting for less than nothing is a broken
assertion; it is recorded, and the instance waits for nothing then. -/
def release (id : InstanceId) (count : Nat) : Executor :=
  { e.modify id fun i => { i with busy := i.busy - count } with
    isOverdrawn := e.isOverdrawn || (e.instance? id).any fun i => i.busy < count }

/-- Whether an instance is there and live. -/
def isLive (id : InstanceId) : Bool :=
  (e.instance? id).any (·.state.isLive)

/-- The node that an instance runs; the root node for one that is not there. -/
def nodeOf (id : InstanceId) : Node :=
  e.definition.node (((e.instance? id).map (·.node)).getD .root)

/-- Add an entry to the journal. -/
def log (entry : JournalEntry) : Executor :=
  { e with journal := e.journal ++ [entry] }

/-- Add an item of normal priority to the queue. -/
def enqueue (item : WorkItem) : Executor :=
  { e with queue := e.queue.push item }

/-- An instance and its ancestors, nearest first, over at most the given number of links. -/
def climb : Nat → Option InstanceId → List InstanceId
  | 0, _ => []
  | _ + 1, none => []
  | fuel + 1, some id => id :: climb fuel ((e.instance? id).bind (·.parent))

/-- An instance and its ancestors, nearest first. -/
def lineage (id : InstanceId) : List InstanceId :=
  e.climb (e.instances.size + 1) (some id)

/-- The nearest instance of a lineage that owns a location of a name. -/
def resolve? (id : InstanceId) (name : String) : Option InstanceId :=
  (e.lineage id).find? fun i => (e.instance? i).any (·.environment.contains name)

/-- The value of the nearest property of a name. -/
def property? (id : InstanceId) (name : String) : Option Value :=
  (e.lineage id).findSome? fun i => (e.instance? i).bind (·.properties[name]?)

/-- Whether an instance is another one or an ancestor of it. -/
def isAncestorOrSelf (ancestor id : InstanceId) : Bool :=
  (e.lineage id).contains ancestor

/-- An instance and its descendants, every one after its own descendants, down to a depth. -/
def descend : Nat → InstanceId → List InstanceId
  | 0, _ => []
  | depth + 1, id =>
    match e.instance? id with
    | none => []
    | some i => i.children.flatMap (descend depth) ++ [id]

/-- The descendants of an instance, every one after its own descendants. -/
def descendants (id : InstanceId) : List InstanceId :=
  (((e.instance? id).map (·.children)).getD []).flatMap (e.descend e.instances.size)

/-- How records refer to an instance. -/
def info? (id : InstanceId) : Option ActivityInfo :=
  (e.instance? id).map fun i =>
    let node := e.definition.node i.node
    ⟨id, node.path, node.name⟩

/-- Report an event. -/
def track (event : TrackingEvent) : Executor :=
  { e with tracking := e.tracking.emit e.workflow event }

/-- Report a change of the workflow. -/
def trackLifecycle (event : LifecycleEvent) : Executor :=
  e.track (.lifecycle event)

/-- Report the state of an instance. -/
def trackState (id : InstanceId) (state : ActivityState) : Executor :=
  match e.info? id with
  | some info => e.track (.stateChanged info state)
  | none => e

/-- Report a scheduled instance. -/
def trackScheduled (parent : Option ActivityInfo) (id : InstanceId) : Executor :=
  match e.info? id with
  | some info => e.track (.scheduled parent info)
  | none => e

/-- Report that a bookmark of an owner was resumed. -/
def trackResumed (b : Bookmark) (owner : InstanceId) : Executor :=
  match e.info? owner with
  | some info => e.track (.bookmarkResumed b info)
  | none => e

/-- Report a fault that reaches a handler, or the root. -/
def trackFault (f : Fault) (handler : Option InstanceId) : Executor :=
  let source : ActivityInfo := ⟨f.source, (e.definition.node f.sourceNode).path, f.sourceName⟩
  e.track (.faultPropagated source (handler.bind e.info?) f.error.describe)

/-- Report the change that is waiting to be reported, and with a start the scheduled root. -/
def announce : Executor :=
  match e.announcement with
  | none => e
  | some event =>
    let e := { e with announcement := none }
    let e := e.trackLifecycle event
    if event = .started then e.trackScheduled none e.root else e

/-- The fields of an executor for inspection. -/
def inspect : String :=
  "ActivityExecutor \x7b workflow_id: WorkflowInstanceId(" ++ toString e.workflow ++
    "), state: " ++ e.state.label ++ ", instances: " ++ toString e.instances.size ++
    ", queued: " ++ toString e.queue.size ++ ", bookmarks: " ++ toString e.bookmarks.size ++
    ", async_ops: " ++ toString e.operations.size ++ " \x7d"

end Executor

end Workflow
