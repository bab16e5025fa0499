import Workflow.Executor.Answer

/-!
# Completion and faults

An instance completes, or it faults. A completed child waits to be observed by its parent. A fault
tears down what is below the instance and travels up to the first handler; the end of the root is
the end of the workflow.
-/

namespace Workflow.Executor

variable (e : Executor)

/-- The values of the root's outgoing arguments. -/
def outputs : Environment :=
  match e.instance? e.root with
  | none => ∅
  | some root =>
    (e.definition.root.arguments.filter (·.direction.isOutput)).foldl
      (fun (outputs : Environment) a =>
        match root.environment[a.name]? with
        | some v => outputs.insert a.name v
        | none => outputs)
      ∅

/-- The state, outcome and report that follow from a root that has completed. -/
def ending? : Option (WorkflowState × Outcome × LifecycleEvent) :=
  (e.instance? e.root).bind fun root =>
    match root.state with
    | .closed => some (.closed, .completed root.result e.outputs, .completed)
    | .canceled => some (.canceled, .canceled, .canceled)
    | .faulted => root.fault.map fun f =>
      (.faulted, .faulted f, if f.isTermination then .terminated else .faulted)
    | _ => none

/-- Complete the workflow if its root has completed. Nothing is left to do then. -/
def finishWorkflow : Executor :=
  match e.ending? with
  | none => e
  | some (state, outcome, event) =>
    let e := { e with queue := e.queue.clear, operations := ∅, state, outcome := some outcome }
    e.trackLifecycle event

/-- Complete an instance, normally or by cancellation. Its parent is told in turn; the root
completes the workflow. -/
def completeInstance (id : InstanceId) : Executor :=
  match e.instance? id with
  | none => e
  | some i =>
    let state : ActivityState := if i.markedCanceled then .canceled else .closed
    let e := e.modify id fun i => { i with state }
    let e := { e with bookmarks := (e.bookmarks.removeOwned id).removeScopes id }
    let e := e.trackState id state
    match i.parent with
    | some parent => e.enqueue (.completion parent id)
    | none => e.finishWorkflow

/-- Complete an instance whose body has run and that waits for nothing. -/
def tryComplete (id : InstanceId) : Executor :=
  if (e.instance? id).any Instance.canComplete then e.completeInstance id else e

/-- Take the bookmarks, scopes and operations of an instance away. -/
def releaseResources (id : InstanceId) : Executor :=
  { e with
    bookmarks := (e.bookmarks.removeOwned id).removeScopes id
    operations := e.operations.filter fun _ o => o != id }

/-- Tell the body of an instance that it is torn down. Code activities are not told, and what the
body does with the news has no effect on the workflow. -/
def callAbortHook (id : InstanceId) (reason : Fault) : Executor :=
  match e.instance? id with
  | none => e
  | some i =>
    let body := (e.definition.node i.node).body
    if body.kind = .code then e else e.log (.call id body.label (.abort reason))

/-- Tear one instance down; one that has completed is only removed. -/
def abortInstance (reason : Fault) (id : InstanceId) : Executor :=
  match e.instance? id with
  | none => e
  | some i =>
    let e :=
      if i.state.isTerminal then e
      else ((e.releaseResources id).callAbortHook id reason).trackState id .faulted
    { e with instances := e.instances.erase id }

/-- Fault one live instance: tear down what is below it, children first, release what it owns, and
record the fault. -/
def markFaulted (id : InstanceId) (f : Fault) : Executor :=
  let below := e.descendants id
  let e := e.modify id fun i => { i with state := .faulting, children := [] }
  let e := below.foldl (fun e id => e.abortInstance f id) e
  let e := e.releaseResources id
  let e := e.modify id fun i => { i with state := .faulted, busy := 0, fault := some f }
  e.trackState id .faulted

/-- Fault an instance and pass the fault upwards, over at most the given number of links: to the
end of the workflow at the root, to a handler where the parent has one, and else to the parent. -/
def propagate : Nat → InstanceId → Fault → Executor → Executor
  | 0, _, _, e => e
  | fuel + 1, id, f, e =>
    match e.instance? id with
    | none => e
    | some i =>
      if i.state.isTerminal then e
      else
        let e := e.markFaulted id f
        match i.parent, i.faultCallback with
        | none, _ => (e.trackFault f none).finishWorkflow
        | some parent, some callback =>
          (e.trackFault f (some parent)).enqueue (.fault parent id callback f)
        | some parent, none => propagate fuel parent f e

/-- Fault an instance. -/
def faultInstance (id : InstanceId) (f : Fault) : Executor :=
  propagate e.instances.size id f e

/-- Fault an instance with an error of its own, unless it is gone or has completed. -/
def raise (id : InstanceId) (error : ActivityError) : Executor :=
  match e.instance? id with
  | none => e
  | some i => e.faultInstance id ⟨error, id, i.node, (e.definition.node i.node).name, false⟩

/-- Call the body of an instance; a crash becomes a fault of the instance. -/
def invoke {k : BodyKind} {α : Type} (id : InstanceId) (callback : Callback)
    (program : Program k α) : Option α × Executor :=
  let e := e.log (.call id (e.nodeOf id).body.label callback)
  match e.perform id program with
  | (.ok a, e) => (some a, e)
  | (.error crash, e) => (none, e.raise id crash.toError)

end Workflow.Executor
