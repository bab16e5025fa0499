import Workflow.Executor.Propagation

/-!
# Dispatching work

Each work item is done by one function. An item whose instance is gone or no longer live is passed
over.
-/

namespace Workflow.Executor

variable (e : Executor)

/-- The programs of an instance. -/
def behaviour? (id : InstanceId) : Option Behaviour :=
  (e.instance? id).map fun i => (e.definition.node i.node).body.behaviour

/-- The programs of an instance that runs a native activity. -/
def nativeBody? (id : InstanceId) : Option NativeBody :=
  match e.behaviour? id with
  | some (.native body) => some body
  | _ => none

/-- Record the result of an instance, if there is one. -/
def recordResult (id : InstanceId) (result : Option Value) : Executor :=
  match result with
  | some v => e.modify id fun i => { i with result := some v }
  | none => e

/-- Run the body of an instance that has not run; tells whether it ended without a crash. -/
def runBody (id : InstanceId) : Behaviour → Bool × Executor
  | .code program =>
    match e.invoke id .execute program with
    | (some result, e) => (true, e.recordResult id result)
    | (none, e) => (false, e)
  | .native body =>
    let (result, e) := e.invoke id .execute body.execute
    (result.isSome, e)
  | .async body =>
    let (operation, e) := e.beginOperation id
    let (result, e) := e.invoke id (.start operation) (body.start operation)
    (result.isSome, e)

/-- Execute an instance, once and only while nothing has happened to it. -/
def executeActivity (id : InstanceId) : Executor :=
  match e.instance? id, e.behaviour? id with
  | some i, some behaviour =>
    if i.executed ∨ i.state ≠ .executing then e
    else
      let e := e.trackState id .executing
      match e.runBody id behaviour with
      | (true, e) => (e.modify id fun i => { i with executed := true }).tryComplete id
      | (false, e) => e
  | _, _ => e

/-- Call an instance back that has run; it may complete then. -/
def callBack (id : InstanceId) (callback : Callback) (program : Program .native Unit) : Executor :=
  match e.invoke id callback program with
  | (some _, e) => e.tryComplete id
  | (none, e) => e

/-- Copy the outgoing arguments of a closed child to the locations that they are bound to. -/
def copyOutputs (parent : InstanceId) (child : Instance) : Executor :=
  (e.definition.node child.node).arguments.foldl
    (fun e a =>
      match a.direction.isOutput, a.binding, child.environment[a.name]? with
      | true, .location target, some v =>
        match e.resolve? parent target with
        | some owner => e.modify owner fun i =>
          { i with environment := (i.environment.assign? target v).getD i.environment }
        | none => e
      | _, _, _ => e)
    e

/-- Let a parent observe a completed child. The child leaves the table; a live parent stops waiting
for it, takes its outputs, and is called back. -/
def deliverCompletion (parent child : InstanceId) : Executor :=
  match e.instance? child with
  | none => e
  | some c =>
    let e := { e with instances := e.instances.erase child }
    if !e.isLive parent then e
    else
      let e := e.modify parent fun p => { p with children := p.children.filter (· != child) }
      let e := e.release parent 1
      let e := if c.state = .closed then e.copyOutputs parent c else e
      match c.completionCallback, e.nativeBody? parent with
      | some tag, some body =>
        e.callBack parent (.childCompleted tag c.completed) (body.childCompleted tag c.completed)
      | _, _ => e.tryComplete parent

/-- Let a live handler decide about the fault of a child. A handled child is then observed like any
other completed child; else the handler faults. -/
def deliverFault (handler child : InstanceId) (tag : CallbackTag) (f : Fault) : Executor :=
  if !e.isLive handler then e
  else
    match e.nativeBody? handler with
    | none => e.faultInstance handler f
    | some body =>
      let node := ((e.instance? child).map (·.node)).getD f.sourceNode
      let context : FaultContext := ⟨f, child, node⟩
      match e.invoke handler (.childFaulted tag context) (body.childFaulted tag context) with
      | (none, e) => e
      | (some .handled, e) => e.enqueue (.completion handler child)
      | (some .propagate, e) => e.faultInstance handler f

/-- Call the body of an instance to cancel; tells whether the call ended without a crash. -/
def runCancel (id : InstanceId) : Behaviour → Bool × Executor
  | .code _ => (true, e)
  | .native body =>
    let (result, e) := e.invoke id .cancel body.cancel
    (result.isSome, e)
  | .async body =>
    let (result, e) := e.invoke id .cancel body.cancel
    let agreed := (e.instance? id).any (·.markedCanceled)
    (result.isSome, if result.isSome ∧ agreed then e.abandonOperations id else e)

/-- Ask a live instance to cancel, once. One that has not run completes at once. -/
def cancelInstance (id : InstanceId) : Executor :=
  match e.instance? id, e.behaviour? id with
  | some i, some behaviour =>
    if !i.state.isLive ∨ i.cancelRequested then e
    else if !i.executed then
      let e := e.modify id fun i =>
        { i with cancelRequested := true, executed := true, markedCanceled := true }
      e.completeInstance id
    else
      let e := e.modify id fun i => { i with cancelRequested := true, state := .canceling }
      let e := e.trackState id .canceling
      match e.runCancel id behaviour with
      | (true, e) => e.tryComplete id
      | (false, e) => e
  | _, _ => e

/-- Pass a value to the live owner of a bookmark. -/
def deliverResumption (owner : InstanceId) (b : Bookmark) (callback : Option CallbackTag)
    (v : Value) (releases : Bool) : Executor :=
  if !e.isLive owner then e
  else
    let e := if releases then e.release owner 1 else e
    let e := e.trackResumed b owner
    match callback, e.nativeBody? owner with
    | some tag, some body =>
      e.callBack owner (.bookmarkResumed tag b v) (body.bookmarkResumed tag b v)
    | _, _ => e.tryComplete owner

/-- Complete an outstanding operation. Its live owner stops waiting for it and ends with the value,
or faults with the error. -/
def completeOperation (operation : OperationId) (result : Except ActivityError Value) : Executor :=
  match e.operations[operation]? with
  | none => e
  | some owner =>
    let e := { e with operations := e.operations.erase operation }
    if !e.isLive owner then e
    else
      let e := e.release owner 1
      match result, e.behaviour? owner with
      | .error error, _ => e.raise owner error
      | .ok v, some (.async body) =>
        match e.invoke owner (.finish v) (body.finish v) with
        | (some result, e) => (e.recordResult owner result).tryComplete owner
        | (none, e) => e
      | .ok _, _ => e

/-- Do one work item. -/
def dispatch : WorkItem → Executor
  | .execute id => e.executeActivity id
  | .completion parent child => e.deliverCompletion parent child
  | .fault handler child tag f => e.deliverFault handler child tag f
  | .cancel id => e.cancelInstance id
  | .bookmark owner b callback v releases => e.deliverResumption owner b callback v releases
  | .operation operation result => e.completeOperation operation result

end Workflow.Executor
