import Workflow.Executor.Dispatch

/-!
# Running a workflow

A new executor has its root queued. A run does queued work until the root completes or nothing is
queued; the host may also do one item at a time, and it may cancel, terminate or abort the workflow.
-/

namespace Workflow.Executor

/-- The first value of an argument of the root: the one that the host supplies, else that of a
literal binding. -/
def rootArgument (inputs : Environment) (a : Argument) : Value :=
  match inputs[a.name]? with
  | some v => v
  | none =>
    match a.binding with
    | .literal v => if a.direction.isInput then v else .null
    | _ => .null

/-- An executor for a new workflow. The definition must be valid and the inputs must fit it. -/
def create (workflow : WorkflowId) (definition : Definition) (inputs : Environment)
    (mailbox : Nat) : Except EngineError Executor := do
  definition.ensureValid
  definition.checkInputs inputs
  let root : Instance :=
    { id := ⟨1⟩, node := .root, parent := none, scope := .default
      environment := firstValues definition.root (rootArgument inputs) }
  return { workflow, definition, mailbox
           instances := (∅ : Std.ExtTreeMap InstanceId Instance).insert root.id root
           nextInstance := 2
           queue := WorkQueue.empty.push (.execute root.id)
           announcement := some .started }

variable (e : Executor)

/-- Whether work is queued. -/
def hasRunnableWork : Bool :=
  e.queue.hasWork

/-- Refuse an aborted workflow. -/
def ensureNotAborted : Except ContractViolation Unit :=
  if e.state = .aborted then .error (.workflowAborted e.workflow) else .ok ()

/-- Refuse a workflow to which nothing can happen any more. -/
def ensureAccepting : Except ContractViolation Unit := do
  e.ensureNotAborted
  if e.state.isCompleted then .error (.workflowCompleted e.workflow)

/-- Do the next item, completed operations first taken from the inbox; `none` if no work waits. -/
def step? : Option Executor :=
  let (_, e) := e.drainInbox
  match e.queue.pop? with
  | none => none
  | some (item, queue) => some ({ e with queue }.dispatch item)

/-- The outcome of a workflow that has completed; any other becomes idle. -/
def settle : Outcome × Executor :=
  match e.outcome with
  | some outcome => (outcome, e)
  | none =>
    if e.state = .idle then (.idle, e)
    else (.idle, { e with state := .idle }.trackLifecycle .idle)

/-- Do items until the workflow completes or no work waits; `none` if the given number of items
is not enough. -/
def drainQueue : Nat → Executor → Option Executor
  | limit, e =>
    if e.outcome.isSome then some e
    else
      match limit, e.step? with
      | _, none => some e
      | 0, some _ => none
      | limit + 1, some e => drainQueue limit e

/-- Run the workflow until it completes or waits, doing at most the given number of items. A
completed workflow has the same outcome for ever. -/
def run (limit : Nat) : Except EngineError Outcome × Executor :=
  match e.ensureNotAborted with
  | .error v => (.error (.contract v), e)
  | .ok () =>
    let e := e.announce
    match e.outcome with
    | some outcome => (.ok outcome, e)
    | none =>
      match drainQueue limit { e with state := .runnable } with
      | none => (.error (.unsettled limit), e)
      | some e =>
        let (outcome, e) := e.settle
        (.ok outcome, e)

/-- Do one item; tells whether there was one. The workflow becomes idle as soon as no work waits. -/
def runOneStep : Except EngineError Bool × Executor :=
  match e.ensureNotAborted with
  | .error v => (.error (.contract v), e)
  | .ok () =>
    let e := e.announce
    if e.outcome.isSome then (.ok false, e)
    else
      match e.step? with
      | none => (.ok false, e.settle.2)
      | some e =>
        if e.queue.isEmpty then (.ok true, e.settle.2)
        else if e.outcome.isNone then (.ok true, { e with state := .runnable })
        else (.ok true, e)

/-- Cancel the workflow on its next run; one whose root has not run is canceled at once. -/
def cancelWorkflow : Except ContractViolation Unit × Executor :=
  match e.ensureAccepting with
  | .error v => (.error v, e)
  | .ok () =>
    if ((e.instance? e.root).map (·.executed)).getD true then
      (.ok (), { e.enqueue (.cancel e.root) with state := .runnable })
    else (.ok (), e.announce.cancelInstance e.root)

/-- Fault the workflow at once. -/
def terminate (reason : String) : Except ContractViolation Unit × Executor :=
  match e.ensureAccepting with
  | .error v => (.error v, e)
  | .ok () =>
    (.ok (), e.faultInstance e.root (.terminated reason e.root .root e.definition.root.name))

/-- Tear the workflow down without completing it. The bodies of live instances are told, the
youngest first. -/
def abort (reason : String) : Executor :=
  if e.state = .aborted then e
  else
    let fault : Fault := .aborted reason e.root .root e.definition.root.name
    let live := (e.instances.values.filter fun i => !i.state.isTerminal).map (·.id)
    let e := live.reverse.foldl (fun e id => e.callAbortHook id fault) e
    { e with
      queue := e.queue.clear, bookmarks := {}, operations := ∅, instances := ∅
      state := .aborted }.trackLifecycle .aborted

/-- Take the journal, and leave an empty one. -/
def takeJournal : List JournalEntry × Executor :=
  (e.journal, { e with journal := [] })

/-- Take the handles that were given out, and leave none. -/
def takeHandles : List OperationHandle × Executor :=
  (e.handles.map e.handleOf, { e with handles := [] })

/-- Take the request to save the workflow. -/
def takePersistRequest : Bool × Executor :=
  (e.persistRequested, { e with persistRequested := false })

/-- Give the executor the services of a host. -/
def withExtensions (x : Extensions) : Executor :=
  { e with extensions := x }

/-- Give the executor the receivers of records. -/
def withTracking (t : TrackingProvider) : Executor :=
  { e with tracking := t }

end Workflow.Executor
