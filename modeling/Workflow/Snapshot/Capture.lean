import Workflow.Definition.Fingerprint
import Workflow.Executor.Run
import Workflow.Snapshot

/-!
# Capturing a workflow

A workflow can be captured while nothing is queued and no operation is outstanding. Capturing only
looks at the executor.
-/

namespace Workflow

/-- The records of named values, in the order of names. -/
def Environment.records (env : Environment) : List NamedValue :=
  env.toList.map fun (name, value) => ⟨name, value⟩

/-- The record of a fault. -/
def Fault.record (d : Definition) (f : Fault) : FaultRecord :=
  ⟨f.error.describe, f.source, (d.node f.sourceNode).path, f.sourceName, f.isTermination⟩

/-- The record of an instance. -/
def Instance.record (d : Definition) (i : Instance) : InstanceRecord where
  id := i.id
  path := (d.node i.node).path
  parent := i.parent
  state := i.state
  environment := i.environment.records
  properties := i.properties.records
  busy := i.busy
  completionCallback := i.completionCallback
  faultCallback := i.faultCallback
  scope := i.scope
  executed := i.executed
  cancelRequested := i.cancelRequested
  markedCanceled := i.markedCanceled
  result := i.result
  fault := i.fault.map (·.record d)

namespace Executor

variable (e : Executor)

/-- An instance and its descendants depth first, children in order of scheduling, down to a
depth. -/
def listDown : Nat → InstanceId → Except PersistenceError (List Instance)
  | 0, id => .error (.unresolvedReference id)
  | depth + 1, id =>
    match e.instance? id with
    | none => .error (.unresolvedReference id)
    | some i => do
      let below ← i.children.mapM (listDown depth)
      return i :: below.flatten

/-- Refuse a workflow that has something to do. -/
def ensureCapturable : Except PersistenceError Unit :=
  if e.state = .aborted then .error (.notIdle "workflow was aborted")
  else if !e.queue.isEmpty then
    .error (.notIdle (toString e.queue.size ++ " work items queued"))
  else if e.state = .runnable then
    .error (.notIdle "workflow has not settled since it last ran")
  else if e.operations.size ≠ 0 then .error (.operationsOutstanding e.operations.size)
  else .ok ()

/-- The image of the workflow. -/
def capture (now : Timestamp) : Except PersistenceError Snapshot := do
  e.ensureCapturable
  let listed ← e.listDown (e.instances.size + 1) e.root
  if listed.length ≠ e.instances.size then
    .error (.invalidSnapshot
      (toString (e.instances.size - listed.length) ++
        " instances are not reachable from the root"))
  return {
    workflow := e.workflow
    fingerprint := e.definition.fingerprint
    state := e.state
    nextInstance := e.nextInstance
    nextOperation := e.nextOperation
    root := e.root
    instances := listed.map (·.record e.definition)
    bookmarks := e.bookmarks.toList
    scopes := e.bookmarks.scopes.toList.map fun (id, owner) => ⟨id, owner⟩
    createdAt := now
    instanceCount := listed.length
    bookmarkCount := e.bookmarks.size }

end Executor

end Workflow
